import FtpOverUdp.Router.Router

namespace FtpOverUdp

open Library

structure Path (α : Type) where
  up : Peer → List α
  router : Router α
  down : Peer → List α

namespace Path

variable {α : Type}

def start : Path α := ⟨fun _ => [],Router.start,fun _ => []⟩

def send (p : Path α) (source : Peer) (packet : α) : Path α :=
  { p with up := Function.update p.up source (p.up source ++ [packet]) }

def deliver (p : Path α) (r : Router α × List (Peer × α)) : Path α :=
  { p with
    router := r.1
    down := fun d => p.down d ++ Router.sentTo d r.2 }

-- `mark` is the identity on what travels; it only lets a proof see which copies were held
def route (mark : α → α) (p : Path α) (source : Peer) (isDelayed isDamage : Bool) :
    Option (Path α) :=
  match p.up source with
  | [] => none
  | packet :: rest =>
    let seen := if p.router.fileBuf.isNone && isDelayed then mark packet else packet
    some (deliver { p with up := Function.update p.up source rest }
      (p.router.receive source.other seen isDelayed isDamage))

def idle (p : Path α) : Path α := p.deliver p.router.idle

def take (p : Path α) (destination : Peer) : Option (α × Path α) :=
  match p.down destination with
  | [] => none
  | packet :: rest => some (packet,{ p with down := Function.update p.down destination rest })

-- `f` is told which peer has sent the packet
def map (f : Peer → α → α) (p : Path α) : Path α where
  up source := (p.up source).map (f source)
  router := { p.router with
    fileBuf := p.router.fileBuf.map fun held => (held.1,f held.1.other held.2) }
  down destination := (p.down destination).map (f destination.other)

def line (p : Path α) (source : Peer) (taken : List α) : DelayLine α :=
  ⟨taken ++ p.down source.other,p.router.heldFor source.other,p.up source⟩

variable {p p' : Path α} {source : Peer} {taken : List α}

theorem line_map (f : Peer → α → α) (p : Path α) (source : Peer) (taken : List α) :
    (p.map f).line source (taken.map (f source)) = (p.line source taken).map (f source) := by
  have hheld : (p.map f).router.heldFor source.other =
      (p.router.heldFor source.other).map (f source) := by
    cases hbuf : p.router.fileBuf with
    | none =>
      have hnone : (p.map f).router.fileBuf = none := by rw [map,hbuf]; rfl
      rw [Router.heldFor_none hnone,Router.heldFor_none hbuf]
      rfl
    | some held =>
      have hsome : (p.map f).router.fileBuf = some (held.1,f held.1.other held.2) := by
        rw [map,hbuf]
        rfl
      rw [Router.heldFor_some hsome,Router.heldFor_some (y := held.2) hbuf]
      split_ifs with hd
      · rw [hd,Peer.other_other]
        rfl
      · rfl
  rw [line,hheld,line,DelayLine.map,List.map_append]
  simp [map]

theorem line_send_self (p : Path α) (source : Peer) (taken : List α) (packet : α) :
    (p.send source packet).line source taken = (p.line source taken).push packet := by
  simp [line,send,DelayLine.push]

theorem line_send_other (p : Path α) {source other : Peer} (taken : List α) (packet : α)
    (h : source ≠ other) : (p.send other packet).line source taken = p.line source taken := by
  simp [line,send,Function.update_of_ne h]

theorem take_spec {destination : Peer} {packet : α}
    (h : p.take destination = some (packet,p')) :
    p.down destination = packet :: p'.down destination ∧
      p' = { p with down := Function.update p.down destination (p'.down destination) } := by
  simp only [take] at h
  split at h
  · cases h
  · rename_i hd
    simp only [Option.some.injEq,Prod.mk.injEq] at h
    obtain ⟨rfl,rfl⟩ := h
    simp [hd]

theorem line_take_self {packet : α} (h : p.take source.other = some (packet,p')) :
    p'.line source (taken ++ [packet]) = p.line source taken := by
  obtain ⟨hd,hp⟩ := take_spec h
  rw [hp]
  simp [line,hd]

theorem line_take_other {packet : α} (h : p.take source = some (packet,p')) :
    p'.line source taken = p.line source taken := by
  obtain ⟨_,hp⟩ := take_spec h
  rw [hp]
  simp [line]

theorem line_deliver (p : Path α) (r : Router α × List (Peer × α)) (source : Peer)
    (taken : List α) : (p.deliver r).line source taken =
      ⟨(p.line source taken).passed ++ Router.sentTo source.other r.2,
        r.1.heldFor source.other,p.up source⟩ := by
  simp [line,deliver]

theorem route_spec {mark : α → α} {origin : Peer} {isDelayed isDamage : Bool}
    (h : p.route mark origin isDelayed isDamage = some p') :
    ∃ packet rest, p.up origin = packet :: rest ∧
      p' = deliver { p with up := Function.update p.up origin rest }
        (p.router.receive origin.other
          (if p.router.fileBuf.isNone && isDelayed then mark packet else packet)
          isDelayed isDamage) := by
  simp only [route] at h
  split at h
  · cases h
  · rename_i packet rest hup
    exact ⟨packet,rest,hup,(Option.some.inj h).symm⟩

theorem line_route_self {mark : α → α} {admits : α → Prop} {isDelayed isDamage : Bool}
    (h : p.route mark source isDelayed isDamage = some p')
    (hadm : ∀ packet rest, p.up source = packet :: rest → p.router.fileBuf = none →
      isDelayed = true → admits packet) :
    DelayLine.Step mark admits (p.line source taken) (p'.line source taken) := by
  obtain ⟨packet,rest,hup,rfl⟩ := route_spec h
  have hadm' := hadm packet rest hup
  rw [line_deliver]
  have hline : p.line source taken =
      ⟨(p.line source taken).passed,p.router.heldFor source.other,packet :: rest⟩ := by
    rw [← hup]
    rfl
  rw [hline]
  simp only [Function.update_self]
  change DelayLine.Step mark admits _ ⟨(p.line source taken).passed ++ _,_,rest⟩
  generalize hseen : (if p.router.fileBuf.isNone && isDelayed then mark packet else packet) = seen
  rcases p.router.receive_cases source.other seen isDelayed isDamage with
    ⟨hnone,hdel,hbuf,hout⟩ | ⟨hnone,hbuf,hout⟩ | ⟨hnone,hheld,hbuf,hout⟩ | ⟨y,hsome,hbuf,hout⟩
  · have hs : seen = mark packet := by simp [← hseen,hnone,hdel]
    rw [hout,Router.heldFor_none hnone,Router.heldFor_some hbuf,if_pos rfl,hs]
    simpa [Router.sentTo] using DelayLine.Step.hold (hadm' hnone hdel)
  · rw [hout,Router.heldFor_congr hbuf]
    simpa [Router.sentTo] using DelayLine.Step.drop
  · have hs : seen = packet := by
      cases hb : p.router.fileBuf with
      | none => simp [← hseen,hnone hb]
      | some _ => simp [← hseen,hb]
    rw [hout,Router.sentTo_self,Router.heldFor_congr hbuf,hheld,hs]
    exact .pass
  · have hs : seen = packet := by simp [← hseen,hsome]
    rw [hout,Router.sentTo_self,Router.heldFor_none hbuf,Router.heldFor_some hsome,if_pos rfl,hs]
    exact .overtake

theorem line_route_other {mark : α → α} {origin : Peer} {isDelayed isDamage : Bool}
    (h : p.route mark origin isDelayed isDamage = some p') (hne : origin ≠ source) :
    p'.line source taken = p.line source taken := by
  obtain ⟨packet,rest,_,rfl⟩ := route_spec h
  have hdest : origin.other ≠ source.other := fun he => hne (by
    simpa using congrArg Peer.other he)
  rw [line_deliver]
  simp only [Function.update_of_ne hne.symm]
  rcases p.router.receive_cases origin.other
    (if p.router.fileBuf.isNone && isDelayed then mark packet else packet) isDelayed isDamage with
    ⟨hnone,_,hbuf,hout⟩ | ⟨_,hbuf,hout⟩ | ⟨_,_,hbuf,hout⟩ | ⟨y,hsome,hbuf,hout⟩
  · rw [hout,Router.heldFor_some hbuf,if_neg hdest]
    simp [line,Router.sentTo,Router.heldFor_none hnone]
  · rw [hout,Router.heldFor_congr hbuf]
    simp [line,Router.sentTo]
  · rw [hout,Router.sentTo_ne hdest,Router.heldFor_congr hbuf]
    simp [line]
  · rw [hout,Router.sentTo_ne hdest,Router.heldFor_none hbuf]
    simp [line,Router.heldFor_some hsome,hdest]

theorem line_idle (mark : α → α) (admits : α → Prop) (p : Path α) (source : Peer)
    (taken : List α) : p.idle.line source taken = p.line source taken ∨
      DelayLine.Step mark admits (p.line source taken) (p.idle.line source taken) := by
  rw [idle,line_deliver]
  rcases p.router.idle_cases with ⟨hbuf,hout⟩ | ⟨d,y,hsome,hbuf,hout⟩
  · left
    rw [hout,Router.heldFor_congr hbuf]
    simp [line,Router.sentTo]
  · have hline : p.line source taken =
        ⟨(p.line source taken).passed,p.router.heldFor source.other,p.up source⟩ := rfl
    rw [hout,Router.heldFor_none hbuf,hline,Router.heldFor_some hsome]
    by_cases hd : d = source.other
    · subst hd
      right
      rw [Router.sentTo_self,if_pos rfl]
      exact .release
    · left
      rw [Router.sentTo_ne hd,if_neg hd,List.append_nil]

def Evolves (mark : α → α) (admits : Peer → α → Prop) (p p' : Path α) : Prop :=
  ∀ source taken, p'.line source taken = p.line source taken ∨
    DelayLine.Step mark (admits source) (p.line source taken) (p'.line source taken)

theorem evolves_route {mark : α → α} {admits : Peer → α → Prop} {origin : Peer}
    {isDelayed isDamage : Bool} (h : p.route mark origin isDelayed isDamage = some p')
    (hadm : ∀ packet rest, p.up origin = packet :: rest → p.router.fileBuf = none →
      isDelayed = true → admits origin packet) : Evolves mark admits p p' := by
  intro peer taken
  by_cases he : origin = peer
  · subst he
    exact .inr (line_route_self h hadm)
  · exact .inl (line_route_other h he)

theorem evolves_idle (mark : α → α) (admits : Peer → α → Prop) (p : Path α) :
    Evolves mark admits p p.idle :=
  fun peer taken => line_idle mark (admits peer) p peer taken

theorem Evolves.all {mark : α → α} {admits : Peer → α → Prop} (h : Evolves mark admits p p')
    {P : α → Prop} (hmark : ∀ a, P a → P (mark a)) (hall : (p.line source taken).All P) :
    (p'.line source taken).All P := by
  rcases h source taken with he | hs
  · exact he ▸ hall
  · exact hall.step hmark hs

theorem Evolves.held {mark : α → α} {admits : Peer → α → Prop} (h : Evolves mark admits p p')
    {late : α → Prop} (hmark : ∀ a, late (mark a)) (hheld : ∀ y ∈ (p.line source taken).held, late y) :
    ∀ y ∈ (p'.line source taken).held, late y := by
  rcases h source taken with he | hs
  · exact he ▸ hheld
  · exact hs.held hmark hheld

theorem contents_take {packet : α} (h : p.take source.other = some (packet,p')) :
    (p.line source []).contents = packet :: (p'.line source []).contents := by
  rw [← line_take_self h]
  rfl

theorem all_nil {P : α → Prop} (hall : (p.line source taken).All P) : (p.line source []).All P := by
  intro x hx
  refine hall x ?_
  simp only [line,List.nil_append,List.append_assoc] at hx ⊢
  exact List.mem_append_right taken hx

theorem all_take {P : α → Prop} {packet : α} (source : Peer)
    (h : p.take source.other = some (packet,p')) (hall : (p.line source []).All P) :
    P packet ∧ (p'.line source []).All P := by
  have hcontents : ∀ x ∈ (p.line source []).contents, P x := hall
  rw [contents_take h,List.forall_mem_cons] at hcontents
  exact hcontents

theorem contents_idle (p : Path α) (source : Peer) (taken : List α) :
    (p.idle.line source taken).contents = (p.line source taken).contents := by
  rw [idle,line_deliver]
  rcases p.router.idle_cases with ⟨hbuf,hout⟩ | ⟨d,y,hsome,hbuf,hout⟩
  · rw [hout,Router.heldFor_congr hbuf]
    simp [DelayLine.contents,DelayLine.waiting,line,Router.sentTo]
  · rw [hout,Router.heldFor_none hbuf]
    by_cases hd : d = source.other
    · subst hd
      rw [Router.sentTo_self]
      simp [DelayLine.contents,DelayLine.waiting,line,Router.heldFor_some hsome]
    · rw [Router.sentTo_ne hd]
      simp [DelayLine.contents,DelayLine.waiting,line,Router.heldFor_some hsome,hd]

theorem contents_line (p : Path α) (source : Peer) (taken : List α) :
    (p.line source taken).contents = (p.line source taken).passed ++
      ((p.router.heldFor source.other).toList ++ p.up source) := rfl

theorem contents_deliver (p : Path α) (source : Peer) (rest taken : List α)
    (r : Router α × List (Peer × α)) :
    ((deliver { p with up := Function.update p.up source rest } r).line source taken).contents =
      (p.line source taken).passed ++ Router.sentTo source.other r.2 ++
        ((r.1.heldFor source.other).toList ++ rest) := by
  rw [line_deliver]
  simp only [DelayLine.contents,DelayLine.waiting,Function.update_self]
  rfl

theorem contents_route_own {isDelayed isDamage : Bool} {source : Peer}
    (h : p.route id source isDelayed isDamage = some p') (taken : List α) :
    (p'.line source taken).contents.Sublist (p.line source taken).contents ∨
      isDamage = false ∧ ∃ held packet rest,
        p.router.heldFor source.other = some held ∧ p.up source = packet :: rest ∧
        (p.line source taken).contents =
          (p.line source taken).passed ++ held :: packet :: rest ∧
        (p'.line source taken).contents =
          (p.line source taken).passed ++ packet :: held :: rest := by
  obtain ⟨packet,rest,hup,rfl⟩ := route_spec h
  rw [contents_deliver,contents_line p,hup]
  simp only [id_eq,ite_self]
  rcases p.router.receive_cases source.other packet isDelayed isDamage with
    ⟨hnone,-,hbuf,hout⟩ | ⟨-,hbuf,hout⟩ | ⟨-,hheld,hbuf,hout⟩ | ⟨held,hsome,hbuf,hout⟩
  · left
    rw [hout,Router.heldFor_none hnone,Router.heldFor_some hbuf,if_pos rfl]
    simp [Router.sentTo]
  · left
    rw [hout,Router.heldFor_congr hbuf]
    simp [Router.sentTo]
  · left
    rw [hout,Router.sentTo_self,Router.heldFor_congr hbuf,hheld]
    simp
  · right
    have hdamage : isDamage = false := by
      cases isDamage with
      | false => rfl
      | true => simp [Router.receive,hsome] at hout
    have hheld : p.router.heldFor source.other = some held := by
      rw [Router.heldFor_some hsome,if_pos rfl]
    refine ⟨hdamage,held,packet,rest,hheld,rfl,?_,?_⟩
    · rw [hheld]
      rfl
    · rw [hout,Router.sentTo_self,Router.heldFor_none hbuf]
      simp

theorem contents_route {isDelayed isDamage : Bool} {origin : Peer}
    (h : p.route id origin isDelayed isDamage = some p') (source : Peer) (taken : List α) :
    (p'.line source taken).contents.Sublist (p.line source taken).contents ∨
      origin = source ∧ isDamage = false ∧ ∃ held packet rest,
        p.router.heldFor source.other = some held ∧ p.up source = packet :: rest ∧
        (p.line source taken).contents =
          (p.line source taken).passed ++ held :: packet :: rest ∧
        (p'.line source taken).contents =
          (p.line source taken).passed ++ packet :: held :: rest := by
  by_cases he : origin = source
  · subst he
    exact (contents_route_own h taken).imp id fun hswap => ⟨rfl,hswap⟩
  · left
    rw [line_route_other h he]

def fifo (up : Peer → List α) : Path α := ⟨up,Router.start,fun _ => []⟩

theorem fifo_send (up : Peer → List α) (source : Peer) (packet : α) :
    (fifo up).send source packet =
      fifo (Function.update up source (up source ++ [packet])) := rfl

theorem route_fifo_damage {up : Peer → List α} {packet : α} {rest : List α}
    (mark : α → α) (h : up source = packet :: rest) :
    (fifo up).route mark source false true = some (fifo (Function.update up source rest)) := by
  simp [route,fifo,h,deliver,Router.receive,Router.start,Router.sentTo]

theorem route_fifo_forward {up : Peer → List α} {packet : α} {rest : List α}
    (mark : α → α) (h : up source = packet :: rest) :
    ∃ mid, (fifo up).route mark source false false = some mid ∧
      mid.take source.other = some (packet,fifo (Function.update up source rest)) := by
  refine ⟨⟨Function.update up source rest,Router.start,
    Function.update (fun _ => []) source.other [packet]⟩,?_,?_⟩
  · have hsent : (fun d => Router.sentTo d [(source.other,packet)]) =
        Function.update (fun _ => []) source.other [packet] := by
      funext d
      by_cases hd : d = source.other
      · subst hd
        rw [Function.update_self]
        exact Router.sentTo_self _ [packet]
      · rw [Function.update_of_ne hd]
        exact Router.sentTo_ne (Ne.symm hd) [packet]
    simp [route,fifo,h,deliver,Router.receive,Router.forward,Router.start,← hsent]
  · simp [take,fifo]

end Path
end FtpOverUdp
