import FtpOverUdp.Router.Path

namespace FtpOverUdp

namespace Router

variable {α : Type}

def Calm (r : Router α) : Prop := r.fileBuf = none → r.waitCount = 0

theorem Calm.receive {r : Router α} (h : r.Calm) (destination : Peer) (packet : α)
    (isDelayed isDamage : Bool) : (r.receive destination packet isDelayed isDamage).1.Calm := by
  obtain ⟨buf,wait⟩ := r
  cases buf with
  | none =>
    obtain rfl : wait = 0 := h rfl
    cases isDelayed <;> cases isDamage <;> simp [Router.receive,forward,Calm]
  | some held =>
    cases isDamage with
    | true => simp [Router.receive,Calm]
    | false =>
      by_cases he : held.1 = destination
      · simp [Router.receive,forward,sendProc,he,Calm]
      · simp [Router.receive,forward,he,Calm]

theorem Calm.idle {r : Router α} (h : r.Calm) : r.idle.1.Calm := by
  obtain ⟨buf,wait⟩ := r
  cases buf with
  | none => exact h
  | some held => by_cases hw : wait + 1 ≥ 3 <;> simp [Router.idle,hw,sendProc,Calm]

-- the turns a held packet may still wait, and the place it will take
def holding (r : Router α) : ℕ := if r.fileBuf.isSome then 3 + (3 - r.waitCount) else 0

theorem receive_damage (r : Router α) (destination : Peer) (packet : α) :
    (r.receive destination packet false true).2 = [] ∧
      (r.receive destination packet false true).1.holding ≤ r.holding := by
  obtain ⟨buf,wait⟩ := r
  cases buf with
  | none => exact ⟨rfl,le_rfl⟩
  | some held =>
    refine ⟨rfl,?_⟩
    simp only [receive,holding,Option.isSome_some,Option.isNone_some,Bool.false_and,if_true,
      Bool.false_eq_true,if_false]
    omega

theorem idle_holding {r : Router α} {d : Peer} {packet : α} (h : r.fileBuf = some (d,packet)) :
    (r.idle.2 = [] ∧ r.idle.1.holding < r.holding) ∨
      (r.idle.2 = [packet].map (d,·) ∧ r.idle.1.holding = 0 ∧ 3 ≤ r.holding) := by
  obtain ⟨buf,wait⟩ := r
  obtain rfl := h
  by_cases hw : wait + 1 ≥ 3
  · right
    simp [idle,hw,sendProc,holding]
  · left
    simp only [idle,hw,holding,Option.isSome_some,if_true,if_false,true_and]
    omega

end Router

namespace Path

variable {α : Type}

def backlog (p : Path α) (source : Peer) : ℕ :=
  (p.up source).length + (p.up source.other).length + p.router.holding +
    (p.down source).length + 2 * (p.down source.other).length

theorem fifo_of_backlog {p : Path α} {source : Peer} (hcalm : p.router.Calm)
    (h : p.backlog source = 0) : p = fifo fun _ => [] := by
  obtain ⟨up,⟨buf,wait⟩,down⟩ := p
  simp only [backlog] at h
  have hup : up source = [] := List.length_eq_zero_iff.mp (by omega)
  have hup' : up source.other = [] := List.length_eq_zero_iff.mp (by omega)
  have hdown : down source = [] := List.length_eq_zero_iff.mp (by omega)
  have hdown' : down source.other = [] := List.length_eq_zero_iff.mp (by omega)
  have hempty : ∀ {f : Peer → List α}, f source = [] → f source.other = [] → f = fun _ => [] := by
    intro f hf hf'
    funext peer
    rcases Peer.eq_or_eq_other source peer with rfl | rfl
    · exact hf
    · exact hf'
  obtain rfl := hempty hup hup'
  obtain rfl := hempty hdown hdown'
  cases buf with
  | some held => simp [Router.holding] at h
  | none =>
    obtain rfl : wait = 0 := hcalm rfl
    rfl

theorem backlog_damage (mark : α → α) {p : Path α} {peer : Peer} {packet : α} {rest : List α}
    (hup : p.up peer = packet :: rest) (source : Peer) :
    ∃ p', p.route mark peer false true = some p' ∧ p'.backlog source < p.backlog source := by
  obtain ⟨hout,hheld⟩ := p.router.receive_damage peer.other packet
  refine ⟨_,by simp only [route,hup,Bool.and_false,Bool.false_eq_true,if_false]; rfl,?_⟩
  simp only [backlog,deliver,hout,Router.sentTo,List.filter_nil,List.map_nil,List.append_nil]
  rcases Peer.eq_or_eq_other source peer with rfl | rfl
  · rw [Function.update_self,Function.update_of_ne (Peer.other_ne _),hup,List.length_cons]
    omega
  · rw [Function.update_self,Function.update_of_ne (Peer.ne_other _),hup,List.length_cons]
    omega

theorem backlog_idle {p : Path α} {held : Peer × α} (hbuf : p.router.fileBuf = some held)
    (source : Peer) : p.idle.backlog source < p.backlog source := by
  simp only [backlog,idle,deliver]
  rcases Router.idle_holding hbuf with ⟨hout,hlt⟩ | ⟨hout,hzero,hge⟩
  · simp only [hout,Router.sentTo,List.filter_nil,List.map_nil,List.append_nil]
    omega
  · rw [hout,hzero]
    rcases Peer.eq_or_eq_other source held.1 with he | he
    · rw [he,Router.sentTo_self,Router.sentTo_ne (Peer.ne_other source)]
      simp only [List.length_append,List.length_singleton,List.length_nil]
      omega
    · rw [he,Router.sentTo_self,Router.sentTo_ne (Peer.other_ne source)]
      simp only [List.length_append,List.length_singleton,List.length_nil]
      omega

theorem backlog_take {p p' : Path α} {peer : Peer} {packet : α}
    (h : p.take peer = some (packet,p')) (source : Peer) :
    p'.backlog source + (if peer = source then 1 else 2) = p.backlog source := by
  obtain ⟨hd,hp⟩ := take_spec h
  rw [hp]
  simp only [backlog]
  rcases Peer.eq_or_eq_other source peer with rfl | rfl
  · rw [if_pos rfl,hd,Function.update_self,Function.update_of_ne (Peer.other_ne _),
      List.length_cons]
    omega
  · rw [if_neg (Peer.other_ne _),hd,Function.update_self,Function.update_of_ne (Peer.ne_other _),
      List.length_cons]
    omega

theorem backlog_send (p : Path α) (source peer : Peer) (packet : α) :
    (p.send peer packet).backlog source = p.backlog source + 1 := by
  simp only [backlog,send]
  rcases Peer.eq_or_eq_other source peer with rfl | rfl
  · rw [Function.update_self,Function.update_of_ne (Peer.other_ne _),List.length_append,
      List.length_singleton]
    omega
  · rw [Function.update_self,Function.update_of_ne (Peer.ne_other _),List.length_append,
      List.length_singleton]
    omega

-- what a path that is not empty can do next: a packet waits to be routed, is held, or has arrived
theorem backlog_cases {p : Path α} {source : Peer} (h : p.backlog source ≠ 0) :
    (∃ peer packet rest, p.up peer = packet :: rest) ∨ (∃ held, p.router.fileBuf = some held) ∨
      ∃ peer packet p', p.take peer = some (packet,p') := by
  by_contra hnone
  simp only [not_or,not_exists] at hnone
  obtain ⟨hup,hbuf,hdown⟩ := hnone
  have hempty : ∀ peer, p.up peer = [] := fun peer => by
    cases he : p.up peer with
    | nil => rfl
    | cons packet rest => exact absurd he (hup peer packet rest)
  have hgone : ∀ peer, p.down peer = [] := fun peer => by
    cases he : p.down peer with
    | nil => rfl
    | cons packet rest => exact absurd (by simp only [take,he]; rfl) (hdown peer packet _)
  have hheld : p.router.holding = 0 := by
    cases he : p.router.fileBuf with
    | none => simp [Router.holding,he]
    | some held => exact absurd he (hbuf held)
  exact h (by simp [backlog,hempty,hgone,hheld])

end Path
end FtpOverUdp
