import FtpOverUdp.Session.Agreement

namespace FtpOverUdp

open Library

namespace Network

def upLine (st : Network) : List Parcel := (st.path.line .one []).contents

-- what an operation emits with NULL_SERVER_ID is dispatched to whichever thread serves the client
def Wildcard (p : Parcel) : Prop :=
  p.msg.type ≠ .handshake ∧ p.msg.serverId = nullServerId ∧ p.session ≠ none

-- the router lets no request of a new sync overtake a wildcard, and no message of a finished
-- operation reaches the thread that serves its client
def Isolating (st : Network) : Event → Prop
  | .route .one _ isDamage => isDamage = false →
      ∀ held ∈ st.path.router.heldFor .two, ∀ packet ∈ (st.path.up .one).head?, Wildcard held →
        packet.msg.type = .handshake → packet.msg.clientId = held.msg.clientId →
          packet.msg.count ≤ (st.clients packet.msg.clientId).completed
  | .receive _ => ∀ p ∈ (st.path.down .two).head?, p.msg.type ≠ .handshake → p.session = none →
      p.msg.serverId ≠ nullServerId ∧ st.tables.clientIds p.msg.clientId ≠ some p.msg.serverId
  | _ => True

def Own (S : ℤ) (p : Parcel) : Prop := p.msg.type = .handshake ∨ p.session = some S

def Gone (st : Network) (c S : ℤ) : Prop := st.Drawn S ∧ st.tables.clientIds c ≠ some S

structure Sealed (st : Network) (p : Parcel) : Prop where
  joined : p.msg.type ≠ .handshake → (st.tables.clientIds p.msg.clientId).isSome
  wildcard : Wildcard p → 1 ≤ (st.clients p.msg.clientId).completed ∧
    p.session = some (st.clients p.msg.clientId).serverIdentifier ∧ st.Settled p.msg.clientId
  stamped : p.msg.type ≠ .handshake → p.msg.serverId ≠ nullServerId → ∀ T, p.session = some T →
    T = p.msg.serverId ∨ st.Gone p.msg.clientId p.msg.serverId

def Ahead (st : Network) (y x : Parcel) : Prop :=
  Wildcard x → y.msg.type = .handshake → y.msg.clientId = x.msg.clientId →
    y.msg.count ≤ (st.clients y.msg.clientId).completed

def StagedOwn (st : Network) : Prop :=
  match st.stage with
  | .ready => True
  | .dispatching S p => Own S p
  | .retiring p | .joining p => p.msg.type = .handshake

structure Isolated (st : Network) : Prop where
  inv : st.Inv
  reused : st.tables.areServerIdsReused = false
  kept : ∀ S, st.Drawn S → (st.tables.threadLocks S).isSome
  served : ∀ m ∈ st.served, (st.tables.clientIds m.clientId).isSome
  upward : ∀ p ∈ st.upLine, st.Sealed p
  order : st.upLine.Pairwise st.Ahead
  staged : st.StagedOwn
  dispatched : ∀ d ∈ st.dispatched, Own d.1 d.2

structure Grows (st st' : Network) : Prop where
  reused : st'.tables.areServerIdsReused = st.tables.areServerIdsReused
  ids : ∀ c, (st.tables.clientIds c).isSome → (st'.tables.clientIds c).isSome
  gone : ∀ c S, st.Gone c S → st'.Gone c S
  kept : ∀ S, st'.Drawn S → (st'.tables.threadLocks S).isSome

variable {st st' : Network} {p : Parcel} {c drawn : ℤ}

theorem Isolated.grows_same (h : st.Isolated)
    (hreused : st'.tables.areServerIdsReused = st.tables.areServerIdsReused)
    (hids : st'.tables.clientIds = st.tables.clientIds)
    (hdrawn : ∀ S, (st'.tables.isThreadActive S).isSome = (st.tables.isThreadActive S).isSome)
    (hlocks : ∀ S, (st'.tables.threadLocks S).isSome = (st.tables.threadLocks S).isSome) :
    st.Grows st' := by
  refine ⟨hreused,fun c hc => ?_,fun c S hg => ⟨?_,?_⟩,fun S hS => ?_⟩
  · rw [hids]
    exact hc
  · rw [Drawn,hdrawn]
    exact hg.1
  · rw [hids]
    exact hg.2
  · rw [Drawn,hdrawn] at hS
    rw [hlocks]
    exact h.kept S hS

theorem Isolated.grows_join (h : st.Isolated)
    (hj : FtpServer.Joins c drawn st.tables st'.tables) : st.Grows st' := by
  have hne {S : ℤ} (hS : st.Drawn S) : S ≠ drawn := by
    rintro rfl
    have hlock := h.kept S hS
    rw [hj.free] at hlock
    cases hlock
  refine ⟨hj.reused,fun c' hc => ?_,fun c' S hg => ⟨?_,?_⟩,fun S hS => ?_⟩
  · rw [hj.ids]
    split_ifs
    · rfl
    · exact hc
  · rw [Drawn,hj.active,Table.insert_of_ne _ _ (hne hg.1)]
    exact hg.1
  · rw [hj.ids]
    split_ifs
    · exact fun he => hne hg.1 (Option.some.inj he).symm
    · exact hg.2
  · rw [hj.locks]
    split_ifs with he
    · rfl
    · rw [Drawn,hj.active,Table.insert_of_ne _ _ he] at hS
      exact h.kept S hS

theorem Isolated.stays (h : st.Isolated) {e : Event} (hs : st.step e = some st')
    (hp : st.Sealed p) (hw : Wildcard p) : Stays st st' p.msg.clientId :=
  h.inv.stays hs (hp.wildcard hw).1 (hp.wildcard hw).2.2

theorem Isolated.sealed (h : st.Isolated) {e : Event} (hs : st.step e = some st')
    (hg : st.Grows st') (hp : st.Sealed p) (hserved : Wildcard p → ∀ m ∈ st'.served, m ∈ st.served ∨
      (m.type = .handshake → m.clientId = p.msg.clientId →
        m.count ≤ (st.clients m.clientId).completed)) : st'.Sealed p := by
  refine ⟨fun ht => hg.ids _ (hp.joined ht),fun hw => ?_,fun ht hne T hT =>
    (hp.stamped ht hne T hT).imp id (hg.gone _ _)⟩
  have hstays := h.stays hs hp hw
  obtain ⟨hone,hsession,hset⟩ := hp.wildcard hw
  rw [hstays.completed,hstays.serverIdentifier]
  refine ⟨hone,hsession,fun m hm hid ht => ?_⟩
  rw [hstays.completed]
  rcases hserved hw m hm with hold | hnew
  · exact hset m hold hid ht
  · exact hid ▸ hnew ht hid

theorem Isolated.ahead (h : st.Isolated) {e : Event} (hs : st.step e = some st') {y : Parcel}
    (hp : st.Sealed p) (ha : st.Ahead y p) : st'.Ahead y p := by
  intro hw ht hid
  rw [hid,(h.stays hs hp hw).completed,← hid]
  exact ha hw ht hid

theorem Isolated.quiet (h : st.Isolated) {e : Event} (hs : st.step e = some st')
    (hg : st.Grows st') (hserved : st'.served = st.served)
    (hup : ∀ x ∈ st'.upLine, x ∈ st.upLine) (horder : st'.upLine.Pairwise st.Ahead)
    (hstaged : st'.StagedOwn) (hdispatched : ∀ d ∈ st'.dispatched, Own d.1 d.2) : st'.Isolated := by
  refine ⟨h.inv.step hs,hg.reused.trans h.reused,hg.kept,fun m hm => ?_,fun x hx => ?_,?_,hstaged,
    hdispatched⟩
  · rw [hserved] at hm
    exact hg.ids _ (h.served m hm)
  · exact h.sealed hs hg (h.upward x (hup x hx)) fun _ m hm => .inl (hserved ▸ hm)
  · exact horder.imp_of_mem fun _ hx ha => h.ahead hs (h.upward _ (hup _ hx)) ha

theorem Isolated.untouched (h : st.Isolated) {e : Event} (hs : st.step e = some st')
    (htables : st'.tables = st.tables) (hserved : st'.served = st.served)
    (hup : ∀ x ∈ st'.upLine, x ∈ st.upLine) (horder : st'.upLine.Pairwise st.Ahead)
    (hstage : st'.stage = st.stage) (hdispatched : st'.dispatched = st.dispatched) :
    st'.Isolated := by
  refine h.quiet hs ?_ hserved hup horder ?_ (hdispatched ▸ h.dispatched)
  · exact h.grows_same (by rw [htables]) (by rw [htables]) (by simp [htables]) (by simp [htables])
  · rw [StagedOwn,hstage]
    exact h.staged

theorem Isolated.routed (h : st.Isolated) {source : Peer} {isDelayed isDamage : Bool}
    (hs : st.step (.route source isDelayed isDamage) = some st')
    (hc : st.Isolating (.route source isDelayed isDamage)) : st'.Isolated := by
  obtain ⟨path,hroute,rfl⟩ := Option.map_eq_some_iff.mp hs
  have hlist : (∀ x ∈ upLine { st with path := path },x ∈ st.upLine) ∧
      (upLine { st with path := path }).Pairwise st.Ahead := by
    rcases Path.contents_route hroute .one [] with hsub | ⟨rfl,rfl,held,packet,rest,hheld,hup,hl,hl'⟩
    · exact ⟨hsub.subset,h.order.sublist hsub⟩
    · have hold : st.upLine = (st.path.line .one []).passed ++ held :: packet :: rest := hl
      have hswap : st.Ahead packet held := hc rfl held hheld packet (by rw [hup]; rfl)
      have horder := DelayLine.pairwise_swap hswap (hold ▸ h.order)
      rw [upLine,hl',hold]
      refine ⟨fun x hx => ?_,horder⟩
      simp only [List.mem_append,List.mem_cons] at hx ⊢
      tauto
  exact h.untouched hs rfl rfl hlist.1 hlist.2 rfl rfl

theorem Isolated.beginSync (h : st.Isolated) {sequenceNumber : ℤ}
    (hs : st.step (.beginSync c sequenceNumber) = some st') : st'.Isolated := by
  have hs' := hs
  obtain ⟨request,-,rfl⟩ := beginSync_spec hs'
  exact h.untouched hs rfl rfl (fun _ => id) h.order rfl rfl

theorem Isolated.emitServer (h : st.Isolated) {msg : Msg}
    (hs : st.step (.emitServer msg) = some st') : st'.Isolated := by
  have hs' := hs
  simp only [Network.step,Network.emitServer] at hs'
  split_ifs at hs'
  obtain rfl := Option.some.inj hs'
  have hup : upLine { st with path := st.path.send .two ⟨msg,none,false⟩ } = st.upLine := by
    rw [upLine,Path.line_send_other _ _ _ (by decide)]
    rfl
  exact h.untouched hs rfl rfl (fun _ => hup ▸ id) (hup ▸ h.order) rfl rfl

theorem Isolated.idle (h : st.Isolated) (hs : st.step .idle = some st') : st'.Isolated := by
  have hs' := hs
  obtain rfl := Option.some.inj hs'
  have hup : upLine { st with path := st.path.idle } = st.upLine := Path.contents_idle ..
  exact h.untouched hs rfl rfl (fun _ => hup ▸ id) (hup ▸ h.order) rfl rfl

theorem Isolated.relay (h : st.Isolated) (hs : st.step .relay = some st') : st'.Isolated := by
  have hs' := hs
  obtain ⟨⟨p,path⟩,htake,he⟩ := Option.map_eq_some_iff.mp hs'
  have hup : st'.upLine = st.upLine := by
    rw [← he,upLine]
    exact congrArg DelayLine.contents (Path.line_take_other htake)
  refine h.untouched hs ?_ ?_ (fun _ => hup ▸ id) (hup ▸ h.order) ?_ ?_ <;> rw [← he] <;> rfl

theorem Isolated.read (h : st.Isolated) (hs : st.step (.read c) = some st') : st'.Isolated := by
  have hs' := hs
  obtain ⟨p,rest,-,⟨-,rfl⟩ | rfl⟩ := read_cases hs'
  all_goals exact h.untouched hs rfl rfl (fun _ => id) h.order rfl rfl

theorem Isolated.handOver (h : st.Isolated) {e : Event} (hs : st.step e = some st') {S : ℤ}
    {stage : DispatcherStage} (hover : st.handOver S p stage = some st') (hown : Own S p)
    (hstage : stage = .ready ∨ stage = .joining p ∧ p.msg.type = .handshake) : st'.Isolated := by
  obtain ⟨w,-,hover⟩ := Option.bind_eq_some_iff.mp hover
  obtain ⟨w',-,rfl⟩ := Option.map_eq_some_iff.mp hover
  obtain ⟨hids,hactive,hlocks,-⟩ := FtpServer.dispatchMessage_tables st.tables S p.msg
  refine h.quiet hs (h.grows_same ?_ hids (fun S => by rw [hactive]) hlocks) rfl (fun _ => id)
    h.order ?_ fun d hd => ?_
  · unfold FtpServer.dispatchMessage
    split_ifs <;> rfl
  · rcases hstage with rfl | ⟨rfl,ht⟩
    · trivial
    · exact ht
  · rcases List.mem_append.mp hd with hd | hd
    · exact h.dispatched d hd
    · rw [List.mem_singleton.mp hd]
      exact hown

theorem Isolated.dispatch (h : st.Isolated) (hs : st.step .dispatch = some st') :
    st'.Isolated := by
  obtain ⟨S,p,hstage,hover⟩ := dispatch_cases hs
  have hown := h.staged
  rw [StagedOwn,hstage] at hown
  exact h.handOver hs hover hown (.inl rfl)

theorem Isolated.retire (h : st.Isolated) (hs : st.step .retire = some st') : st'.Isolated := by
  obtain ⟨p,hstage,hover⟩ := retire_cases hs
  have htype := h.staged
  rw [StagedOwn,hstage] at htype
  exact h.handOver hs hover (.inl htype) (.inr ⟨rfl,htype⟩)

theorem stagedOwn_next {S : ℤ} (hstage : st.stage = next S p) (hown : S ≠ nullServerId → Own S p) :
    st.StagedOwn := by
  rw [StagedOwn,hstage,next]
  split_ifs with hnull
  · trivial
  · exact hown hnull

theorem Isolated.respawn (h : st.Isolated) (hs : st.step (.respawn drawn) = some st') :
    st'.Isolated := by
  obtain ⟨p,hstage,hrespawn,hstage',he⟩ := respawn_cases hs
  have htype := h.staged
  rw [StagedOwn,hstage] at htype
  have hj := FtpServer.joins_respawn hrespawn
  have hkeep : st.tables.releaseId p.msg.serverId = st.tables := by
    rw [FtpServer.releaseId,h.reused]
    rfl
  rw [hkeep] at hj
  have hup : st'.upLine = st.upLine := by rw [he]; rfl
  exact h.quiet hs (h.grows_join hj) (by rw [he]) (fun _ => hup ▸ id) (hup ▸ h.order)
    (stagedOwn_next hstage' fun _ => .inl htype) (by rw [he]; exact h.dispatched)

theorem Isolated.work (h : st.Isolated) {S : ℤ} {disk : Disk}
    (hs : st.step (.work S disk) = some st') : st'.Isolated := by
  have hs' := hs
  obtain ⟨w,stepped,effects,-,-,rfl⟩ := work_cases hs'
  have hup : upLine { st.afterWork S w stepped with path := sendAll st.path (replies w effects) } =
      st.upLine := by
    rw [upLine,line_sendAll]
    rfl
  refine h.quiet hs (h.grows_same ?_ ?_ ?_ ?_) rfl (fun _ => hup ▸ id) (hup ▸ h.order) h.staged
    h.dispatched
  all_goals
    unfold afterWork
    split_ifs <;> simp

theorem upLine_send (st : Network) (p : Parcel) :
    upLine { st with path := st.path.send .one p } = st.upLine ++ [p] := by
  rw [upLine,Path.line_send_self]
  exact DelayLine.contents_push ..

theorem Isolated.sendUp (h : st.Isolated) {e : Event}
    (hs : st.step e = some { st with path := st.path.send .one p }) (hp : st.Sealed p)
    (hahead : ∀ y ∈ st.upLine, st.Ahead y p) :
    Isolated { st with path := st.path.send .one p } := by
  have hg : st.Grows { st with path := st.path.send .one p } :=
    h.grows_same rfl rfl (fun _ => rfl) fun _ => rfl
  refine ⟨h.inv.step hs,h.reused,h.kept,h.served,fun x hx => ?_,?_,h.staged,h.dispatched⟩
  · rw [upLine_send] at hx
    rcases List.mem_append.mp hx with hx | hx
    · exact h.sealed hs hg (h.upward x hx) fun _ m hm => .inl hm
    · obtain rfl := List.mem_singleton.mp hx
      exact ⟨hp.joined,hp.wildcard,hp.stamped⟩
  · rw [upLine_send]
    refine List.pairwise_append.mpr ⟨h.order,List.pairwise_singleton _ _,fun y hy x hx => ?_⟩
    exact List.mem_singleton.mp hx ▸ hahead y hy

theorem Isolated.retransmit (h : st.Isolated) {request : Msg}
    (hs : st.step (.retransmit c request) = some st') : st'.Isolated := by
  have hs' := hs
  simp only [Network.step,Network.retransmit] at hs'
  split_ifs at hs' with hmem
  obtain rfl := Option.some.inj hs'
  have htype : request.type = .handshake := (h.inv.agreed.requests c request hmem).type
  refine h.sendUp hs ⟨fun ht => absurd htype ht,fun hw => absurd htype hw.1,
    fun ht => absurd htype ht⟩ fun y _ hw => absurd htype hw.1

theorem Isolated.joined_of_completed (h : st.Isolated) (hone : 1 ≤ (st.clients c).completed) :
    (st.tables.clientIds c).isSome := by
  by_cases hset : st.Settled c
  · rw [(h.inv.agreed.settled c hone hset).1]
    rfl
  · simp only [Settled,not_forall] at hset
    obtain ⟨m,hm,hid,-,-⟩ := hset
    exact hid ▸ h.served m hm

theorem settled_of_idle (h : st.Agreed) (hidle : (st.clients c).syncing = false) :
    st.Settled c := by
  intro m hm hid ht
  have hle := h.counts m hm ht
  rwa [hid,← show (st.clients c).completed = (st.clients c).syncCount by
    simp [FtpClient.completed,hidle]] at hle

theorem knows_drawn (h : st.Agreed) {S : ℤ} (hk : knows (st.clients c) S = true)
    (hne : S ≠ nullServerId) : st.Drawn S := by
  simp only [knows,Bool.or_eq_true,decide_eq_true_eq,List.any_eq_true] at hk
  rcases hk with (hnull | rfl) | ⟨request,hr,rfl⟩
  · exact absurd hnull hne
  · exact (h.adopted c).resolve_left hne
  · exact (h.requests c request hr).drawn.resolve_left hne

theorem Isolated.emit (h : st.Isolated) {msg : Msg} {outlived : Bool}
    (hs : st.step (.emit msg outlived) = some st') : st'.Isolated := by
  have hs' := hs
  obtain ⟨htype,hone,hk,session,hsession,rfl⟩ := emit_spec hs'
  have hagreed := h.inv.agreed
  refine h.sendUp hs ⟨fun _ => h.joined_of_completed hone,fun hw => ?_,fun _ hne T hT => ?_⟩
    fun y hy hw ht hid => ?_
  · obtain ⟨T,hT⟩ := Option.ne_none_iff_exists'.mp hw.2.2
    obtain ⟨hidle,rfl⟩ := hsession T hT
    exact ⟨hone,hT,settled_of_idle hagreed hidle⟩
  · obtain ⟨hidle,rfl⟩ := hsession T hT
    have hl := hagreed.settled _ hone (settled_of_idle hagreed hidle)
    refine or_iff_not_imp_left.mpr fun hnot => ⟨knows_drawn hagreed hk hne,fun he => hnot ?_⟩
    exact Option.some.inj (hl.1.symm.trans he)
  · obtain ⟨T,hT⟩ := Option.ne_none_iff_exists'.mp hw.2.2
    have hcount := (hagreed.requests _ _ (h.inv.up y hy ht)).count
    rw [hid]
    rw [hid] at hcount
    simpa [FtpClient.completed,(hsession T hT).1] using hcount

section Receive

variable {path : Path Parcel} (hr : st.Receives p path st')
include hr

theorem Receives.head : st.upLine = p :: st'.upLine := by
  rw [upLine,upLine,hr.path]
  exact Path.contents_take hr.take

theorem Isolated.received (h : st.Isolated) (hs : st.step (.receive drawn) = some st')
    (hg : st.Grows st') (hids : (st'.tables.clientIds p.msg.clientId).isSome)
    (hstaged : st'.StagedOwn) : st'.Isolated := by
  have hsealed := h.upward
  have horder := h.order
  rw [hr.head] at hsealed horder
  obtain ⟨hhead,hrest⟩ := List.pairwise_cons.mp horder
  refine ⟨h.inv.step hs,hg.reused.trans h.reused,hg.kept,fun m hm => ?_,fun x hx => ?_,?_,hstaged,
    hr.dispatched ▸ h.dispatched⟩
  · rw [hr.served] at hm
    rcases List.mem_append.mp hm with hm | hm
    · exact hg.ids _ (h.served m hm)
    · exact List.mem_singleton.mp hm ▸ hids
  · refine h.sealed hs hg (hsealed x (List.mem_cons_of_mem p hx)) fun hw m hm => ?_
    rw [hr.served] at hm
    rcases List.mem_append.mp hm with hm | hm
    · exact .inl hm
    · obtain rfl := List.mem_singleton.mp hm
      exact .inr (hhead x hx hw)
  · exact hrest.imp_of_mem fun _ hx ha =>
      h.ahead hs (hsealed _ (List.mem_cons_of_mem p hx)) ha

theorem Isolated.own_current (h : st.Isolated) (hc : st.Isolating (.receive drawn)) {current : ℤ}
    (hcur : st.tables.clientIds p.msg.clientId = some current)
    (hstamp : p.msg.serverId = nullServerId ∨ p.msg.serverId = current) : Own current p := by
  by_cases ht : p.msg.type = .handshake
  · exact .inl ht
  right
  have hp : st.Sealed p := h.upward p (by rw [hr.head]; exact List.mem_cons_self)
  have hhead : p ∈ (st.path.down .two).head? := by
    rw [(Path.take_spec hr.take).1]
    rfl
  have hsession : p.session ≠ none := by
    intro hnone
    obtain ⟨hnull,hother⟩ := hc p hhead ht hnone
    rcases hstamp with hn | he
    · exact hnull hn
    · exact hother (he ▸ hcur)
  by_cases hnull : p.msg.serverId = nullServerId
  · obtain ⟨hone,hid,hset⟩ := hp.wildcard ⟨ht,hnull,hsession⟩
    have hl := h.inv.agreed.settled _ hone hset
    rw [hid]
    exact hl.1.symm.trans hcur
  · have he := hstamp.resolve_left hnull
    obtain ⟨T,hT⟩ := Option.ne_none_iff_exists'.mp hsession
    rcases hp.stamped ht hnull T hT with hown | hgone
    · rw [hT,hown,he]
    · exact absurd (he ▸ hcur) hgone.2

end Receive

theorem Isolated.receive (h : st.Isolated) (hs : st.step (.receive drawn) = some st')
    (hc : st.Isolating (.receive drawn)) : st'.Isolated := by
  obtain ⟨p,path,hr,⟨hnew,hreg,hworkers,hstage⟩ | ⟨⟨ht,hcur⟩,htables,hworkers,hstage⟩ |
    ⟨current,hcur,hre,htables,hworkers,hstage⟩⟩ := receive_cases hs
  · have hj := FtpServer.joins_registerClient hreg hnew
    have ht : p.msg.type = .handshake := by
      by_contra ht
      have hjoined := (h.upward p (by rw [hr.head]; exact List.mem_cons_self)).joined ht
      rw [hnew] at hjoined
      cases hjoined
    refine h.received hr hs (h.grows_join hj) ?_ (stagedOwn_next hstage fun _ => .inl ht)
    rw [hj.ids,if_pos rfl]
    rfl
  · have hg : st.Grows st' := by
      refine h.grows_same (by rw [htables]; rfl) (by rw [htables]; rfl) (fun S => ?_)
        (by rw [htables]; exact fun _ => rfl)
      rw [htables,FtpServer.deactivate_active]
      split_ifs with he
      · exact he ▸ (h.inv.agreed.current_id hcur).2.symm
      · rfl
    refine h.received hr hs hg ?_ ?_
    · exact hg.ids _ (by rw [hcur]; rfl)
    · rw [StagedOwn,hstage]
      exact ht
  · have hg : st.Grows st' :=
      h.grows_same (by rw [htables]) (by rw [htables]) (by simp [htables]) (by simp [htables])
    refine h.received hr hs hg (hg.ids _ (by rw [hcur]; rfl)) (stagedOwn_next hstage fun hne => ?_)
    simp only [FtpServer.resolveId,hcur] at hne ⊢
    split_ifs at hne ⊢ with hstamp
    · by_cases ht : p.msg.type = .handshake
      · exact .inl ht
      · refine h.own_current hr hc hcur ?_
        simpa [FtpServer.requestedId,ht] using hstamp
    · exact absurd rfl hne

theorem Isolated.step (h : st.Isolated) {e : Event} (hc : st.Isolating e)
    (hs : st.step e = some st') : st'.Isolated := by
  cases e with
  | beginSync => exact h.beginSync hs
  | retransmit => exact h.retransmit hs
  | emit => exact h.emit hs
  | emitServer => exact h.emitServer hs
  | route => exact h.routed hs hc
  | idle => exact h.idle hs
  | relay => exact h.relay hs
  | read => exact h.read hs
  | receive => exact h.receive hs hc
  | dispatch => exact h.dispatch hs
  | retire => exact h.retire hs
  | respawn => exact h.respawn hs
  | work => exact h.work hs

theorem isolated_start : (start false).Isolated := by
  have hempty : (start false).upLine = [] := rfl
  refine ⟨inv_start false,rfl,fun S hS => ?_,fun m hm => ?_,fun x hx => ?_,?_,trivial,
    fun d hd => ?_⟩
  · cases hS
  · cases hm
  · rw [hempty] at hx
    cases hx
  · rw [hempty]
    exact .nil
  · cases hd

def unrecycled : System Network Event := { system with init := fun st => st = start false }

theorem dispatched_in_session (h : unrecycled.ReachableUnder Isolating st) {S : ℤ} {p : Parcel}
    (hp : (S,p) ∈ st.dispatched) : p.msg.type = .handshake ∨ p.session = some S := by
  have hisolated := unrecycled.reachableUnder_invariant (I := Isolated)
    (fun _ he => he ▸ isolated_start) (fun _ _ _ hi hc hs => hi.step hc hs) h
  exact hisolated.dispatched _ hp

def plain (st : Network) : Event → Bool
  | .route .one _ _ => st.path.router.fileBuf.isNone
  | .receive _ => (st.path.down .two).all fun p => p.session.isSome || p.msg.type = .handshake
  | _ => true

theorem isolating_of_plain (e : Event) (h : st.plain e = true) : st.Isolating e := by
  cases e with
  | route source isDelayed isDamage =>
    cases source with
    | one =>
      have hnone : st.path.router.fileBuf = none := Option.isNone_iff_eq_none.mp h
      intro _ held hheld
      rw [Router.heldFor_none hnone] at hheld
      cases hheld
    | two => trivial
  | receive drawn =>
    intro p hp ht hnone
    have hplain := List.all_eq_true.mp h p (List.mem_of_mem_head? hp)
    simp [hnone,ht] at hplain
  | _ => trivial

def clientAck : Msg := (Receiver.create nullServerId 1).ackMsg 3

theorem dispatched_in_session_ack : ∃ (S : ℤ) (p : Parcel), p.msg = clientAck ∧
    (p.msg.type = .handshake ∨ p.session = some S) := by
  let events := syncRun 1 7 (syncRequest 1 nullServerId 1) ++
    [.emit clientAck false,.route .one false false,.receive 0,.work 7 .empty,.dispatch]
  have hplain : unrecycled.check plain (start false) events = true := by decide +kernel
  have hrun : (unrecycled.run (start false) events).any (fun st =>
      st.dispatched.any fun d => decide (d.1 = 7 ∧ d.2.msg = clientAck)) = true := by
    decide +kernel
  obtain ⟨st,hst,hend⟩ := (Option.any_eq_true _ _).mp hrun
  obtain ⟨⟨S,p⟩,hp,he⟩ := List.any_eq_true.mp hend
  have hunder := unrecycled.reachableUnder_of_run rfl
    (unrecycled.along_of_check (fun _ => isolating_of_plain) hplain) hst
  exact ⟨S,p,(of_decide_eq_true he).2,dispatched_in_session hunder hp⟩

-- the router holds the ACK while the request of the next sync passes, and thread 9 is handed it
theorem ack_reaches_next_session : ¬∀ st, unrecycled.Reachable st → ∀ S p, (S,p) ∈ st.dispatched →
    p.msg.type = .handshake ∨ p.session = some S := by
  intro h
  let events := syncRun 1 7 (syncRequest 1 nullServerId 1) ++
    [.emit clientAck false,.route .one true false,.beginSync 1 0,
      .retransmit 1 (syncRequest 1 7 2),.route .one false false,.receive 0,.work 7 .empty,
      .retire,.respawn 9,.receive 0,.work 9 .empty,.work 9 .empty,.dispatch]
  have hrun : (unrecycled.run (start false) events).any (fun st =>
      st.dispatched.any fun d => decide (d.1 = 9 ∧ d.2.msg.type = .ack ∧ d.2.session = some 7)) =
        true := by
    decide +kernel
  obtain ⟨st,hst,hend⟩ := (Option.any_eq_true _ _).mp hrun
  obtain ⟨⟨S,p⟩,hp,he⟩ := List.any_eq_true.mp hend
  obtain ⟨rfl,htype,hsession⟩ := of_decide_eq_true he
  rcases h st (unrecycled.reachable_of_run rfl hst) 9 p hp with ht | hown
  · rw [htype] at ht
    cases ht
  · rw [hsession] at hown
    cases hown

end Network
end FtpOverUdp
