import FtpOverUdp.Session.Agreement
import FtpOverUdp.Session.Turn
import FtpOverUdp.UdpServer.Rehandshake

namespace FtpOverUdp

open Library

namespace FtpServer

-- a HANDSHAKE stamped with `serverId` reaches the client's thread, if not at once then by its copy
def Hears (tables : FtpServer) (c serverId : ℤ) : Prop :=
  ∀ message drawn s target, message.clientId = c → message.type = .handshake →
    message.serverId = serverId → tables.getServerId drawn message = some (s,target) →
      ∃ T, T ≠ nullServerId ∧ s.clientIds c = some T ∧
        (target = T ∨ ∀ drawn', s.getServerId drawn' message = some (s,T))

variable {tables s : FtpServer} {c S id : ℤ} {message : Msg}

theorem getServerId_current (hcur : tables.clientIds message.clientId = some S)
    (htype : message.type = .handshake) (hne : message.serverId ≠ S)
    (hid : message.serverId = nullServerId ∨
      tables.pastServerIds message.clientId = some message.serverId) (drawn : ℤ) :
    tables.getServerId drawn message = some (tables,S) := by
  have hrequest : tables.requestedId S message = nullServerId ∨
      tables.requestedId S message = S := by
    unfold requestedId
    split_ifs with hpast
    · exact Or.inr rfl
    · exact Or.inl (hid.resolve_right fun h => hpast ⟨htype,hne,h⟩)
  simp only [getServerId,hcur,hne,and_false,if_false,resolveId,if_pos hrequest]

theorem hears_of_remembered (hcur : tables.clientIds c = some S) (hS : S ≠ nullServerId)
    (hid : id = nullServerId ∨ id = S ∨ tables.pastServerIds c = some id) : tables.Hears c id := by
  rintro message drawn s target rfl htype rfl hs
  by_cases hsame : message.serverId = S
  · simp only [getServerId,hcur,htype,hsame,and_self,if_true] at hs
    obtain ⟨s',hr,he⟩ := Option.map_eq_some_iff.mp hs
    obtain ⟨rfl,rfl⟩ := Prod.mk.inj he
    have hre := restartSession_respawned hr
    have hids : s'.clientIds message.clientId = some drawn := by rw [hre.ids,Table.assign_self]
    have hpast : s'.pastServerIds message.clientId = some message.serverId := by
      rw [hre.past,Table.assign_self,hsame]
    refine ⟨drawn,?_,hids,?_⟩
    · have hlo := hre.lower
      simp only [nullServerId]
      omega
    · by_cases hagain : message.serverId = drawn
      · left
        rw [resolveId,hids]
        exact if_pos (Or.inr (hsame.symm.trans hagain))
      · exact Or.inr (getServerId_current hids htype hagain (Or.inr hpast))
  · have hpast := hid.imp id fun h => h.resolve_left hsame
    rw [getServerId_current hcur htype hsame hpast] at hs
    obtain ⟨rfl,rfl⟩ := Prod.mk.inj (Option.some.inj hs)
    exact ⟨S,hS,hcur,Or.inl rfl⟩

end FtpServer

namespace Network

def Remembers (st : Network) (c : ℤ) : Prop := ∀ S, st.tables.clientIds c = some S →
  (st.clients c).serverIdentifier = nullServerId ∨ (st.clients c).serverIdentifier = S ∨
    st.tables.pastServerIds c = some (st.clients c).serverIdentifier

structure Known (st : Network) (c : ℤ) : Prop where
  remembered : st.Remembers c
  heard : st.stage = .ready → (st.tables.clientIds c).isSome →
    st.tables.Hears c (st.clients c).serverIdentifier

def TakesStaleHandshake (st : Network) : Event → Prop
  | .receive _ => st.stage = .ready ∧ ∃ p path, st.path.take .two = some (p,path) ∧
      p.msg.type = .handshake ∧ st.tables.clientIds p.msg.clientId = some p.msg.serverId ∧
        p.msg.count ≤ (st.clients p.msg.clientId).completed
  | _ => False

def Restarting (st : Network) (p : Parcel) : Prop := st.stage = .retiring p ∨ st.stage = .joining p

structure Stamped (st : Network) : Prop where
  counted : ∀ c, ∀ r ∈ (st.clients c).requests, 1 ≤ r.count
  stale : ∀ c, ∀ r ∈ (st.clients c).requests, r.count ≤ (st.clients c).completed →
    r.serverId ≠ (st.clients c).serverIdentifier
  named : ∀ c, 1 ≤ (st.clients c).completed → (st.clients c).serverIdentifier ≠ nullServerId
  unknown : ∀ c, st.tables.clientIds c = none → (st.clients c).serverIdentifier = nullServerId
  restarting : ∀ p, st.Restarting p → st.tables.pastServerIds p.msg.clientId = some p.msg.serverId

variable {st st' : Network} {c drawn : ℤ}

theorem known_iff_remembers (h : st.Inv) : (∀ c, st.Known c) ↔ ∀ c, st.Remembers c := by
  constructor
  · exact fun hk c => (hk c).remembered
  · refine fun hr c => ⟨hr c,fun _ hsome => ?_⟩
    obtain ⟨S,hS⟩ := Option.isSome_iff_exists.mp hsome
    exact FtpServer.hears_of_remembered hS (h.agreed.current_id hS).1 (hr c S hS)

structure SameIds (tables tables' : FtpServer) : Prop where
  reused : tables'.areServerIdsReused = tables.areServerIdsReused
  ids : tables'.clientIds = tables.clientIds
  past : tables'.pastServerIds = tables.pastServerIds
  active : tables'.isThreadActive = tables.isThreadActive
  locks : ∀ S, (tables'.threadLocks S).isSome = (tables.threadLocks S).isSome

theorem sameIds_refl (tables : FtpServer) : SameIds tables tables :=
  ⟨rfl,rfl,rfl,rfl,fun _ => rfl⟩

theorem sameIds_dispatchMessage (tables : FtpServer) (S : ℤ) (message : Msg) :
    SameIds tables (tables.dispatchMessage S message) := by
  obtain ⟨hids,hactive,hlocks,-⟩ := tables.dispatchMessage_tables S message
  exact ⟨tables.dispatchMessage_reused S message,hids,tables.dispatchMessage_pastServerIds S message,
    hactive,hlocks⟩

-- the events that neither move a client nor open or close a session
structure Quiet (st st' : Network) : Prop where
  clients : ∀ c, SameCounts (st.clients c) (st'.clients c)
  tables : SameIds st.tables st'.tables
  restarting : ∀ p, st'.Restarting p ↔ st.Restarting p

theorem Quiet.stamped (hq : Quiet st st') (h : st.Stamped) : st'.Stamped := by
  constructor
  · intro c
    rw [(hq.clients c).requests]
    exact h.counted c
  · intro c
    rw [(hq.clients c).requests,(hq.clients c).completed,(hq.clients c).serverIdentifier]
    exact h.stale c
  · intro c
    rw [(hq.clients c).completed,(hq.clients c).serverIdentifier]
    exact h.named c
  · intro c
    rw [hq.tables.ids,(hq.clients c).serverIdentifier]
    exact h.unknown c
  · intro p hp
    rw [hq.tables.past]
    exact h.restarting p ((hq.restarting p).mp hp)

theorem Quiet.remembers (hq : Quiet st st') (h : st.Remembers c) : st'.Remembers c := by
  intro S hS
  rw [(hq.clients c).serverIdentifier,hq.tables.past]
  exact h S (hq.tables.ids ▸ hS)

theorem restarting_congr (hstage : st'.stage = st.stage) (p : Parcel) :
    st'.Restarting p ↔ st.Restarting p := by rw [Restarting,Restarting,hstage]

theorem quiet_of_clients (hclients : ∀ c, SameCounts (st.clients c) (st'.clients c))
    (htables : st'.tables = st.tables) (hstage : st'.stage = st.stage) : Quiet st st' :=
  ⟨hclients,htables ▸ sameIds_refl _,restarting_congr hstage⟩

theorem quiet_of_handOver {S : ℤ} {p : Parcel} {stage : DispatcherStage} (h : st.Inv)
    (hs : st.handOver S p stage = some st')
    (hstage : ∀ q, stage = .retiring q ∨ stage = .joining q ↔ st.Restarting q) : Quiet st st' := by
  obtain ⟨htables,hnext⟩ := handOver_tables hs
  obtain ⟨_,_,_,_,hserves,-⟩ := handOver_cases hs h
  refine ⟨sameClients hserves.clients,?_,fun q => ?_⟩
  · rw [htables]
    exact sameIds_dispatchMessage ..
  · rw [Restarting,hnext]
    exact hstage q

def Moving : Event → Prop
  | .beginSync .. | .read _ | .receive _ | .respawn _ => True
  | _ => False

theorem Inv.quiet (h : st.Inv) {e : Event} (hs : st.step e = some st') (hmoving : ¬Moving e) :
    Quiet st st' := by
  cases e with
  | beginSync | read | receive | respawn => exact absurd trivial hmoving
  | relay =>
    obtain ⟨⟨p,path⟩,-,rfl⟩ := Option.map_eq_some_iff.mp hs
    exact quiet_of_clients (sameCounts_inbox st p.msg.clientId _) rfl rfl
  | retransmit =>
    simp only [Network.step,Network.retransmit] at hs
    split_ifs at hs
    exact Option.some.inj hs ▸ quiet_of_clients (fun _ => sameCounts_refl _) rfl rfl
  | emit =>
    obtain ⟨-,-,-,_,-,rfl⟩ := emit_spec hs
    exact quiet_of_clients (fun _ => sameCounts_refl _) rfl rfl
  | emitServer =>
    simp only [Network.step,Network.emitServer] at hs
    split_ifs at hs
    exact Option.some.inj hs ▸ quiet_of_clients (fun _ => sameCounts_refl _) rfl rfl
  | route =>
    obtain ⟨path,-,rfl⟩ := Option.map_eq_some_iff.mp hs
    exact quiet_of_clients (fun _ => sameCounts_refl _) rfl rfl
  | idle => exact Option.some.inj hs ▸ quiet_of_clients (fun _ => sameCounts_refl _) rfl rfl
  | dispatch =>
    obtain ⟨_,_,hstage,hover⟩ := dispatch_cases hs
    exact quiet_of_handOver h hover (by simp [Restarting,hstage])
  | retire =>
    obtain ⟨p,hstage,hover⟩ := retire_cases hs
    exact quiet_of_handOver h hover (by simp [Restarting,hstage])
  | work =>
    obtain ⟨w,stepped,effects,-,-,rfl⟩ := work_cases hs
    refine ⟨fun _ => sameCounts_refl _,?_,fun _ => Iff.rfl⟩
    change SameIds st.tables (st.afterWork _ w stepped).tables
    unfold afterWork
    split_ifs
    · exact ⟨rfl,rfl,rfl,rfl,fun S => Table.modify_isSome ..⟩
    · exact sameIds_refl _

theorem not_restarting_next {target : ℤ} {p q : Parcel} (hstage : st.stage = next target p) :
    ¬st.Restarting q := by
  rw [Restarting,hstage,next]
  split_ifs <;> simp

section Begin

variable {request : Msg} (hb : st.Begins c request)
include hb

theorem Begins.stamped (h : st.Stamped) : (st.begin c request).Stamped := by
  have hm := hb.moves
  constructor
  · refine forall_setClient (P := fun _ cl => ∀ r ∈ cl.requests, 1 ≤ r.count) (fun r hr => ?_)
      fun c' _ => h.counted c'
    rcases List.mem_append.mp hr with hr | hr
    · exact h.counted c r hr
    · rw [List.mem_singleton.mp hr,hb.count]
      omega
  · refine forall_setClient (P := fun _ cl => ∀ r ∈ cl.requests, r.count ≤ cl.completed →
      r.serverId ≠ cl.serverIdentifier) (fun r hr hle => ?_) fun c' _ => h.stale c'
    have hcompleted : (st.clients c).completed = (st.clients c).syncCount := by
      rw [FtpClient.completed,if_neg (by simp [hb.idle])]
    simp only [FtpClient.completed,if_true,Nat.add_sub_cancel] at hle
    rcases List.mem_append.mp hr with hr | hr
    · exact h.stale c r hr (by rwa [hcompleted])
    · rw [List.mem_singleton.mp hr,hb.count] at hle
      omega
  · intro c'
    rw [hm.completed,hm.serverIdentifier]
    exact h.named c'
  · intro c'
    rw [hm.serverIdentifier]
    exact h.unknown c'
  · exact h.restarting

theorem Begins.remembers (h : ∀ c, st.Remembers c) (c' : ℤ) :
    (st.begin c request).Remembers c' := by
  rw [Remembers,hb.moves.serverIdentifier]
  exact h c'

end Begin

section Adopt

variable {p : Parcel} {rest : List Parcel} (h : st.Inv)
  (hinbox : (st.clients c).inbox = p :: rest) (ha : answers (st.clients c) p.msg = true)
include h hinbox ha

theorem Inv.stamped_adopt (hstamped : st.Stamped) : (st.adopt c rest p).Stamped := by
  have hlives := (h.answer_unadopted hinbox ha).1
  constructor
  · intro c'
    rw [(adopt_sync c').1]
    exact hstamped.counted c'
  · refine forall_setClient (P := fun _ cl => ∀ r ∈ cl.requests, r.count ≤ cl.completed →
      r.serverId ≠ cl.serverIdentifier) (fun r hr _ he => ?_) fun c' _ => hstamped.stale c'
    have hreq := h.agreed.requests c r hr
    have hactive : st.tables.isThreadActive r.serverId = some true := by
      rw [he]
      exact hlives.2
    exact (answers_spec ha).2.2.1 (he.symm.trans (hreq.active hactive).2.1)
  · refine forall_setClient (P := fun _ cl => 1 ≤ cl.completed →
      cl.serverIdentifier ≠ nullServerId) (fun _ => ?_) fun c' _ => hstamped.named c'
    exact (h.agreed.current_id hlives.1).1
  · refine forall_setClient (P := fun c' cl => st.tables.clientIds c' = none →
      cl.serverIdentifier = nullServerId) (fun hnone => ?_) fun c' _ => hstamped.unknown c'
    rw [hlives.1] at hnone
    cases hnone
  · exact hstamped.restarting

theorem Inv.remembers_adopt (hr : ∀ c, st.Remembers c) (c' : ℤ) :
    (st.adopt c rest p).Remembers c' := by
  have hlives := (h.answer_unadopted hinbox ha).1
  refine forall_setClient (P := fun c' cl => ∀ S, st.tables.clientIds c' = some S →
    cl.serverIdentifier = nullServerId ∨ cl.serverIdentifier = S ∨
      st.tables.pastServerIds c' = some cl.serverIdentifier) (fun S hS => ?_) (fun c' _ => hr c') c'
  exact Or.inr (Or.inl (Option.some.inj (hlives.1.symm.trans hS)))

end Adopt

theorem registerClient_past {tables created : FtpServer} {c' : ℤ}
    (hs : tables.registerClient c drawn = some created) (hc : c' ≠ c) :
    created.pastServerIds c' = tables.pastServerIds c' := by
  obtain ⟨mid,hcreate,rfl⟩ := Option.map_eq_some_iff.mp hs
  obtain ⟨_,_,_,rfl⟩ := FtpServer.createServerThread_spec hcreate
  exact Table.insert_of_ne _ _ hc

theorem respawn_past {tables created : FtpServer} (hs : tables.respawn c drawn = some created) :
    created.pastServerIds = tables.pastServerIds := by
  obtain ⟨mid,hcreate,rfl⟩ := Option.map_eq_some_iff.mp hs
  obtain ⟨_,_,_,rfl⟩ := FtpServer.createServerThread_spec hcreate
  rfl

theorem Stamped.of_clients (h : st.Stamped) (hclients : st'.clients = st.clients)
    (hids : ∀ c, st'.tables.clientIds c = none → st.tables.clientIds c = none)
    (hrestarting : ∀ p, st'.Restarting p →
      st'.tables.pastServerIds p.msg.clientId = some p.msg.serverId) : st'.Stamped := by
  refine ⟨?_,?_,?_,fun c hnone => ?_,hrestarting⟩ <;> rw [hclients]
  · exact h.counted
  · exact h.stale
  · exact h.named
  · exact h.unknown c (hids c hnone)

theorem joins_none {c' : ℤ} {mid tables : FtpServer} (hj : FtpServer.Joins c drawn mid tables)
    (hnone : tables.clientIds c' = none) : c' ≠ c ∧ mid.clientIds c' = none := by
  rw [hj.ids] at hnone
  split_ifs at hnone with hc
  exact ⟨hc,hnone⟩

section Receive

variable {p : Parcel} {path : Path Parcel} (hr : st.Receives p path st')
include hr

theorem Receives.register_step (hstamped : st.Stamped) (hknown : ∀ c, st.Remembers c)
    (hnew : st.tables.clientIds p.msg.clientId = none)
    (hreg : st.tables.registerClient p.msg.clientId drawn = some st'.tables)
    (hstage : st'.stage = next (st'.tables.resolveId p.msg p.msg.serverId) p) :
    (∀ c, st'.Remembers c) ∧ st'.Stamped := by
  have hj := FtpServer.joins_registerClient hreg hnew
  constructor
  · intro c S hS
    rw [hr.clients]
    by_cases hc : c = p.msg.clientId
    · rw [hc]
      exact Or.inl (hstamped.unknown _ hnew)
    · rw [hj.ids,if_neg hc] at hS
      rw [registerClient_past hreg hc]
      exact hknown c S hS
  · exact hstamped.of_clients hr.clients (fun c hnone => (joins_none hj hnone).2)
      fun q hq => absurd hq (not_restarting_next hstage)

-- a request that its client still waits for carries the id the client has
theorem Receives.request_current (h : st.Inv) (ht : p.msg.type = .handshake)
    (hlater : (st.clients p.msg.clientId).completed < p.msg.count) :
    p.msg.serverId = (st.clients p.msg.clientId).serverIdentifier := by
  have hreq := hr.request h ht
  have hcount := hreq.count
  have hsync : (st.clients p.msg.clientId).syncing = true := by
    by_contra hidle
    rw [FtpClient.completed,if_neg hidle] at hlater
    omega
  have hnow : p.msg.count = (st.clients p.msg.clientId).syncCount := by
    rw [FtpClient.completed,if_pos hsync] at hlater
    have hone := h.agreed.syncing _ hsync
    omega
  exact hreq.current hsync hnow

-- one that its client has finished with carries neither that id nor NULL
theorem Receives.stale_forgotten (h : st.Inv) (hstamped : st.Stamped) (ht : p.msg.type = .handshake)
    (hstale : p.msg.count ≤ (st.clients p.msg.clientId).completed) :
    (st.clients p.msg.clientId).serverIdentifier ≠ nullServerId ∧
      p.msg.serverId ≠ (st.clients p.msg.clientId).serverIdentifier := by
  have hmem := (take_up h hr.take).1 ht
  have hone := hstamped.counted _ _ hmem
  constructor
  · exact hstamped.named p.msg.clientId (by omega)
  · exact hstamped.stale _ _ hmem hstale

theorem Receives.retire_step (h : st.Inv) (hstamped : st.Stamped) (hknown : ∀ c, st.Remembers c)
    (ht : p.msg.type = .handshake) (hcur : st.tables.clientIds p.msg.clientId = some p.msg.serverId)
    (htables : st'.tables = st.tables.deactivate p.msg.clientId p.msg.serverId)
    (hstage : st'.stage = .retiring p) :
    ((∀ c, st'.Remembers c) ↔
      (st.clients p.msg.clientId).completed < p.msg.count) ∧ st'.Stamped := by
  have hpast (c : ℤ) : st'.tables.pastServerIds c = if c = p.msg.clientId then
      some p.msg.serverId else st.tables.pastServerIds c := by
    rw [htables]
    exact Table.assign_apply ..
  have hids : st'.tables.clientIds = st.tables.clientIds := by rw [htables]; rfl
  refine ⟨⟨fun hall => ?_,fun hlater c S hS => ?_⟩,?_⟩
  · by_contra hstale
    obtain ⟨hnull,hne⟩ := hr.stale_forgotten h hstamped ht (not_lt.mp hstale)
    have hold := hall p.msg.clientId p.msg.serverId (hids ▸ hcur)
    rw [hr.clients,hpast,if_pos rfl] at hold
    rcases hold with hold | hold | hold
    · exact hnull hold
    · exact hne hold.symm
    · exact hne (Option.some.inj hold)
  · rw [hids] at hS
    rw [hr.clients,hpast]
    split_ifs with hc
    · subst hc
      exact Or.inr (Or.inr (congrArg some (hr.request_current h ht hlater)))
    · exact hknown c S hS
  · refine hstamped.of_clients hr.clients (fun c hnone => hids ▸ hnone) fun q hq => ?_
    obtain rfl : p = q := by simpa [Restarting,hstage] using hq
    rw [hpast,if_pos rfl]

end Receive

theorem Inv.receive_step (h : st.Inv) (hstamped : st.Stamped) (hknown : ∀ c, st.Remembers c)
    (hs : st.receive drawn = some st') :
    ((∀ c, st'.Remembers c) ↔ ¬st.TakesStaleHandshake (.receive drawn)) ∧ st'.Stamped := by
  obtain ⟨p,path,hr,hcases⟩ := receive_cases hs
  have hready : st.stage = .ready := by
    unfold Network.receive at hs
    split_ifs at hs with hstage
    exact hstage
  have htaken : st.TakesStaleHandshake (.receive drawn) ↔ p.msg.type = .handshake ∧
      st.tables.clientIds p.msg.clientId = some p.msg.serverId ∧
        p.msg.count ≤ (st.clients p.msg.clientId).completed := by
    constructor
    · rintro ⟨-,q,rest,htake,hstale⟩
      obtain ⟨rfl,-⟩ := Prod.mk.inj (Option.some.inj (hr.take.symm.trans htake))
      exact hstale
    · exact fun hstale => ⟨hready,p,path,hr.take,hstale⟩
  rw [htaken]
  rcases hcases with ⟨hnew,hreg,-,hstage⟩ | ⟨⟨ht,hcur⟩,htables,-,hstage⟩ |
    ⟨current,hcur,hre,htables,-,hstage⟩
  · obtain ⟨hall,hnext⟩ := hr.register_step hstamped hknown hnew hreg hstage
    refine ⟨iff_of_true hall ?_,hnext⟩
    rintro ⟨-,hcur,-⟩
    rw [hnew] at hcur
    cases hcur
  · obtain ⟨hiff,hnext⟩ := hr.retire_step h hstamped hknown ht hcur htables hstage
    refine ⟨hiff.trans ⟨?_,?_⟩,hnext⟩
    · rintro hlater ⟨-,-,hle⟩
      exact absurd hle (not_le.mpr hlater)
    · exact fun hnot => not_le.mp fun hle => hnot ⟨ht,hcur,hle⟩
  · refine ⟨iff_of_true (fun c => ?_) ?_,?_⟩
    · rw [Remembers,htables,hr.clients]
      exact hknown c
    · rintro ⟨ht,hid,-⟩
      exact hre ⟨ht,Option.some.inj (hid.symm.trans hcur)⟩
    · exact hstamped.of_clients hr.clients (fun c hnone => htables ▸ hnone)
        fun q hq => absurd hq (not_restarting_next hstage)

theorem Inv.respawn_step (h : st.Inv) (hstamped : st.Stamped) (hknown : ∀ c, st.Remembers c)
    (hs : st.respawn drawn = some st') : (∀ c, st'.Remembers c) ∧ st'.Stamped := by
  obtain ⟨p,hstage,hrespawn,hstage',he⟩ := respawn_cases hs
  have hstaged := h.agreed.staged
  rw [Staged,hstage] at hstaged
  have hj := FtpServer.joins_respawn hrespawn
  have hids := (FtpServer.releaseId_tables st.tables p.msg.serverId).1
  have hclients : st'.clients = st.clients := by rw [he]
  have hpast : st'.tables.pastServerIds = st.tables.pastServerIds := by
    rw [respawn_past hrespawn,FtpServer.releaseId_pastServerIds]
  have hold := hstamped.restarting p (Or.inr hstage)
  constructor
  · intro c S hS
    rw [hclients,hpast]
    by_cases hc : c = p.msg.clientId
    · subst hc
      refine (hknown _ _ hstaged.1).imp id fun hid => Or.inr ?_
      rcases hid with hid | hid
      · rw [hid,hold]
      · exact hid
    · rw [hj.ids,if_neg hc,hids] at hS
      exact hknown c S hS
  · exact hstamped.of_clients hclients (fun c hnone => hids ▸ (joins_none hj hnone).2)
      fun q hq => absurd hq (not_restarting_next hstage')

theorem Inv.remembers_step (h : st.Inv) (hstamped : st.Stamped) (hknown : ∀ c, st.Remembers c)
    {e : Event} (hs : st.step e = some st') :
    ((∀ c, st'.Remembers c) ↔ ¬st.TakesStaleHandshake e) ∧ st'.Stamped := by
  by_cases hmoving : Moving e
  · cases e with
    | beginSync =>
      obtain ⟨request,hb,rfl⟩ := beginSync_spec hs
      exact ⟨iff_of_true (hb.remembers hknown) id,hb.stamped hstamped⟩
    | read clientId =>
      obtain ⟨p,rest,hinbox,⟨ha,rfl⟩ | rfl⟩ := read_cases hs
      · exact ⟨iff_of_true (h.remembers_adopt hinbox ha hknown) id,h.stamped_adopt hinbox ha hstamped⟩
      · have hq : Quiet st (st.discard clientId rest) :=
          quiet_of_clients (sameCounts_inbox st clientId rest) rfl rfl
        exact ⟨iff_of_true (fun c => hq.remembers (hknown c)) id,hq.stamped hstamped⟩
    | receive => exact h.receive_step hstamped hknown hs
    | respawn =>
      obtain ⟨hall,hnext⟩ := h.respawn_step hstamped hknown hs
      exact ⟨iff_of_true hall id,hnext⟩
    | _ => exact absurd hmoving id
  · have hq := h.quiet hs hmoving
    refine ⟨iff_of_true (fun c => hq.remembers (hknown c)) fun hstale => ?_,hq.stamped hstamped⟩
    cases e with
    | receive => exact hmoving trivial
    | _ => exact hstale

-- without reuse of ids every known client has a live thread unless it is being replaced
structure Permanent (st : Network) : Prop where
  kept : st.tables.areServerIdsReused = false
  locked : ∀ S, (st.tables.isThreadActive S).isSome → (st.tables.threadLocks S).isSome
  live : ∀ c S, st.tables.clientIds c = some S → (∀ p, st.Restarting p → p.msg.clientId ≠ c) →
    st.tables.isThreadActive S = some true

theorem Permanent.of_sameIds (hp : st.Permanent) (hsame : SameIds st.tables st'.tables)
    (hrestarting : ∀ p, st'.Restarting p ↔ st.Restarting p) : st'.Permanent := by
  constructor
  · rw [hsame.reused,hp.kept]
  · intro S
    rw [hsame.active,hsame.locks]
    exact hp.locked S
  · intro c S
    rw [hsame.ids,hsame.active]
    exact fun hid hnot => hp.live c S hid fun p hre => hnot p ((hrestarting p).mpr hre)

theorem Permanent.joins {mid : FtpServer} (hp : st.Permanent) (hreused : mid = st.tables)
    (hj : FtpServer.Joins c drawn mid st'.tables) (hsound : mid.Sound (· ≠ c))
    (hother : ∀ p, st.Restarting p → p.msg.clientId = c) : st'.Permanent := by
  subst hreused
  have hlive : st.tables.Live (· ≠ c) :=
    fun a S hac hid => hp.live a S hid fun p hre hpa => hac (hpa.symm.trans (hother p hre))
  have hnone : st.tables.isThreadActive drawn = none := by
    cases hb : st.tables.isThreadActive drawn with
    | none => rfl
    | some b =>
      have hlock := hp.locked drawn (by rw [hb]; rfl)
      rw [hj.free] at hlock
      cases hlock
  constructor
  · rw [hj.reused,hp.kept]
  · intro S
    rw [hj.active,Table.insert_of_none _ _ hnone,Table.assign_apply,hj.locks]
    split_ifs
    · exact fun _ => rfl
    · exact hp.locked S
  · exact fun a S hid _ => (hj.live_iff hsound hlive).mpr hnone a S trivial hid

theorem Permanent.receive (hp : st.Permanent) (h : st.Inv) (hs : st.receive drawn = some st') :
    st'.Permanent := by
  obtain ⟨p,path,hr,⟨hnew,hreg,-,hstage⟩ | ⟨⟨ht,hcur⟩,htables,-,hstage⟩ |
    ⟨current,hcur,hre,htables,-,hstage⟩⟩ := receive_cases hs
  all_goals
    have hready : ∀ q, ¬st.Restarting q := by
      unfold Network.receive at hs
      split_ifs at hs with hidle
      simp [Restarting,hidle]
  · refine hp.joins rfl (FtpServer.joins_registerClient hreg hnew)
      (h.agreed.sound.restrict fun S hS => ?_) fun q hq => absurd hq (hready q)
    rw [hnew] at hS
    cases hS
  · have hactive (S : ℤ) : st'.tables.isThreadActive S =
        if S = p.msg.serverId then some false else st.tables.isThreadActive S := by
      rw [htables]
      exact FtpServer.deactivate_active
    constructor
    · rw [htables]
      exact hp.kept
    · intro S
      have hlocks : st'.tables.threadLocks = st.tables.threadLocks := by rw [htables]; rfl
      rw [hactive,hlocks]
      split_ifs with hS
      · exact fun _ => hS ▸ h.agreed.sound.locks _ _ trivial hcur
      · exact hp.locked S
    · intro a S hid hnot
      have hids : st'.tables.clientIds = st.tables.clientIds := by rw [htables]; rfl
      rw [hids] at hid
      have hne : S ≠ p.msg.serverId := by
        rintro rfl
        exact hnot p (Or.inl hstage) (h.agreed.sound.distinct _ _ _ trivial trivial hcur hid)
      rw [hactive,if_neg hne]
      exact hp.live a S hid fun q hq => absurd hq (hready q)
  · refine hp.of_sameIds (htables ▸ sameIds_refl _) fun q => iff_of_false ?_ (hready q)
    exact not_restarting_next hstage

theorem Permanent.respawn (hp : st.Permanent) (h : st.Inv) (hs : st.respawn drawn = some st') :
    st'.Permanent := by
  obtain ⟨p,hstage,hrespawn,-,-⟩ := respawn_cases hs
  have hstaged := h.agreed.staged
  rw [Staged,hstage] at hstaged
  have hrest := h.agreed.sound.restrict (c := p.msg.clientId) fun S hS ha => by
    obtain rfl := Option.some.inj (hstaged.1.symm.trans hS)
    rw [hstaged.2] at ha
    cases ha
  have hreleased : st.tables.releaseId p.msg.serverId = st.tables := by
    rw [FtpServer.releaseId,hp.kept]
    rfl
  rw [hreleased] at hrespawn
  refine hp.joins rfl (FtpServer.joins_respawn hrespawn) hrest fun q hq => ?_
  have hjoining : p = q := by simpa [Restarting,hstage] using hq
  rw [hjoining]

theorem Permanent.step (hp : st.Permanent) (h : st.Inv) {e : Event} (hs : st.step e = some st') :
    st'.Permanent := by
  by_cases hmoving : Moving e
  · cases e with
    | beginSync =>
      obtain ⟨request,hb,rfl⟩ := beginSync_spec hs
      exact hp.of_sameIds (sameIds_refl _) (restarting_congr rfl)
    | read =>
      obtain ⟨p,rest,hinbox,⟨ha,rfl⟩ | rfl⟩ := read_cases hs
      · exact hp.of_sameIds (sameIds_refl _) (restarting_congr rfl)
      · exact hp.of_sameIds (sameIds_refl _) (restarting_congr rfl)
    | receive => exact hp.receive h hs
    | respawn => exact hp.respawn h hs
    | _ => exact absurd hmoving id
  · have hq := h.quiet hs hmoving
    exact hp.of_sameIds hq.tables hq.restarting

theorem Permanent.no_stale (hp : st.Permanent) (h : st.Inv) (e : Event) :
    ¬st.TakesStaleHandshake e := by
  intro hstale
  cases e with
  | receive =>
    obtain ⟨hready,p,path,htake,ht,hcur,hle⟩ := hstale
    have hactive := hp.live _ _ hcur (by simp [Restarting,hready])
    have hreq := h.agreed.requests _ _ ((take_up h htake).1 ht)
    obtain ⟨hsync,-,hcount⟩ := hreq.active hactive
    have hone := h.agreed.syncing _ hsync
    rw [hcount,FtpClient.completed,if_pos hsync] at hle
    omega
  | _ => exact hstale

theorem permanent_start : (start false).Permanent :=
  ⟨rfl,fun _ hS => hS,fun _ _ hid => by cases hid⟩

theorem stamped_start (areServerIdsReused : Bool) : (start areServerIdsReused).Stamped := by
  refine ⟨fun _ _ hr => ?_,fun _ _ hr => ?_,fun c hone => ?_,fun _ _ => rfl,fun p hp => ?_⟩
  · cases hr
  · cases hr
  · simp [start,FtpClient.start,FtpClient.completed] at hone
  · simp [Restarting,start] at hp

theorem known_start (areServerIdsReused : Bool) (c : ℤ) : (start areServerIdsReused).Known c := by
  constructor
  · intro S hS
    cases hS
  · intro _ hsome
    cases hsome

theorem server_knows_every_client_iff (areServerIdsReused : Bool) (events : List Event) :
    system.Along (fun _ _ st' => ∀ c, st'.Known c) (start areServerIdsReused) events ↔
      system.Along (fun st e _ => areServerIdsReused = true → ¬st.TakesStaleHandshake e)
        (start areServerIdsReused) events := by
  refine system.along_iff_of_step (I := fun st => st.Inv ∧ st.Stamped ∧ (∀ c, st.Remembers c) ∧
    (areServerIdsReused = false → st.Permanent)) ?_ ⟨inv_start areServerIdsReused,
      stamped_start areServerIdsReused,fun c => (known_start areServerIdsReused c).remembered,?_⟩
    events
  · rintro st e st' ⟨h,hstamped,hknown,hkept⟩ hs
    obtain ⟨hiff,hnext⟩ := h.remembers_step hstamped hknown hs
    have hinv := h.step hs
    refine ⟨(known_iff_remembers hinv).trans (hiff.trans ?_),
      fun hall => ⟨hinv,hnext,(known_iff_remembers hinv).mp hall,fun hreuse => (hkept hreuse).step h hs⟩⟩
    cases areServerIdsReused with
    | false => exact iff_of_true ((hkept rfl).no_stale h e) nofun
    | true => exact ⟨fun hnot _ => hnot,fun hnot => hnot rfl⟩
  · rintro rfl
    exact permanent_start

def request (serverId count : ℤ) : Msg := { syncRequest 1 serverId count with sequenceNumber := count }

-- two copies of the second HANDSHAKE bring client 1 from id 7 to id 8
def secondSync : List Event := [.beginSync 1 2,.retransmit 1 (request 7 2),
  .retransmit 1 (request 7 2),.route .one false false,.route .one false false,.receive 0,
  .work 7 .empty,.retire,.work 7 .empty,.work 7 .empty,.respawn 8,.work 8 .empty,
  .work 8 .empty,.receive 0,.dispatch,.work 8 .empty,.work 8 .empty,
  .route .two false false,.relay]

-- the router keeps a third copy, and the third HANDSHAKE overtakes it and draws 7 again
def thirdSync : List Event := [.retransmit 1 (request 7 2),.route .one true false,.read 1,
  .beginSync 1 3,.retransmit 1 (request 8 3),.route .one false false,.receive 0,.work 8 .empty,
  .retire,.work 8 .empty,.work 8 .empty,.respawn 7,.receive 0]

theorem late_handshake_forgets_the_client : ¬∀ areServerIdsReused events,
    system.Along (fun _ _ st' => ∀ c, st'.Known c) (start areServerIdsReused) events := by
  intro h
  have hrun : (system.run (start true) (syncRun 1 7 (syncRequest 1 nullServerId 1) ++
      (secondSync ++ thirdSync))).any (fun st => decide (st.tables.clientIds 1 = some 7 ∧
        st.tables.pastServerIds 1 = some 7 ∧ (st.clients 1).serverIdentifier = 8)) = true := by
    decide +kernel
  obtain ⟨st,hst,hend⟩ := (Option.any_eq_true _ _).mp hrun
  obtain ⟨hcur,hpast,hid⟩ := of_decide_eq_true hend
  have hknown := (system.along_final (known_start true) (h true _) hst 1).remembered 7 hcur
  rw [hid,hpast] at hknown
  revert hknown
  decide

end Network
end FtpOverUdp
