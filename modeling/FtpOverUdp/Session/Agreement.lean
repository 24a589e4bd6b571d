import FtpOverUdp.Session.ClientSteps
import FtpOverUdp.Session.ServerSteps

namespace FtpOverUdp

open Library

namespace Network

variable {st st' : Network} {c : ℤ}

theorem agreed_start (areServerIdsReused : Bool) : (start areServerIdsReused).Agreed := by
  refine ⟨(FtpServer.create_holds areServerIdsReused).1,fun c hone => ?_,?_,fun _ => .inl rfl,
    fun _ _ => rfl,fun c hsync => ?_,fun c hact => ?_,fun c request hr => ?_,trivial⟩
  · simp [start,FtpClient.start,FtpClient.completed] at hone
  · simp [start]
  · cases hsync
  · simp [start,FtpServer.create] at hact
  · cases hr

theorem inv_start (areServerIdsReused : Bool) : (start areServerIdsReused).Inv := by
  have hcoming (c : ℤ) : (start areServerIdsReused).coming c = [] := rfl
  have hline (source : Peer) : (start areServerIdsReused).path.line source [] = ⟨[],none,[]⟩ := by
    cases source <;> rfl
  refine ⟨agreed_start areServerIdsReused,?_,[],fun S w hw => ?_,?_⟩
  · rw [hline]
    simp [DelayLine.All,DelayLine.waiting]
  · cases hw
  · refine ⟨?_,fun c p hp => ?_,?_,?_,?_,?_,fun c => ?_⟩
    · rw [downLine,hline]
      exact DelayLine.ordered_empty
    · cases hp
    · rw [downLine,hline]
      simp [DelayLine.All,DelayLine.waiting]
    · simp [hcoming]
    · simp [hcoming]
    · rw [downLine,hline]
      simp [DelayLine.waiting]
    · rw [hcoming]
      exact .nil

theorem Inv.step (h : st.Inv) {e : Event} (hs : st.step e = some st') : st'.Inv := by
  cases e with
  | beginSync => exact h.beginSync hs
  | retransmit => exact h.retransmit hs
  | emit => exact h.emit hs
  | emitServer => exact h.emitServer hs
  | route =>
    obtain ⟨path,hroute,rfl⟩ := Option.map_eq_some_iff.mp hs
    exact h.evolves (Path.evolves_route hroute fun _ _ _ _ _ => trivial)
  | idle => exact Option.some.inj hs ▸ h.evolves (Path.evolves_idle _ _ _)
  | relay => exact h.relay hs
  | read => exact h.read hs
  | receive => exact h.receive hs
  | dispatch => exact h.dispatch hs
  | retire => exact h.retire hs
  | respawn => exact h.respawn hs
  | work => exact h.work hs

theorem inv_of_reachable (h : system.Reachable st) : st.Inv :=
  system.reachable_invariant (fun _ ⟨areServerIdsReused,he⟩ => he ▸ inv_start areServerIdsReused)
    (fun _ _ _ hi hs => hi.step hs) h

structure Stays (st st' : Network) (c : ℤ) : Prop where
  completed : (st'.clients c).completed = (st.clients c).completed
  serverIdentifier : (st'.clients c).serverIdentifier = (st.clients c).serverIdentifier

theorem SameCounts.stays (h : SameCounts (st.clients c) (st'.clients c)) : Stays st st' c :=
  ⟨h.completed,h.serverIdentifier⟩

theorem Inv.read_stays (h : st.Inv) {c' : ℤ} (hs : st.read c' = some st')
    (hone : 1 ≤ (st.clients c).completed) (hset : st.Settled c) : Stays st st' c := by
  obtain ⟨p,rest,hinbox,⟨ha,rfl⟩ | rfl⟩ := read_cases hs
  · by_cases hc : c = c'
    · subst hc
      have hu := h.answer_unadopted hinbox ha
      have hl := h.agreed.settled c hone hset
      exact absurd (Option.some.inj (hl.1.symm.trans hu.1.1)) hu.2
    · exact ⟨by rw [adopt_of_ne hc],by rw [adopt_of_ne hc]⟩
  · exact (sameCounts_inbox st c' rest c).stays

structure Frame (st : Network) (e : Event) (st' : Network) : Prop where
  served : ∀ m ∈ st.served, m ∈ st'.served
  clients : (∀ c, SameCounts (st.clients c) (st'.clients c)) ∨ (∃ c sequenceNumber,
    e = .beginSync c sequenceNumber) ∨ ∃ c, e = .read c

theorem frame_of_clients {e : Event} (hserved : ∀ m ∈ st.served, m ∈ st'.served)
    (hclients : st'.clients = st.clients) : st.Frame e st' :=
  ⟨hserved,.inl (sameClients hclients)⟩

theorem Inv.frame (h : st.Inv) {e : Event} (hs : st.step e = some st') : st.Frame e st' := by
  cases e with
  | beginSync =>
    obtain ⟨request,-,rfl⟩ := beginSync_spec hs
    exact ⟨fun _ => id,.inr (.inl ⟨_,_,rfl⟩)⟩
  | read =>
    obtain ⟨p,rest,-,⟨-,rfl⟩ | rfl⟩ := read_cases hs
    all_goals exact ⟨fun _ => id,.inr (.inr ⟨_,rfl⟩)⟩
  | relay =>
    obtain ⟨⟨p,path⟩,-,rfl⟩ := Option.map_eq_some_iff.mp hs
    exact ⟨fun _ => id,.inl (sameCounts_inbox st p.msg.clientId _)⟩
  | retransmit =>
    simp only [Network.step,Network.retransmit] at hs
    split_ifs at hs
    exact Option.some.inj hs ▸ frame_of_clients (fun _ => id) rfl
  | emit =>
    obtain ⟨-,-,-,_,-,rfl⟩ := emit_spec hs
    exact frame_of_clients (fun _ => id) rfl
  | emitServer =>
    simp only [Network.step,Network.emitServer] at hs
    split_ifs at hs
    exact Option.some.inj hs ▸ frame_of_clients (fun _ => id) rfl
  | route =>
    obtain ⟨path,-,rfl⟩ := Option.map_eq_some_iff.mp hs
    exact frame_of_clients (fun _ => id) rfl
  | idle => exact Option.some.inj hs ▸ frame_of_clients (fun _ => id) rfl
  | receive =>
    obtain ⟨p,path,hr,-⟩ := receive_cases hs
    exact frame_of_clients hr.keeps_served hr.clients
  | dispatch =>
    obtain ⟨_,_,_,hover⟩ := dispatch_cases hs
    obtain ⟨_,_,_,_,hserves,-⟩ := handOver_cases hover h
    exact frame_of_clients (fun _ => hserves.served ▸ id) hserves.clients
  | retire =>
    obtain ⟨_,_,hover⟩ := retire_cases hs
    obtain ⟨_,_,_,_,hserves,-⟩ := handOver_cases hover h
    exact frame_of_clients (fun _ => hserves.served ▸ id) hserves.clients
  | respawn =>
    obtain ⟨p,-,-,-,he⟩ := respawn_cases hs
    exact frame_of_clients (fun _ => by rw [he]; exact id) (by rw [he])
  | work =>
    obtain ⟨w,stepped,effects,-,-,rfl⟩ := work_cases hs
    exact frame_of_clients (fun _ => id) rfl

theorem Inv.stays (h : st.Inv) {e : Event} (hs : st.step e = some st')
    (hone : 1 ≤ (st.clients c).completed) (hset : st.Settled c) : Stays st st' c := by
  rcases (h.frame hs).clients with hc | ⟨_,_,rfl⟩ | ⟨_,rfl⟩
  · exact (hc c).stays
  · obtain ⟨request,hb,rfl⟩ := beginSync_spec hs
    exact ⟨hb.moves.completed c,hb.moves.serverIdentifier c⟩
  · exact h.read_stays hs hone hset

-- up to `st'` the server has not processed a HANDSHAKE of a later sync than `c`'s last in `st`
def NoLaterSync (st st' : Network) (c : ℤ) : Prop :=
  ∀ m ∈ st'.served, m.clientId = c → m.type = .handshake → m.count ≤ (st.clients c).syncCount

structure Returned (st : Network) (c : ℤ) : Prop where
  idle : (st.clients c).syncing = false
  synced : 1 ≤ (st.clients c).syncCount

theorem Returned.completed (h : st.Returned c) :
    (st.clients c).completed = (st.clients c).syncCount := by
  simp [FtpClient.completed,h.idle]

theorem Inv.stays_of_noLaterSync (h : st.Inv) (hr : st.Returned c)
    (hrun : Relation.ReflTransGen (system.next fun _ _ => True) st st') :
    st'.Inv ∧ (st.NoLaterSync st' c → Stays st st' c) := by
  induction hrun with
  | refl => exact ⟨h,fun _ => ⟨rfl,rfl⟩⟩
  | tail _ hn ih =>
    obtain ⟨e,-,hs⟩ := hn
    obtain ⟨hinv,hstays⟩ := ih
    refine ⟨hinv.step hs,fun hno => ?_⟩
    have hmid := hstays fun m hm => hno m ((hinv.frame hs).served m hm)
    have hone := hr.synced
    have hnext := hinv.stays hs (hmid.completed.trans hr.completed ▸ hone) fun m hm hid ht => by
      rw [hmid.completed,hr.completed]
      exact hno m ((hinv.frame hs).served m hm) hid ht
    exact ⟨hnext.completed.trans hmid.completed,
      hnext.serverIdentifier.trans hmid.serverIdentifier⟩

theorem session_agreement (h : system.Reachable st) (hr : st.Returned c)
    (hrun : Relation.ReflTransGen (system.next fun _ _ => True) st st')
    (hno : st.NoLaterSync st' c) :
    st'.tables.clientIds c = some (st.clients c).serverIdentifier ∧
      ∀ c', c' ≠ c → st'.tables.clientIds c' ≠ some (st.clients c).serverIdentifier := by
  obtain ⟨hinv,hstays⟩ := (inv_of_reachable h).stays_of_noLaterSync hr hrun
  have hkept := hstays hno
  have hl := hinv.agreed.settled c (hkept.completed.trans hr.completed ▸ hr.synced)
    fun m hm hid ht => by
      rw [hkept.completed,hr.completed]
      exact hno m hm hid ht
  rw [hkept.serverIdentifier] at hl
  refine ⟨hl.1,fun c' hc hid => hc ?_⟩
  exact hinv.agreed.sound.distinct c' c _ trivial trivial hid hl.1

def syncRun (c drawn : ℤ) (request : Msg) : List Event :=
  [.beginSync c 0,.retransmit c request,.route .one false false,.receive drawn,
    .work drawn .empty,.work drawn .empty,.dispatch,.work drawn .empty,
    .work drawn .empty,.route .two false false,.relay,.read c]

def syncRequest (c serverId count : ℤ) : Msg :=
  ⟨c,serverId,.handshake,4,0,Buffer.copyIn (encodeInt count)⟩

theorem session_agreement_request_held : ∃ st' : Network, (st'.clients 1).syncing = true ∧
    st'.tables.clientIds 1 = some 7 ∧ ∀ c', c' ≠ 1 → st'.tables.clientIds c' ≠ some 7 := by
  let next : List Event := [.beginSync 1 2,.retransmit 1 { syncRequest 1 7 2 with sequenceNumber := 2 },
    .route .one true false]
  have hrun : (system.run (start true) (syncRun 1 7 (syncRequest 1 nullServerId 1))).any (fun st =>
      (system.run st next).any fun st' => decide ((st.clients 1).syncing = false ∧
        (st.clients 1).syncCount = 1 ∧ (st.clients 1).serverIdentifier = 7 ∧
          (st'.clients 1).syncing = true ∧ ∀ m ∈ st'.served, m.count ≤ 1)) = true := by
    decide +kernel
  obtain ⟨st,hst,hend⟩ := (Option.any_eq_true _ _).mp hrun
  obtain ⟨st',hst',hend'⟩ := (Option.any_eq_true _ _).mp hend
  obtain ⟨hidle,hcount,hid,hsync,hserved⟩ := of_decide_eq_true hend'
  have hagree := session_agreement (system.reachable_of_run ⟨true,rfl⟩ hst)
    ⟨hidle,by rw [hcount]⟩ (system.reflTransGen_of_run (system.along_true st next) hst')
    fun m hm _ _ => by rw [hcount]; exact hserved m hm
  rw [hid] at hagree
  exact ⟨st',hsync,hagree⟩

end Network
end FtpOverUdp
