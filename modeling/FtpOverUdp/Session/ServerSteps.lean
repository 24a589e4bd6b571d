import FtpOverUdp.Session.Invariant

namespace FtpOverUdp

open Library

namespace Network

variable {st st' : Network} {taken : List Parcel} {c drawn : ℤ}

theorem take_up {p : Parcel} {path : Path Parcel} (h : st.Inv)
    (htake : st.path.take .two = some (p,path)) :
    st.FromClient p ∧ (path.line .one []).All st.FromClient ∧
      ∀ taken, path.line .two taken = st.path.line .two taken := by
  have hline : path.line .one ([] ++ [p]) = st.path.line .one [] :=
    Path.line_take_self htake
  have hall : (path.line .one ([] ++ [p])).All st.FromClient := by
    rw [hline]
    exact h.up
  refine ⟨hall p (by simp [Path.line]),fun q hq => hall q ?_,fun _ => Path.line_take_other htake⟩
  exact List.mem_cons_of_mem p hq

structure Admits (st : Network) (c drawn : ℤ) (mid : FtpServer) (st' : Network) : Prop where
  joins : FtpServer.Joins c drawn mid st'.tables
  sound : mid.Sound (· ≠ c)
  ids : mid.clientIds = st.tables.clientIds
  active : mid.isThreadActive = st.tables.isThreadActive
  clients : st'.clients = st.clients
  unused : ∀ S, ¬st.Lives c S

namespace Admits

variable {mid : FtpServer} (ha : st.Admits c drawn mid st')
include ha

theorem new_id (hact : st'.tables.isThreadActive drawn = some true) : ¬st.Drawn drawn := by
  intro hd
  rw [Drawn,← ha.active,Option.isSome_iff_exists] at hd
  obtain ⟨b,hb⟩ := hd
  rw [ha.joins.active,Table.insert_of_some _ _ hb] at hact
  obtain ⟨a,hac,hid⟩ := ha.sound.owned drawn hact
  exact ha.joins.other_ne ha.sound hac hid rfl

theorem not_null : drawn ≠ nullServerId := by
  have := ha.joins.lower
  intro he
  rw [he] at this
  exact absurd this (by decide)

theorem not_adopted (h : st.Agreed) (hact : st'.tables.isThreadActive drawn = some true) (c' : ℤ) :
    (st.clients c').serverIdentifier ≠ drawn := by
  intro he
  rcases h.adopted c' with hnull | hdrawn
  · exact ha.not_null (he.symm.trans hnull)
  · exact ha.new_id hact (he ▸ hdrawn)

theorem keeps {c' S : ℤ} (hl : st.Lives c' S) : st'.Lives c' S := by
  have hc : c' ≠ c := by
    rintro rfl
    exact ha.unused S hl
  have hid : mid.clientIds c' = some S := by
    rw [ha.ids]
    exact hl.1
  have hne := ha.joins.other_ne ha.sound hc hid
  constructor
  · rw [ha.joins.ids,if_neg hc,hid]
  · rw [ha.joins.active,Table.insert_of_ne _ _ hne,ha.active]
    exact hl.2

theorem moves : Moves st st' := by
  have hc (c' : ℤ) := congrFun ha.clients c'
  refine ⟨fun c' => by rw [hc],fun c' => by rw [hc],fun c' => by rw [hc],fun c' S hu => ha.keeps hu.1,
    fun S hS => ?_,fun c' S hl hS => ?_⟩
  · rw [Drawn,ha.joins.active,ha.active]
    by_cases he : S = drawn
    · rw [he]
      exact Table.insert_isSome ..
    · rw [Table.insert_of_ne _ _ he]
      exact hS
  · have hne : S ≠ drawn := by
      rintro rfl
      exact ha.new_id hl.2 hS
    have hid := hl.1
    rw [ha.joins.ids] at hid
    split_ifs at hid with hcc
    · exact absurd (Option.some.inj hid).symm hne
    · rw [ha.ids] at hid
      have hact := hl.2
      rw [ha.joins.active,Table.insert_of_ne _ _ hne,ha.active] at hact
      exact ⟨hid,hact⟩

theorem worker (h : st.Agreed) (hreplies : st.Replies taken)
    (hline : st'.downLine taken = st.downLine taken) :
    st'.Works taken drawn (Worker.create drawn) := by
  refine ⟨rfl,?_,fun _ => ⟨_,rfl⟩,fun _ _ hi => absurd rfl hi,nofun,nofun,fun _ hact => ?_⟩
  · rw [Drawn,ha.joins.active]
    exact Table.insert_isSome ..
  · refine ⟨fun c' => ?_,?_⟩
    · rw [ha.clients]
      exact ha.not_adopted h hact c'
    · rw [NoReply,hline]
      exact fun p hp ht he => ha.new_id hact (he ▸ hreplies.drawn p hp ht)

theorem handed (h : st.Agreed) (hact : st'.tables.isThreadActive drawn = some true) {m : Msg}
    (hid : m.clientId = c) (hm : m.type = .handshake → st.Request c m) : st'.Handed drawn m := by
  have hids : st'.tables.clientIds c = some drawn := by rw [ha.joins.ids,if_pos rfl]
  refine ⟨fun ht => ⟨(hm ht).length,.inr ⟨⟨?_,?_⟩,?_⟩⟩,fun _ => ?_⟩
  · exact ⟨hid ▸ hids,hact⟩
  · rw [ha.clients]
    exact ha.not_adopted h hact _
  · rw [hid,ha.clients]
    exact (hm ht).count
  · exact hid ▸ hids

theorem staged (h : st.Agreed) {p : Parcel} (hid : p.msg.clientId = c)
    (hm : p.msg.serverId = nullServerId ∨ p.msg.serverId = drawn →
      st'.tables.isThreadActive drawn = some true → p.msg.type = .handshake → st.Request c p.msg)
    (hstage : st'.stage = next (st'.tables.resolveId p.msg p.msg.serverId) p) : st'.Staged := by
  have hids : st'.tables.clientIds p.msg.clientId = some drawn := by
    rw [hid,ha.joins.ids,if_pos rfl]
  simp only [FtpServer.resolveId,hids] at hstage
  split_ifs at hstage with htarget
  · rw [next,if_neg ha.not_null] at hstage
    rw [Staged,hstage]
    refine ⟨?_,fun hact => ha.handed h hact hid (hm htarget hact)⟩
    rw [Drawn,ha.joins.active]
    exact Table.insert_isSome ..
  · rw [next,if_pos rfl] at hstage
    rw [Staged,hstage]
    trivial

end Admits

theorem Moves.inv (hm : Moves st st') (h : st.Inv) (hclients : st'.clients = st.clients)
    (hsound : st'.tables.Sound (fun _ => True)) (hserved : ∀ m ∈ st.served, m ∈ st'.served)
    (hcounts : ∀ m ∈ st'.served, m.type = .handshake → m.count ≤ (st.clients m.clientId).syncCount)
    (hkeep : ∀ c, st'.Settled c → st.Lives c (st.clients c).serverIdentifier →
      st'.Lives c (st.clients c).serverIdentifier) (hstaged : st'.Staged)
    (hup : (st'.path.line .one []).All st.FromClient)
    (hline : ∀ taken, st'.path.line .two taken = st.path.line .two taken)
    (hworkers : ∀ taken, st.Replies taken → (∀ S w, st.workers S = some w → st'.Works taken S w) →
      ∀ S w, st'.workers S = some w → st'.Works taken S w) : st'.Inv := by
  obtain ⟨taken,hworks,hreplies⟩ := h.down
  have hc (c : ℤ) : SameCounts (st.clients c) (st'.clients c) := by
    rw [hclients]
    exact sameCounts_refl _
  have hdown : st'.path.down .one = st.path.down .one :=
    congrArg DelayLine.passed (hline [])
  refine ⟨hm.agreed h.agreed hsound hc hserved hcounts hkeep hstaged,fun p hp ht => ?_,taken,
    hworkers taken hreplies fun S w hw => hm.works h.agreed hsound (hline taken) (hworks S w hw),
    hm.replies (hline taken) (fun c => ?_) (fun c p hp => ?_) hreplies⟩
  · rw [hclients]
    exact hup p hp ht
  · rw [coming,coming,hclients,hdown]
  · rw [hclients] at hp
    exact hreplies.inbox c p hp

theorem Admits.inv {mid : FtpServer} (ha : st.Admits c drawn mid st') (h : st.Inv)
    (hserved : ∀ m ∈ st.served, m ∈ st'.served)
    (hcounts : ∀ m ∈ st'.served, m.type = .handshake → m.count ≤ (st.clients m.clientId).syncCount)
    (hstaged : st'.Staged) (hup : (st'.path.line .one []).All st.FromClient)
    (hline : ∀ taken, st'.path.line .two taken = st.path.line .two taken)
    (hworkers : st'.workers = st.workers.assign drawn (Worker.create drawn)) : st'.Inv := by
  refine ha.moves.inv h ha.clients (ha.joins.sound ha.sound) hserved hcounts (fun _ _ => ha.keeps)
    hstaged hup hline fun taken hreplies hworks S w hw => ?_
  rw [hworkers,Table.assign_apply] at hw
  split_ifs at hw with he
  · obtain rfl := Option.some.inj hw
    exact he ▸ ha.worker h.agreed hreplies (hline taken)
  · exact hworks S w hw

theorem counts_served (h : st.Agreed) {p : Parcel} (hp : st.FromClient p) :
    ∀ m ∈ st.served ++ [p.msg], m.type = .handshake →
      m.count ≤ (st.clients m.clientId).syncCount := by
  intro m hm ht
  rcases List.mem_append.mp hm with hm | hm
  · exact h.counts m hm ht
  · obtain rfl := List.mem_singleton.mp hm
    exact (h.requests _ _ (hp ht)).count

theorem Agreed.current_id (h : st.Agreed) {current : ℤ} (hcur : st.tables.clientIds c = some current) :
    current ≠ nullServerId ∧ st.Drawn current := by
  have hlock := h.sound.locks c current trivial hcur
  refine ⟨fun he => ?_,(h.sound.slots current hlock).2⟩
  have hrange := (h.sound.range current hlock).1
  rw [he] at hrange
  exact absurd hrange (by decide)

structure Receives (st : Network) (p : Parcel) (path : Path Parcel) (st' : Network) : Prop where
  take : st.path.take .two = some (p,path)
  clients : st'.clients = st.clients
  served : st'.served = st.served ++ [p.msg]
  path : st'.path = path
  dispatched : st'.dispatched = st.dispatched

theorem receive_cases (hs : st.receive drawn = some st') : ∃ p path, st.Receives p path st' ∧
    (st.tables.clientIds p.msg.clientId = none ∧
        st.tables.registerClient p.msg.clientId drawn = some st'.tables ∧
        st'.workers = st.workers.assign drawn (Worker.create drawn) ∧
        st'.stage = next (st'.tables.resolveId p.msg p.msg.serverId) p ∨
      (p.msg.type = .handshake ∧ st.tables.clientIds p.msg.clientId = some p.msg.serverId) ∧
        st'.tables = st.tables.deactivate p.msg.clientId p.msg.serverId ∧
        st'.workers = st.workers ∧ st'.stage = .retiring p ∨
      ∃ current, st.tables.clientIds p.msg.clientId = some current ∧
        ¬(p.msg.type = .handshake ∧ p.msg.serverId = current) ∧ st'.tables = st.tables ∧
        st'.workers = st.workers ∧ st'.stage = next (st.tables.resolveId p.msg
          (st.tables.requestedId current p.msg)) p) := by
  unfold Network.receive at hs
  split_ifs at hs
  obtain ⟨⟨p,path⟩,htake,hs⟩ := Option.bind_eq_some_iff.mp hs
  dsimp only at hs
  cases hcur : st.tables.clientIds p.msg.clientId with
  | none =>
    rw [hcur] at hs
    obtain ⟨tables,hr,rfl⟩ := Option.map_eq_some_iff.mp hs
    exact ⟨p,path,⟨htake,rfl,rfl,rfl,rfl⟩,.inl ⟨hcur,hr,rfl,rfl⟩⟩
  | some current =>
    rw [hcur] at hs
    dsimp only at hs
    split_ifs at hs with hre
    · obtain ⟨ht,rfl⟩ := hre
      obtain rfl := Option.some.inj hs
      exact ⟨p,path,⟨htake,rfl,rfl,rfl,rfl⟩,.inr (.inl ⟨⟨ht,hcur⟩,rfl,rfl,rfl⟩)⟩
    · obtain rfl := Option.some.inj hs
      exact ⟨p,path,⟨htake,rfl,rfl,rfl,rfl⟩,.inr (.inr ⟨current,hcur,hre,rfl,rfl,rfl⟩)⟩

section Receive

variable {p : Parcel} {path : Path Parcel} (hr : st.Receives p path st')
include hr

theorem Receives.counts (h : st.Inv) : ∀ m ∈ st'.served, m.type = .handshake →
    m.count ≤ (st.clients m.clientId).syncCount := by
  rw [hr.served]
  exact counts_served h.agreed (take_up h hr.take).1

theorem Receives.keeps_served : ∀ m ∈ st.served, m ∈ st'.served := by
  rw [hr.served]
  exact fun m hm => List.mem_append_left _ hm

theorem Receives.lines (h : st.Inv) : (st'.path.line .one []).All st.FromClient ∧
    ∀ taken, st'.path.line .two taken = st.path.line .two taken := by
  rw [hr.path]
  exact (take_up h hr.take).2

theorem Receives.request (h : st.Inv) (ht : p.msg.type = .handshake) :
    st.Request p.msg.clientId p.msg :=
  h.agreed.requests _ _ ((take_up h hr.take).1 ht)

theorem Receives.register (h : st.Inv) (hnew : st.tables.clientIds p.msg.clientId = none)
    (hreg : st.tables.registerClient p.msg.clientId drawn = some st'.tables)
    (hworkers : st'.workers = st.workers.assign drawn (Worker.create drawn))
    (hstage : st'.stage = next (st'.tables.resolveId p.msg p.msg.serverId) p) : st'.Inv := by
  have ha : st.Admits p.msg.clientId drawn st.tables st' := by
    refine ⟨FtpServer.joins_registerClient hreg hnew,h.agreed.sound.restrict fun S hS => ?_,rfl,rfl,
      hr.clients,fun S hl => ?_⟩
    · rw [hnew] at hS
      cases hS
    · have hS := hl.1
      rw [hnew] at hS
      cases hS
  exact ha.inv h hr.keeps_served (hr.counts h) (ha.staged h.agreed rfl (fun _ _ => hr.request h) hstage)
    (hr.lines h).1 (hr.lines h).2 hworkers

section Retire

variable (h : st.Inv) (ht : p.msg.type = .handshake)
  (hcur : st.tables.clientIds p.msg.clientId = some p.msg.serverId)
  (htables : st'.tables = st.tables.deactivate p.msg.clientId p.msg.serverId)
include htables

omit hr in
theorem lives_retired {c S : ℤ} : st'.Lives c S ↔ S ≠ p.msg.serverId ∧ st.Lives c S := by
  rw [Lives,htables,FtpServer.deactivate_active]
  split_ifs with hS
  · exact iff_of_false (by simp) fun hl => hl.1 hS
  · exact (and_iff_right hS).symm

include h ht hcur

theorem Receives.retire_moves : Moves st st' := by
  have hreq := hr.request h ht
  refine ⟨fun c => by rw [hr.clients],fun c => by rw [hr.clients],fun c => by rw [hr.clients],
    fun c S hu => (lives_retired htables).mpr ⟨?_,hu.1⟩,fun S hS => ?_,
    fun c S hl _ => ((lives_retired htables).mp hl).2⟩
  · rintro rfl
    obtain rfl := h.agreed.sound.distinct c _ _ trivial trivial hu.1.1 hcur
    exact hu.2 (hreq.active hu.1.2).2.1.symm
  · rw [Drawn,htables,FtpServer.deactivate_active]
    split_ifs
    · rfl
    · exact hS

theorem Receives.retire (hworkers : st'.workers = st.workers) (hstage : st'.stage = .retiring p) :
    st'.Inv := by
  have hreq := hr.request h ht
  refine (hr.retire_moves h ht hcur htables).inv h hr.clients ?_ hr.keeps_served (hr.counts h)
    (fun c hset hl => ?_) ?_ (hr.lines h).1 (hr.lines h).2
    fun taken _ hworks S w hw => hworks S w (hworkers ▸ hw)
  · rw [htables]
    exact FtpServer.deactivate_sound h.agreed.sound
  · refine (lives_retired htables).mpr ⟨fun he => ?_,hl⟩
    rw [he] at hl
    obtain rfl := h.agreed.sound.distinct c _ _ trivial trivial hl.1 hcur
    obtain ⟨hsync,_,hcount⟩ := hreq.active hl.2
    have hle := hset p.msg (by rw [hr.served]; simp) rfl ht
    rw [hr.clients,hcount,FtpClient.completed,if_pos hsync] at hle
    have hone := h.agreed.syncing _ hsync
    omega
  · rw [Staged,hstage,htables]
    refine ⟨hcur,?_⟩
    rw [FtpServer.deactivate_active,if_pos rfl]

end Retire

theorem Receives.handed_current (h : st.Inv) {current : ℤ}
    (hcur : st.tables.clientIds p.msg.clientId = some current)
    (hre : ¬(p.msg.type = .handshake ∧ p.msg.serverId = current))
    (hact : st.tables.isThreadActive current = some true) : st.Handed current p.msg := by
  refine ⟨fun ht => ?_,fun _ => hcur⟩
  have hreq := hr.request h ht
  refine ⟨hreq.length,?_⟩
  by_cases hid : (st.clients p.msg.clientId).serverIdentifier = current
  · left
    have hle := hreq.count
    cases hsync : (st.clients p.msg.clientId).syncing with
    | false => simpa [FtpClient.completed,hsync] using hle
    | true =>
      have hcount : p.msg.count ≠ (st.clients p.msg.clientId).syncCount :=
        fun he => hre ⟨ht,(hreq.current hsync he).trans hid⟩
      have hone := h.agreed.syncing _ hsync
      rw [FtpClient.completed,if_pos hsync]
      omega
  · exact .inr ⟨⟨⟨hcur,hact⟩,hid⟩,hreq.count⟩

theorem Receives.forward (h : st.Inv) {current : ℤ}
    (hcur : st.tables.clientIds p.msg.clientId = some current)
    (hre : ¬(p.msg.type = .handshake ∧ p.msg.serverId = current))
    (htables : st'.tables = st.tables) (hworkers : st'.workers = st.workers)
    (hstage : st'.stage = next (st.tables.resolveId p.msg (st.tables.requestedId current p.msg)) p) :
    st'.Inv := by
  have hm : Moves st st' := by
    refine .of_tables (fun c => ?_) (by rw [htables]) (by rw [htables])
    rw [hr.clients]
    exact sameCounts_refl _
  have hlives {c S : ℤ} (hl : st.Lives c S) : st'.Lives c S := by
    rw [Lives,htables]
    exact hl
  refine hm.inv h hr.clients (htables ▸ h.agreed.sound) hr.keeps_served (hr.counts h)
    (fun c _ => hlives) ?_ (hr.lines h).1 (hr.lines h).2
    fun taken _ hworks S w hw => hworks S w (hworkers ▸ hw)
  have htarget : st.tables.resolveId p.msg (st.tables.requestedId current p.msg) = current ∨
      st.tables.resolveId p.msg (st.tables.requestedId current p.msg) = nullServerId := by
    simp only [FtpServer.resolveId,hcur]
    split_ifs
    · exact .inl rfl
    · exact .inr rfl
  obtain ⟨hnull,hdrawn⟩ := h.agreed.current_id hcur
  rw [Staged,hstage]
  rcases htarget with ht | ht
  · rw [ht,next,if_neg hnull]
    refine ⟨hm.drawn _ hdrawn,fun hact => hm.handed h.agreed (htables ▸ h.agreed.sound) hdrawn ?_⟩
    exact hr.handed_current h hcur hre (htables ▸ hact)
  · rw [ht,next,if_pos rfl]
    trivial

end Receive

theorem Inv.receive (h : st.Inv) (hs : st.receive drawn = some st') : st'.Inv := by
  obtain ⟨p,path,hr,⟨hnew,hreg,hworkers,hstage⟩ | ⟨⟨ht,hcur⟩,htables,hworkers,hstage⟩ |
    ⟨current,hcur,hre,htables,hworkers,hstage⟩⟩ := receive_cases hs
  · exact hr.register h hnew hreg hworkers hstage
  · exact hr.retire h ht hcur htables hworkers hstage
  · exact hr.forward h hcur hre htables hworkers hstage

theorem sameClients (h : st'.clients = st.clients) (c : ℤ) :
    SameCounts (st.clients c) (st'.clients c) := by
  rw [h]
  exact sameCounts_refl _

structure Serves (st st' : Network) (S : ℤ) (w : Worker) : Prop where
  clients : st'.clients = st.clients
  ids : st'.tables.clientIds = st.tables.clientIds
  active : st'.tables.isThreadActive = st.tables.isThreadActive
  sound : st'.tables.Sound (fun _ => True)
  served : st'.served = st.served
  path : st'.path = st.path
  workers : st'.workers = st.workers.assign S w

theorem Serves.moves {S : ℤ} {w : Worker} (hs : st.Serves st' S w) : Moves st st' :=
  .of_tables (sameClients hs.clients) hs.ids hs.active

theorem Serves.inv {S : ℤ} {w w' : Worker} (hs : st.Serves st' S w') (h : st.Inv)
    (hold : st.workers S = some w) (hstaged : st'.Staged)
    (hw : ∀ taken, st'.Works taken S w → st'.Works taken S w') : st'.Inv := by
  refine hs.moves.inv h hs.clients hs.sound (fun m => hs.served ▸ id) (hs.served ▸ h.agreed.counts)
    (fun c _ hl => ?_) hstaged (hs.path ▸ h.up) (fun _ => by rw [hs.path])
    fun taken _ hworks S' v hv => ?_
  · rw [Lives,hs.ids,hs.active]
    exact hl
  · rw [hs.workers,Table.assign_apply] at hv
    split_ifs at hv with he
    · obtain rfl := Option.some.inj hv
      exact he ▸ hw taken (hworks S w hold)
    · exact hworks S' v hv

theorem Works.started {S : ℤ} {w : Worker} (h : st.Works taken S w)
    (hphase : ∀ m, w.phase ≠ .busy m) : w.thread.currentState ≠ .initializing := by
  intro hi
  obtain ⟨m,hb⟩ := h.booting hi
  exact hphase m hb

theorem Works.calm {S : ℤ} {w : Worker} {phase : WorkerPhase} (h : st.Works taken S w)
    (hi : w.thread.currentState ≠ .initializing) (hb : ∀ m, phase ≠ .busy m)
    (hs : ∀ m, phase ≠ .signalled m) : st.Works taken S { w with phase := phase } :=
  ⟨h.serverId,h.drawn,fun he => absurd he hi,fun m he => absurd he (hb m),
    fun m he => absurd he (hs m),fun m he => absurd he (hb m),h.fresh⟩

theorem Works.accept {S : ℤ} {w w' : Worker} {m : Msg} (h : st.Works taken S w)
    (ha : w.accept m = some w')
    (hm : st.tables.isThreadActive S = some true → st.Handed S m) : st.Works taken S w' := by
  unfold Worker.accept at ha
  split at ha
  · rename_i hphase
    have hi := h.started fun _ => by simp [hphase]
    obtain rfl := Option.some.inj ha
    exact ⟨h.serverId,h.drawn,fun he => absurd he hi,fun _ he => (by cases he),
      fun m' he hact => WorkerPhase.signalled.inj he ▸ hm hact,fun _ he => (by cases he),h.fresh⟩
  · rename_i hphase
    have hi := h.started fun _ => by simp [hphase]
    exact Option.some.inj ha ▸ h.calm hi (by simp) (by simp)
  · cases ha

theorem Works.proceed {S : ℤ} {w : Worker} {m : Msg} (h : st.Works taken S w)
    (hphase : w.phase = .signalled m) (hact : st.tables.isThreadActive S = some true) :
    st.Works taken S { w with phase := .busy m } := by
  have hi := h.started fun _ => by simp [hphase]
  refine ⟨h.serverId,h.drawn,fun he => absurd he hi,fun m' he _ => ?_,fun m' he => ?_,
    fun _ _ _ => hact,h.fresh⟩
  · exact WorkerPhase.busy.inj he ▸ h.signalled m hphase hact
  · cases he

theorem Works.ran {S : ℤ} {w : Worker} {m : Msg} {disk : Disk} {out : ServerThread.Outcome}
    (h : st.Works taken S w) (hrun : w.thread.run m disk = some out) :
    st.Works taken S ⟨out.1,.resting⟩ := by
  have hstarted := ServerThread.run_started hrun
  have hids : out.1.serverId = S ∧ (Starting ⟨out.1,.resting⟩ → Starting w) := by
    by_cases hi : w.thread.currentState = .initializing
    · obtain rfl := ServerThread.run_initializing hi hrun
      exact ⟨h.serverId,fun _ => .inl hi⟩
    · obtain ⟨hbegun,-⟩ := ServerThread.run_begun hi hrun
      exact ⟨hbegun.serverId.trans h.serverId,fun hst => absurd hst (not_or.mpr hbegun.state)⟩
  exact ⟨hids.1,h.drawn,fun he => absurd he hstarted,fun _ he => (by cases he),fun _ he => (by cases he),
    fun _ he => (by cases he),fun hst => h.fresh (hids.2 hst)⟩

theorem Works.step {S : ℤ} {w stepped : Worker} {disk : Disk} {effects : List Effect}
    (h : st.Works taken S w)
    (hs : w.step (st.tables.isThreadActive S = some true) disk = some (stepped,effects)) :
    st.Works taken S stepped := by
  unfold Worker.step at hs
  split at hs
  · rename_i hphase
    have hi := h.started fun _ => by simp [hphase]
    exact (Prod.mk.inj (Option.some.inj hs)).1 ▸ h.calm hi (by simp) (by simp)
  · rename_i m hphase
    have hi := h.started fun _ => by simp [hphase]
    obtain ⟨rfl,-⟩ := Prod.mk.inj (Option.some.inj hs)
    split_ifs with hact
    · exact h.proceed hphase (of_decide_eq_true hact)
    · exact h.calm hi (by simp) (by simp)
  · obtain ⟨out,hrun,he⟩ := Option.map_eq_some_iff.mp hs
    exact (Prod.mk.inj he).1 ▸ h.ran hrun
  · rename_i hphase
    have hi := h.started fun _ => by simp [hphase]
    exact (Prod.mk.inj (Option.some.inj hs)).1 ▸ h.calm hi (by simp) (by simp)
  · cases hs
  · cases hs

theorem handOver_cases {S : ℤ} {p : Parcel} {stage : DispatcherStage}
    (hs : st.handOver S p stage = some st') (h : st.Inv) : ∃ w w', st.workers S = some w ∧
      w.accept { p.msg with serverId := S } = some w' ∧ st.Serves st' S w' ∧ st'.stage = stage ∧
        st'.dispatched = st.dispatched ++ [(S,p)] := by
  obtain ⟨w,hw,hs⟩ := Option.bind_eq_some_iff.mp hs
  obtain ⟨w',haccept,rfl⟩ := Option.map_eq_some_iff.mp hs
  obtain ⟨hids,hactive,-,-⟩ := FtpServer.dispatchMessage_tables st.tables S p.msg
  exact ⟨w,w',hw,haccept,⟨rfl,hids,hactive,h.agreed.sound.dispatchMessage S p.msg,rfl,rfl,rfl⟩,rfl,rfl⟩

theorem dispatch_cases (hs : st.dispatch = some st') :
    ∃ S p, st.stage = .dispatching S p ∧ st.handOver S p .ready = some st' := by
  unfold Network.dispatch at hs
  split at hs
  · rename_i S p hstage
    exact ⟨S,p,hstage,hs⟩
  · cases hs

theorem retire_cases (hs : st.retire = some st') :
    ∃ p, st.stage = .retiring p ∧ st.handOver p.msg.serverId p (.joining p) = some st' := by
  unfold Network.retire at hs
  split at hs
  · rename_i p hstage
    exact ⟨p,hstage,hs⟩
  · cases hs

theorem Inv.dispatch (h : st.Inv) (hs : st.dispatch = some st') : st'.Inv := by
  obtain ⟨S,p,hstage,hover⟩ := dispatch_cases hs
  obtain ⟨w,w',hw,haccept,hserves,hstage',-⟩ := handOver_cases hover h
  have hold := h.agreed.staged
  rw [Staged,hstage] at hold
  refine hserves.inv h hw ?_ fun taken hworks => hworks.accept haccept fun hact => ?_
  · rw [Staged,hstage']
    trivial
  · exact hserves.moves.handed h.agreed hserves.sound hold.1 (hold.2 (hserves.active ▸ hact))

theorem Inv.retire (h : st.Inv) (hs : st.retire = some st') : st'.Inv := by
  obtain ⟨p,hstage,hover⟩ := retire_cases hs
  obtain ⟨w,w',hw,haccept,hserves,hstage',-⟩ := handOver_cases hover h
  have hold := h.agreed.staged
  rw [Staged,hstage] at hold
  refine hserves.inv h hw ?_ fun taken hworks => hworks.accept haccept fun hact => ?_
  · rw [Staged,hstage',hserves.ids,hserves.active]
    exact hold
  · rw [hserves.active,hold.2] at hact
    cases hact

theorem respawn_cases (hs : st.respawn drawn = some st') : ∃ p, st.stage = .joining p ∧
    (st.tables.releaseId p.msg.serverId).respawn p.msg.clientId drawn = some st'.tables ∧
      st'.stage = next (st'.tables.resolveId p.msg p.msg.serverId) p ∧
      st' = { st with
        tables := st'.tables
        workers := st.workers.assign drawn (Worker.create drawn)
        stage := st'.stage } := by
  unfold Network.respawn at hs
  split at hs
  · rename_i p hstage
    dsimp only at hs
    split_ifs at hs
    obtain ⟨tables,hr,rfl⟩ := Option.map_eq_some_iff.mp hs
    exact ⟨p,hstage,hr,rfl,rfl⟩
  · cases hs

theorem Inv.respawn (h : st.Inv) (hs : st.respawn drawn = some st') : st'.Inv := by
  obtain ⟨p,hstage,hrespawn,hstage',he⟩ := respawn_cases hs
  have hold := h.agreed.staged
  rw [Staged,hstage] at hold
  obtain ⟨hcur,hinactive⟩ := hold
  obtain ⟨hids,hactive⟩ := FtpServer.releaseId_tables st.tables p.msg.serverId
  have hrest := h.agreed.sound.restrict (c := p.msg.clientId) fun S hS ha => by
    obtain rfl := Option.some.inj (hcur.symm.trans hS)
    rw [hinactive] at ha
    cases ha
  have ha : st.Admits p.msg.clientId drawn (st.tables.releaseId p.msg.serverId) st' := by
    refine ⟨FtpServer.joins_respawn hrespawn,FtpServer.releaseId_sound hrest fun a hac hS => hac ?_,
      hids,hactive,by rw [he],fun S hl => ?_⟩
    · exact h.agreed.sound.distinct a _ _ trivial trivial hS hcur
    · obtain rfl := Option.some.inj (hcur.symm.trans hl.1)
      have hl' := hl.2
      rw [hinactive] at hl'
      cases hl'
  refine ha.inv h (fun m => by rw [he]; exact id) (by rw [he]; exact h.agreed.counts)
    (ha.staged h.agreed rfl (fun hserver hact => ?_) hstage') (by rw [he]; exact h.up)
    (fun _ => by rw [he]) (by rw [he])
  -- the retired id can come back only as a thread that never runs
  obtain ⟨hnull,hdrawn⟩ := h.agreed.current_id hcur
  rcases hserver with hn | hd
  · exact absurd hn hnull
  · exact absurd (hd ▸ hdrawn) (ha.new_id hact)

theorem line_sendAll (path : Path Parcel) (parcels : List Parcel) :
    (sendAll path parcels).line .one [] = path.line .one [] := by
  induction parcels generalizing path with
  | nil => rfl
  | cons p parcels ih => exact (ih _).trans (Path.line_send_other _ _ _ (by decide))

def Announces (st : Network) (taken : List Parcel) (p : Parcel) : Prop :=
  p.msg.type = .handshake → st.Drawn p.msg.serverId ∧
    (p.echo = true → st.Fresh p.msg.clientId p.msg.serverId p.msg.count) ∧
    (p.echo = false → st.Unadopted p.msg.clientId p.msg.serverId ∧ st.NoReply taken p.msg.serverId)

theorem Inv.sendSilent (h : st.Inv) (hreplies : st.Replies taken)
    (hworks : ∀ S w, st.workers S = some w → st.Works taken S w) {parcels : List Parcel}
    (hp : ∀ p ∈ parcels, p.msg.type ≠ .handshake) :
    Inv { st with path := sendAll st.path parcels } := by
  induction parcels generalizing st with
  | nil => exact h
  | cons p parcels ih =>
    have hsilent : p.msg.type ≠ .handshake := hp p List.mem_cons_self
    have hreplies' := hreplies.push (p := p) fun ht => absurd ht hsilent
    have hworks' := fun S w hw => (hworks S w hw).push (p := p) fun ht => absurd ht hsilent
    have hup : ((st.path.send .two p).line .one []).All st.FromClient := by
      rw [Path.line_send_other _ _ _ (by decide)]
      exact h.up
    have hinv := h.withPath hup ⟨taken,hworks',hreplies'⟩
    exact ih hinv hreplies' hworks' fun q hq => hp q (List.mem_cons_of_mem p hq)

theorem count_echo {m reply : Msg} (hlength : m.length = 4)
    (h : reply.buffer = Buffer.copyIn (m.buffer.copyOut m.length.toNat)) : reply.count = m.count := by
  have hlen : (m.buffer.copyOut 4).length = 4 := m.buffer.copyOut_length (by decide)
  have hle : (m.buffer.copyOut 4).length ≤ bufferLength := by
    rw [hlen]
    decide
  have htake : reply.buffer.val.take 4 = m.buffer.val.take 4 := by
    have hcopy := Buffer.copyOut_copyIn hle
    rw [hlen] at hcopy
    rw [h,hlength]
    exact hcopy
  rw [Msg.count,Msg.count,decodeInt,decodeInt,htake]

theorem Works.announces {S : ℤ} {w : Worker} {m reply : Msg} (h : st.Works taken S w)
    (hphase : w.phase = .busy m) (hi : w.thread.currentState ≠ .initializing)
    (hcause : w.thread.currentState = .startingHandshake ∨ m.type = .handshake)
    (hserver : reply.serverId = w.thread.serverId) (hclient : reply.clientId = m.clientId)
    (hbuffer : reply.buffer = Buffer.copyIn (m.buffer.copyOut m.length.toNat)) :
    st.Announces taken ⟨reply,none,m.type = .handshake⟩ := by
  have hid := hserver.trans h.serverId
  have hhanded := h.busy m hphase hi
  refine fun _ => ⟨hid ▸ h.drawn,fun he => ?_,fun he => ?_⟩
  · obtain ⟨hlength,hfresh⟩ := hhanded.1 (of_decide_eq_true he)
    dsimp only
    rw [hid,hclient,count_echo hlength hbuffer]
    exact hfresh
  · have hs := hcause.resolve_right (of_decide_eq_false he)
    have hact := h.first m hphase hs
    obtain ⟨hids,hno⟩ := h.fresh (.inr hs) hact
    dsimp only
    rw [hid,hclient]
    exact ⟨⟨⟨hhanded.2 hact,hact⟩,hids _⟩,hno⟩

theorem replies_send {w : Worker} {m : Msg} (hphase : w.phase = .busy m) (reply : Msg) :
    replies w [.send reply] = [⟨reply,none,m.type = .handshake⟩] := by
  simp [replies,hphase]

theorem replies_calm {w stepped : Worker} {isActive : Bool} {disk : Disk} {effects : List Effect}
    (hphase : ∀ m, w.phase ≠ .busy m) (hs : w.step isActive disk = some (stepped,effects)) :
    replies w effects = [] := by
  unfold Worker.step at hs
  split at hs
  · rw [← (Prod.mk.inj (Option.some.inj hs)).2]
    rfl
  · rw [← (Prod.mk.inj (Option.some.inj hs)).2]
    rfl
  · rename_i m hb
    exact absurd hb (hphase m)
  · rw [← (Prod.mk.inj (Option.some.inj hs)).2]
    rfl
  · cases hs
  · cases hs

theorem silent_replies {w : Worker} {effects : List Effect} (h : ServerThread.Silent effects) :
    ∀ p ∈ replies w effects, p.msg.type ≠ .handshake := by
  intro p hp
  obtain ⟨e,he,hsome⟩ := List.mem_filterMap.mp hp
  split at hsome
  · obtain rfl := Option.some.inj hsome
    exact h _ he
  · cases hsome

theorem Works.replies {S : ℤ} {w stepped : Worker} {isActive : Bool} {disk : Disk}
    {effects : List Effect} (h : st.Works taken S w)
    (hs : w.step isActive disk = some (stepped,effects)) :
    (∀ p ∈ replies w effects, p.msg.type ≠ .handshake) ∨ ¬Starting stepped ∧
      ∃ p, replies w effects = [p] ∧ p.msg.serverId = S ∧ st.Announces taken p := by
  by_cases hbusy : ∃ m, w.phase = .busy m
  · obtain ⟨m,hphase⟩ := hbusy
    simp only [Worker.step,hphase] at hs
    obtain ⟨out,hrun,he⟩ := Option.map_eq_some_iff.mp hs
    obtain ⟨rfl,rfl⟩ := Prod.mk.inj he
    by_cases hi : w.thread.currentState = .initializing
    · obtain rfl := ServerThread.run_initializing hi hrun
      exact .inl (silent_replies ServerThread.silent_nil)
    · obtain ⟨hbegun,hsilent | ⟨hcause,reply,hreply,-,hserver,hclient,hbuffer⟩⟩ :=
        ServerThread.run_begun hi hrun
      · exact .inl (silent_replies hsilent)
      · rw [hreply,replies_send hphase]
        exact .inr ⟨not_or.mpr hbegun.state,_,rfl,hserver.trans h.serverId,
          h.announces hphase hi hcause hserver hclient hbuffer⟩
  · left
    rw [replies_calm (fun m hm => hbusy ⟨m,hm⟩) hs]
    exact fun p hp => absurd hp List.not_mem_nil

theorem releases_sound {tables : FtpServer} (h : tables.Sound (fun _ => True)) (S : ℤ) :
    FtpServer.Sound (fun _ => True)
      { tables with threadLocks := tables.threadLocks.modify S AsyncLock.finalizeConsumption } := by
  refine ⟨h.distinct,fun a T ha hT => ?_,fun T hT => ?_,h.owned,fun T hT => ?_⟩
  · dsimp only
    rw [Table.modify_isSome]
    exact h.locks a T ha hT
  · dsimp only at hT
    rw [Table.modify_isSome] at hT
    exact h.slots T hT
  · dsimp only at hT
    rw [Table.modify_isSome] at hT
    exact h.range T hT

def afterWork (st : Network) (S : ℤ) (w stepped : Worker) : Network :=
  { st with
    tables := if releases w then { st.tables with
        threadLocks := st.tables.threadLocks.modify S AsyncLock.finalizeConsumption }
      else st.tables
    workers := st.workers.assign S stepped }

theorem work_cases {S : ℤ} {disk : Disk} (hs : st.work S disk = some st') :
    ∃ w stepped effects, st.workers S = some w ∧
      w.step (st.tables.isThreadActive S = some true) disk = some (stepped,effects) ∧
        st' = { st.afterWork S w stepped with path := sendAll st.path (replies w effects) } := by
  obtain ⟨w,hw,hs⟩ := Option.bind_eq_some_iff.mp hs
  obtain ⟨⟨stepped,effects⟩,hstep,rfl⟩ := Option.map_eq_some_iff.mp hs
  exact ⟨w,stepped,effects,hw,hstep,rfl⟩

theorem serves_afterWork (h : st.Agreed) (S : ℤ) (w stepped : Worker) :
    st.Serves (st.afterWork S w stepped) S stepped := by
  unfold afterWork
  split_ifs
  · exact ⟨rfl,rfl,rfl,releases_sound h.sound S,rfl,rfl,rfl⟩
  · exact ⟨rfl,rfl,rfl,h.sound,rfl,rfl,rfl⟩

theorem Inv.work (h : st.Inv) {S : ℤ} {disk : Disk} (hs : st.work S disk = some st') :
    st'.Inv := by
  obtain ⟨w,stepped,effects,hw,hstep,rfl⟩ := work_cases hs
  have hserves := serves_afterWork h.agreed S w stepped
  have hstage : (st.afterWork S w stepped).stage = st.stage := rfl
  generalize st.afterWork S w stepped = mid at hserves hstage
  have hm := hserves.moves
  have hstaged := hm.staged h.agreed hserves.sound hstage hserves.ids hserves.active
  rw [← hserves.active] at hstep
  have hinv := hserves.inv h hw hstaged fun _ hold => hold.step hstep
  obtain ⟨taken,hworks,hreplies⟩ := h.down
  have hline : mid.downLine taken = st.downLine taken := by rw [downLine,hserves.path]; rfl
  have hold := hm.works h.agreed hserves.sound hline (hworks S w hw)
  have hcoming (c : ℤ) : mid.coming c = st.coming c := by
    rw [coming,coming,hserves.clients,hserves.path]
  have hreplies' : mid.Replies taken := hm.replies hline (fun c => hcoming c ▸ .refl _)
    (fun c => hserves.clients ▸ hreplies.inbox c) hreplies
  have hworks' : ∀ S' v, mid.workers S' = some v → mid.Works taken S' v ∧ (S' = S → v = stepped) := by
    intro S' v hv
    rw [hserves.workers,Table.assign_apply] at hv
    split_ifs at hv with he
    · obtain rfl := Option.some.inj hv
      exact ⟨he ▸ hold.step hstep,fun _ => rfl⟩
    · exact ⟨hm.works h.agreed hserves.sound hline (hworks S' v hv),fun he' => absurd he' he⟩
  rw [← hserves.path]
  rcases hold.replies hstep with hsilent | ⟨hrun,p,hp,hserver,hannounces⟩
  · exact hinv.sendSilent hreplies' (fun S' v hv => (hworks' S' v hv).1) hsilent
  · rw [hp]
    refine hinv.withPath ?_ ⟨taken,fun S' v hv => ?_,hreplies'.push hannounces⟩
    · rw [line_sendAll]
      exact hinv.up
    · refine (hworks' S' v hv).1.push fun _ hst he => hrun ?_
      rwa [← (hworks' S' v hv).2 (he.symm.trans hserver)]

end Network
end FtpOverUdp
