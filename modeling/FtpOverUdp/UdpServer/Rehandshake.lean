import FtpOverUdp.UdpServer.SessionTables

namespace FtpOverUdp

open Library

namespace FtpServer

structure Turn where
  clientId : ℤ
  retired : Option ℤ
  created : Option ℤ
  target : ℤ
  deriving DecidableEq

variable (self : FtpServer)

-- `getServerId` with the thread that the call stops and the one it starts
def turn (e : Arrival) : Option (FtpServer × Turn) :=
  match self.clientIds e.message.clientId with
  | none => (self.registerClient e.message.clientId e.drawn).map fun s =>
      (s,⟨e.message.clientId,none,some e.drawn,s.resolveId e.message e.message.serverId⟩)
  | some currentServerId =>
    if e.message.type = .handshake ∧ e.message.serverId = currentServerId then
      (self.restartSession currentServerId e.drawn e.message).map fun s =>
        (s,⟨e.message.clientId,some currentServerId,some e.drawn,
          s.resolveId e.message e.message.serverId⟩)
    else some (self,⟨e.message.clientId,none,none,
      self.resolveId e.message (self.requestedId currentServerId e.message)⟩)

def turns (self : FtpServer) : List Arrival → Option (List Turn)
  | [] => some []
  | e :: es => (self.turn e).bind fun r =>
      ((r.1.dispatchMessage r.2.target e.message).turns es).map (r.2 :: ·)

theorem turn_getServerId (e : Arrival) :
    (self.turn e).map (fun r => (r.1,r.2.target)) = self.getServerId e.drawn e.message := by
  unfold turn getServerId
  cases self.clientIds e.message.clientId with
  | none => exact Option.map_map ..
  | some currentServerId =>
    dsimp only
    split_ifs
    · exact Option.map_map ..
    · rfl

theorem turns_isSome (arrivals : List Arrival) :
    (self.turns arrivals).isSome = (system.run self arrivals).isSome := by
  induction arrivals generalizing self with
  | nil => rfl
  | cons e es ih =>
    have hhandle : system.step self e =
        (self.turn e).map fun r => r.1.dispatchMessage r.2.target e.message := by
      change (self.getServerId e.drawn e.message).map _ = _
      rw [← turn_getServerId,Option.map_map]
      rfl
    rw [turns,System.run,hhandle]
    cases self.turn e with
    | none => rfl
    | some r => simpa using ih (r.1.dispatchMessage r.2.target e.message)

def copiesOf (c : ℤ) (arrivals : List Arrival) : List Arrival :=
  arrivals.filter fun e => e.message.clientId = c

def turnsOf (c : ℤ) (ts : List Turn) : List Turn := ts.filter fun t => t.clientId = c

structure ReplacesOnce (c S : ℤ) (ts : List Turn) : Prop where
  retired : (turnsOf c ts).filterMap Turn.retired = [S]
  replaced : ∃ T, T ≠ nullServerId ∧ (turnsOf c ts).filterMap Turn.created = [T] ∧
    ∀ t ∈ (turnsOf c ts).tail, t.target = T

def IsHandshakeOf (c S : ℤ) (arrivals : List Arrival) : Prop :=
  ∀ e ∈ arrivals, e.message.clientId = c → e.message.type = .handshake ∧ e.message.serverId = S

variable {self} {st st' : FtpServer} {c S T : ℤ} {e first : Arrival} {rest arrivals : List Arrival}
  {t : Turn} {ts : List Turn} {reused : Bool}

theorem dispatchMessage_pastServerIds (st : FtpServer) (serverId : ℤ) (message : Msg) :
    (st.dispatchMessage serverId message).pastServerIds = st.pastServerIds := by
  unfold dispatchMessage
  split_ifs <;> rfl

theorem releaseId_pastServerIds (st : FtpServer) (S : ℤ) :
    (st.releaseId S).pastServerIds = st.pastServerIds := by
  unfold releaseId
  split_ifs <;> rfl

theorem turn_clientId (hs : st.turn e = some (st',t)) : t.clientId = e.message.clientId := by
  unfold turn at hs
  split at hs
  · obtain ⟨s,_,he⟩ := Option.map_eq_some_iff.mp hs
    rw [← (Prod.mk.inj he).2]
  · split_ifs at hs
    · obtain ⟨s,_,he⟩ := Option.map_eq_some_iff.mp hs
      rw [← (Prod.mk.inj he).2]
    · rw [← (Prod.mk.inj (Option.some.inj hs)).2]

structure Respawned (currentServerId drawn : ℤ) (message : Msg) (st st' : FtpServer) : Prop where
  lower : 0 ≤ drawn
  reused : st'.areServerIdsReused = st.areServerIdsReused
  kept : st.areServerIdsReused = false → (st.threadLocks currentServerId).isSome →
    drawn ≠ currentServerId
  ids : st'.clientIds = st.clientIds.assign message.clientId drawn
  past : st'.pastServerIds = st.pastServerIds.assign message.clientId currentServerId
  active : st'.isThreadActive = (st.isThreadActive.assign currentServerId false).insert drawn true

theorem restartSession_respawned {currentServerId drawn : ℤ} {message : Msg}
    (hs : st.restartSession currentServerId drawn message = some st') :
    Respawned currentServerId drawn message st st' := by
  obtain ⟨created,hcreate,rfl⟩ := Option.map_eq_some_iff.mp hs
  obtain ⟨hlo,_,hfree,rfl⟩ := createServerThread_spec hcreate
  obtain ⟨hids,hactive,hlocks,-⟩ := dispatchMessage_tables
    (st.deactivate message.clientId currentServerId) currentServerId message
  obtain ⟨hids',hactive'⟩ := releaseId_tables ((st.deactivate message.clientId
    currentServerId).dispatchMessage currentServerId message) currentServerId
  have hreused := dispatchMessage_reused (st.deactivate message.clientId currentServerId)
    currentServerId message
  constructor
  · exact hlo
  · exact (releaseId_reused ..).trans hreused
  · rintro hkeep hlock rfl
    rw [releaseId,hreused,if_neg (by simpa [deactivate] using hkeep)] at hfree
    have hlock' := (hlocks drawn).trans hlock
    rw [hfree] at hlock'
    cases hlock'
  · exact congrArg (·.assign message.clientId drawn) (hids'.trans hids)
  · exact (releaseId_pastServerIds ..).trans (dispatchMessage_pastServerIds ..)
  · exact congrArg (·.insert drawn true) (hactive'.trans hactive)

-- `insert` leaves the flag of the thread that has just been retired
theorem Respawned.redrawn {drawn : ℤ} {message : Msg} (h : Respawned drawn drawn message st st') :
    st'.isThreadActive drawn = some false := by
  rw [h.active]
  have hold : st.isThreadActive.assign drawn false drawn = some false := Table.assign_self ..
  exact (congrFun (Table.insert_of_some _ _ hold) drawn).trans hold

structure Undisturbed (c : ℤ) (st st' : FtpServer) : Prop where
  reused : st'.areServerIdsReused = st.areServerIdsReused
  ids : st'.clientIds c = st.clientIds c
  past : st'.pastServerIds c = st.pastServerIds c

theorem Undisturbed.dispatchMessage (h : Undisturbed c st st') (serverId : ℤ) (message : Msg) :
    Undisturbed c st (st'.dispatchMessage serverId message) := by
  constructor
  · rw [dispatchMessage_reused,h.reused]
  · rw [(dispatchMessage_tables st' serverId message).1,h.ids]
  · rw [dispatchMessage_pastServerIds,h.past]

theorem turn_other (hs : st.turn e = some (st',t)) (hc : e.message.clientId ≠ c) :
    Undisturbed c st (st'.dispatchMessage t.target e.message) := by
  apply Undisturbed.dispatchMessage
  unfold turn at hs
  split at hs
  · obtain ⟨s,hr,he⟩ := Option.map_eq_some_iff.mp hs
    obtain ⟨rfl,-⟩ := Prod.mk.inj he
    obtain ⟨created,hcreate,rfl⟩ := Option.map_eq_some_iff.mp hr
    obtain ⟨_,_,_,rfl⟩ := createServerThread_spec hcreate
    constructor
    · rfl
    · exact Table.insert_of_ne _ _ hc.symm
    · exact Table.insert_of_ne _ _ hc.symm
  · split_ifs at hs
    · obtain ⟨s,hr,he⟩ := Option.map_eq_some_iff.mp hs
      obtain ⟨rfl,-⟩ := Prod.mk.inj he
      have hre := restartSession_respawned hr
      constructor
      · exact hre.reused
      · exact (congrFun hre.ids c).trans (Table.assign_of_ne _ _ hc.symm)
      · exact (congrFun hre.past c).trans (Table.assign_of_ne _ _ hc.symm)
    · obtain ⟨rfl,-⟩ := Prod.mk.inj (Option.some.inj hs)
      exact ⟨rfl,rfl,rfl⟩

theorem turn_sound (h : st.Sound (fun _ => True)) (hs : st.turn e = some (st',t)) :
    (st'.dispatchMessage t.target e.message).Sound (fun _ => True) := by
  have hget := turn_getServerId st e
  rw [hs] at hget
  exact (getServerId_sound h hget.symm).dispatchMessage ..

structure Replaces (c S : ℤ) (e : Arrival) (st st' : FtpServer) (t : Turn) : Prop where
  retired : t.retired = some S
  created : t.created = some e.drawn
  named : e.drawn ≠ nullServerId
  kept : st.Sound (fun _ => True) → st.areServerIdsReused = false → e.drawn ≠ S
  ids : st'.clientIds c = some e.drawn
  past : st'.pastServerIds c = some S

theorem turn_first (hs : st.turn e = some (st',t)) (hid : st.clientIds e.message.clientId = some S)
    (htype : e.message.type = .handshake) (hserver : e.message.serverId = S) :
    Replaces e.message.clientId S e st (st'.dispatchMessage t.target e.message) t := by
  unfold turn at hs
  rw [hid] at hs
  dsimp only at hs
  rw [if_pos ⟨htype,hserver⟩] at hs
  obtain ⟨s,hr,he⟩ := Option.map_eq_some_iff.mp hs
  obtain ⟨rfl,rfl⟩ := Prod.mk.inj he
  have hre := restartSession_respawned hr
  have hlo := hre.lower
  constructor
  · rfl
  · rfl
  · simp only [nullServerId]
    omega
  · exact fun h hkeep => hre.kept hkeep (h.locks _ _ trivial hid)
  · rw [(dispatchMessage_tables ..).1,hre.ids,Table.assign_self]
  · rw [dispatchMessage_pastServerIds,hre.past,Table.assign_self]

theorem turn_copy (hs : st.turn e = some (st',t)) (hid : st.clientIds e.message.clientId = some T)
    (hpast : st.pastServerIds e.message.clientId = some S) (hne : T ≠ S)
    (htype : e.message.type = .handshake) (hserver : e.message.serverId = S) :
    st' = st ∧ t = ⟨e.message.clientId,none,none,T⟩ := by
  have hrequest : st.requestedId T e.message = T :=
    if_pos ⟨htype,hserver ▸ hne.symm,hserver ▸ hpast⟩
  unfold turn at hs
  rw [hid] at hs
  dsimp only at hs
  rw [if_neg fun h => hne (h.2.symm.trans hserver),hrequest,resolveId,hid] at hs
  simpa [eq_comm] using hs

theorem turns_cons (hs : st.turns (e :: arrivals) = some ts) : ∃ st' t ts',
    st.turn e = some (st',t) ∧ (st'.dispatchMessage t.target e.message).turns arrivals = some ts' ∧
      ts = t :: ts' := by
  obtain ⟨⟨st',t⟩,hturn,hmap⟩ := Option.bind_eq_some_iff.mp hs
  obtain ⟨ts',hrest,rfl⟩ := Option.map_eq_some_iff.mp hmap
  exact ⟨st',t,ts',hturn,hrest,rfl⟩

theorem turnsOf_other (ht : t.clientId ≠ c) : turnsOf c (t :: ts) = turnsOf c ts :=
  List.filter_cons_of_neg (by simpa using ht)

theorem turnsOf_own (ht : t.clientId = c) : turnsOf c (t :: ts) = t :: turnsOf c ts :=
  List.filter_cons_of_pos (by simpa using ht)

theorem turnsOf_length (hs : st.turns arrivals = some ts) :
    (turnsOf c ts).length = (copiesOf c arrivals).length := by
  induction arrivals generalizing st ts with
  | nil =>
    obtain rfl := Option.some.inj hs
    rfl
  | cons e es ih =>
    obtain ⟨st',t,ts',hturn,hrest,rfl⟩ := turns_cons hs
    have htc := turn_clientId hturn
    by_cases hc : e.message.clientId = c
    · rw [turnsOf_own (htc.trans hc),copiesOf,List.filter_cons_of_pos (by simpa using hc)]
      exact congrArg (· + 1) (ih hrest)
    · rw [turnsOf_other (by rwa [htc]),copiesOf,List.filter_cons_of_neg (by simpa using hc)]
      exact ih hrest

theorem IsHandshakeOf.tail (h : IsHandshakeOf c S (e :: arrivals)) : IsHandshakeOf c S arrivals :=
  fun a ha => h a (List.mem_cons_of_mem e ha)

theorem copies_join_replacement (hcopies : IsHandshakeOf c S arrivals)
    (hs : st.turns arrivals = some ts) (hid : st.clientIds c = some T)
    (hpast : st.pastServerIds c = some S) (hne : T ≠ S) :
    ∀ t ∈ turnsOf c ts, t = ⟨c,none,none,T⟩ := by
  induction arrivals generalizing st ts with
  | nil =>
    obtain rfl := Option.some.inj hs
    simp [turnsOf]
  | cons e es ih =>
    obtain ⟨st',t,ts',hturn,hrest,rfl⟩ := turns_cons hs
    by_cases hc : e.message.clientId = c
    · obtain ⟨htype,hserver⟩ := hcopies e (List.mem_cons_self ..) hc
      obtain ⟨rfl,rfl⟩ := turn_copy hturn (hc ▸ hid) (hc ▸ hpast) hne htype hserver
      have hkept : Undisturbed c st' (st'.dispatchMessage T e.message) :=
        Undisturbed.dispatchMessage ⟨rfl,rfl,rfl⟩ T e.message
      rw [turnsOf_own hc]
      intro t ht
      rcases List.mem_cons.mp ht with rfl | ht
      · rw [hc]
      · exact ih hcopies.tail hrest (hkept.ids.trans hid) (hkept.past.trans hpast) t ht
    · have hkept := turn_other hturn hc
      rw [turnsOf_other (by rwa [turn_clientId hturn])]
      exact ih hcopies.tail hrest (hkept.ids.trans hid) (hkept.past.trans hpast)

structure AfterFirst (c S drawn : ℤ) (rest : List Arrival) (reused : Bool) (st : FtpServer)
    (later : List Arrival) : Prop where
  copies : copiesOf c later = rest
  handshakes : IsHandshakeOf c S later
  ids : st.clientIds c = some drawn
  past : st.pastServerIds c = some S
  named : drawn ≠ nullServerId
  kept : reused = false → drawn ≠ S

theorem first_copy (h : st.Sound (fun _ => True)) (hcopies : IsHandshakeOf c S arrivals)
    (hs : st.turns arrivals = some ts) (hid : st.clientIds c = some S)
    (hfirst : copiesOf c arrivals = first :: rest) :
    ∃ (st' : FtpServer) (later : List Arrival) (t : Turn) (ts' : List Turn),
      turnsOf c ts = t :: turnsOf c ts' ∧ t.retired = some S ∧ t.created = some first.drawn ∧
      st'.turns later = some ts' ∧ st'.Sound (fun _ => True) ∧
      AfterFirst c S first.drawn rest st.areServerIdsReused st' later := by
  induction arrivals generalizing st ts with
  | nil => cases hfirst
  | cons e es ih =>
    obtain ⟨st',t,ts',hturn,hrest,rfl⟩ := turns_cons hs
    have hsound := turn_sound h hturn
    by_cases hc : e.message.clientId = c
    · obtain ⟨htype,hserver⟩ := hcopies e (List.mem_cons_self ..) hc
      have hnew := turn_first hturn (hc ▸ hid) htype hserver
      rw [copiesOf,List.filter_cons_of_pos (by simpa using hc)] at hfirst
      obtain ⟨rfl,hlater⟩ := List.cons.inj hfirst
      rw [turnsOf_own ((turn_clientId hturn).trans hc)]
      rw [hc] at hnew
      exact ⟨_,es,t,ts',rfl,hnew.retired,hnew.created,hrest,hsound,
        ⟨hlater,hcopies.tail,hnew.ids,hnew.past,hnew.named,hnew.kept h⟩⟩
    · have hkept := turn_other hturn hc
      rw [turnsOf_other (by rwa [turn_clientId hturn])]
      rw [copiesOf,List.filter_cons_of_neg (by simpa using hc)] at hfirst
      rw [← hkept.reused]
      exact ih hsound hcopies.tail hrest (hkept.ids.trans hid) hfirst

theorem sound_of_reachable (hst : system.Reachable st) : st.Sound (fun _ => True) := by
  refine system.reachable_invariant ?_ (fun _ _ _ h hs => handle_sound h hs) hst
  rintro _ ⟨areServerIdsReused,rfl⟩
  exact (create_holds areServerIdsReused).1

theorem later_copies_quiet (hs : st.turns arrivals = some ts)
    (h : AfterFirst c S T rest reused st arrivals)
    (hdraw : rest = [] ∨ reused = false ∨ T ≠ S) : ∀ t ∈ turnsOf c ts, t = ⟨c,none,none,T⟩ := by
  rcases hdraw with hnone | hdraw
  · have hlen := turnsOf_length (c := c) hs
    rw [h.copies,hnone] at hlen
    simp [List.eq_nil_of_length_eq_zero hlen]
  · have hne : T ≠ S := hdraw.elim h.kept id
    exact copies_join_replacement h.handshakes hs h.ids h.past hne

theorem rehandshake_replaces_once_iff (hst : system.Reachable st) (hid : st.clientIds c = some S)
    (hcopies : IsHandshakeOf c S arrivals) (hfirst : copiesOf c arrivals = first :: rest)
    (hs : st.turns arrivals = some ts) :
    ReplacesOnce c S ts ↔ rest = [] ∨ st.areServerIdsReused = false ∨ first.drawn ≠ S := by
  obtain ⟨st',later,t,ts',hturns,hretired,hcreated,hlater,hsound,hafter⟩ :=
    first_copy (sound_of_reachable hst) hcopies hs hid hfirst
  constructor
  · rintro ⟨honce,-⟩
    cases hr : rest with
    | nil => exact Or.inl rfl
    | cons second others =>
      refine Or.inr (Or.inr fun hsame => ?_)
      obtain ⟨_,_,u,us,hus,hu,-⟩ := first_copy hsound hafter.handshakes hlater
        (hsame ▸ hafter.ids) (hafter.copies.trans hr)
      rw [hturns,List.filterMap_cons_some hretired,hus,List.filterMap_cons_some hu] at honce
      cases honce
  · intro hdraw
    have hquiet := later_copies_quiet hlater hafter hdraw
    have hno : ∀ f : Turn → Option ℤ, f ⟨c,none,none,first.drawn⟩ = none →
        (turnsOf c ts').filterMap f = [] :=
      fun f hf => List.filterMap_eq_nil_iff.mpr fun u hu => (hquiet u hu).symm ▸ hf
    constructor
    · rw [hturns,List.filterMap_cons_some hretired,hno _ rfl]
    · refine ⟨first.drawn,hafter.named,?_,fun u hu => ?_⟩
      · rw [hturns,List.filterMap_cons_some hcreated,hno _ rfl]
      · rw [hturns] at hu
        rw [hquiet u hu]

def sync (c S : ℤ) : Msg := ⟨c,S,.handshake,4,0,Buffer.copyIn (encodeInt 2)⟩

theorem rehandshake_replaces_once_two_copies : ∃ (st : FtpServer) (ts : List Turn),
    st.turns [⟨sync 1 3,4⟩,⟨sync 2 nullServerId,5⟩,⟨sync 1 3,0⟩] = some ts ∧
      ReplacesOnce 1 3 ts := by
  have hrun : (system.run (create true) [⟨sync 1 nullServerId,3⟩]).any (fun st =>
      decide (st.clientIds 1 = some 3) &&
        (st.turns [⟨sync 1 3,4⟩,⟨sync 2 nullServerId,5⟩,⟨sync 1 3,0⟩]).isSome) = true := by
    decide +kernel
  obtain ⟨st,hst,hend⟩ := (Option.any_eq_true _ _).mp hrun
  simp only [Bool.and_eq_true,decide_eq_true_eq] at hend
  obtain ⟨ts,hts⟩ := Option.isSome_iff_exists.mp hend.2
  have hfirst : copiesOf 1 [⟨sync 1 3,4⟩,⟨sync 2 nullServerId,5⟩,⟨sync 1 3,0⟩] =
      ⟨sync 1 3,4⟩ :: [⟨sync 1 3,0⟩] := rfl
  exact ⟨st,ts,hts,(rehandshake_replaces_once_iff (system.reachable_of_run ⟨true,rfl⟩ hst) hend.1
    (by simp [IsHandshakeOf,sync]) hfirst hts).mpr (Or.inr (Or.inr (by decide)))⟩

-- the thread that replaces 3 draws 3 again, and the second copy retires it too
theorem redrawn_id_is_retired_again : ¬∀ (st : FtpServer) c S arrivals ts, system.Reachable st →
    st.clientIds c = some S → IsHandshakeOf c S arrivals → copiesOf c arrivals ≠ [] →
    st.turns arrivals = some ts → ReplacesOnce c S ts := by
  intro h
  have hrun : (system.run (create true) [⟨sync 1 nullServerId,3⟩]).any (fun st =>
      decide (st.clientIds 1 = some 3) && decide ((st.turns [⟨sync 1 3,3⟩,⟨sync 1 3,4⟩]).map
        (fun ts => (turnsOf 1 ts).filterMap Turn.retired) = some [3,3])) = true := by
    decide +kernel
  obtain ⟨st,hst,hend⟩ := (Option.any_eq_true _ _).mp hrun
  simp only [Bool.and_eq_true,decide_eq_true_eq] at hend
  obtain ⟨ts,hts,htwice⟩ := Option.map_eq_some_iff.mp hend.2
  have honce := (h st 1 3 _ ts (system.reachable_of_run ⟨true,rfl⟩ hst) hend.1
    (by simp [IsHandshakeOf,sync]) (by decide +kernel) hts).retired
  rw [htwice] at honce
  cases honce

end FtpServer
end FtpOverUdp
