import FtpOverUdp.Library.TableKeys
import FtpOverUdp.UdpServer.SessionTables

namespace FtpOverUdp

open Library

namespace FtpServer

def Owned (known : ℤ → Prop) (st : FtpServer) : Prop :=
  ∀ S, (st.threadLocks S).isSome → ∃ c, known c ∧ st.clientIds c = some S

def idRange : Set ℤ := Set.Ico 0 256

variable {st st' entered : FtpServer} {known : ℤ → Prop} {c drawn : ℤ} {message : Msg}

theorem getServerId_isSome_iff :
    (st.getServerId drawn message).isSome ↔
      ∀ entered, st.enteredWith message = some entered →
        (entered.createServerThread drawn).isSome := by
  unfold getServerId enteredWith
  cases st.clientIds message.clientId with
  | none => simp [registerClient]
  | some currentServerId =>
    dsimp only
    split_ifs
    · simp [restartSession,respawn]
    · simp

theorem Owned.dispatchMessage (h : st.Owned known) (serverId : ℤ) :
    (st.dispatchMessage serverId message).Owned known := by
  obtain ⟨hids,-,hlocks,-⟩ := dispatchMessage_tables st serverId message
  intro S hS
  rw [hlocks] at hS
  rw [hids]
  exact h S hS

theorem releaseId_locks {S T : ℤ} (hreused : st.areServerIdsReused = true)
    (hT : ((st.releaseId S).threadLocks T).isSome) : T ≠ S ∧ (st.threadLocks T).isSome := by
  rw [releaseId,if_pos hreused] at hT
  obtain ⟨lock,hlock⟩ := Option.isSome_iff_exists.mp hT
  obtain ⟨hne,hlock⟩ := (Table.erase_eq_some_iff _).mp hlock
  exact ⟨hne,Option.isSome_iff_exists.mpr ⟨lock,hlock⟩⟩

theorem Owned.releaseId (h : st.Owned (fun _ => True)) (hreused : st.areServerIdsReused = true)
    {S : ℤ} (hc : st.clientIds c = some S) : (st.releaseId S).Owned (· ≠ c) := by
  intro T hT
  obtain ⟨hne,hT⟩ := releaseId_locks hreused hT
  obtain ⟨a,-,ha⟩ := h T hT
  refine ⟨a,?_,?_⟩
  · rintro rfl
    exact hne (Option.some.inj (ha.symm.trans hc))
  · rw [(releaseId_tables st S).1]
    exact ha

theorem Joins.all_owned (hj : Joins c drawn st st') (h : st.Owned (· ≠ c)) :
    st'.Owned (fun _ => True) := by
  intro S hS
  by_cases he : S = drawn
  · exact ⟨c,trivial,by rw [hj.ids,if_pos rfl,he]⟩
  · rw [hj.locks,if_neg he] at hS
    obtain ⟨a,hac,ha⟩ := h S hS
    exact ⟨a,trivial,by rw [hj.ids,if_neg hac,ha]⟩

structure Counted (st : FtpServer) : Prop where
  sound : st.Sound (fun _ => True)
  owned : st.Owned (fun _ => True)
  reused : st.areServerIdsReused = true
  range : st.clientIds.keys ⊆ idRange

structure CountedWithout (c : ℤ) (st entered : FtpServer) : Prop where
  sound : entered.Sound (· ≠ c)
  owned : entered.Owned (· ≠ c)
  reused : entered.areServerIdsReused = true
  ids : entered.clientIds = st.clientIds

theorem Counted.without (h : st.Counted) (he : st.enteredWith message = some entered) :
    CountedWithout message.clientId st entered := by
  have hsound := enteredWith_sound h.sound he
  rcases enteredWith_cases he with ⟨hnone,rfl⟩ | ⟨currentServerId,hcur,-,-,rfl⟩
  · refine ⟨hsound,fun S hS => ?_,h.reused,rfl⟩
    obtain ⟨a,-,ha⟩ := h.owned S hS
    refine ⟨a,?_,ha⟩
    rintro rfl
    exact Option.some_ne_none S (ha.symm.trans hnone)
  · have hids := (dispatchMessage_tables
      (st.deactivate message.clientId currentServerId) currentServerId message).1
    have hreused := (dispatchMessage_reused
      (st.deactivate message.clientId currentServerId) currentServerId message).trans h.reused
    have howned : (st.deactivate message.clientId currentServerId).Owned (fun _ => True) := h.owned
    refine ⟨hsound,?_,(releaseId_reused ..).trans hreused,?_⟩
    · apply (howned.dispatchMessage currentServerId).releaseId hreused
      rw [hids]
      exact hcur
    · rw [(releaseId_tables _ _).1,hids]
      rfl

theorem CountedWithout.joined (h : CountedWithout c st entered) (hc : c ∈ idRange)
    (hrange : st.clientIds.keys ⊆ idRange) (hj : Joins c drawn entered st') : st'.Counted := by
  refine ⟨hj.sound h.sound,hj.all_owned h.owned,hj.reused.trans h.reused,fun a ha => ?_⟩
  obtain ⟨S,hS⟩ := Table.mem_keys.mp ha
  rw [hj.ids,h.ids] at hS
  split_ifs at hS with hac
  · exact hac ▸ hc
  · exact hrange (Table.mem_keys.mpr ⟨S,hS⟩)

theorem Counted.dispatchMessage (h : st.Counted) (serverId : ℤ) (message : Msg) :
    (st.dispatchMessage serverId message).Counted := by
  refine ⟨h.sound.dispatchMessage serverId message,h.owned.dispatchMessage serverId,
    (dispatchMessage_reused ..).trans h.reused,?_⟩
  rw [(dispatchMessage_tables st serverId message).1]
  exact h.range

theorem Counted.handle {e : Arrival} (h : st.Counted) (hc : e.message.clientId ∈ idRange)
    (hs : st.handle e.drawn e.message = some st') : st'.Counted := by
  obtain ⟨⟨mid,target⟩,hg,rfl⟩ := Option.map_eq_some_iff.mp hs
  apply Counted.dispatchMessage
  rcases getServerId_cases hg with ⟨entered,he,hj⟩ | ⟨-,rfl⟩
  · exact (h.without he).joined hc h.range hj
  · exact h

theorem create_counted : (create true).Counted :=
  ⟨(create_holds true).1,nofun,rfl,fun a ha => by cases ha⟩

theorem Counted.encard_eq (h : st.Counted) :
    st.threadLocks.keys.encard = st.clientIds.keys.encard := by
  refine Table.encard_keys_eq (fun a S => h.sound.locks a S trivial)
    (fun a b S => h.sound.distinct a b S trivial trivial) fun S hS => ?_
  obtain ⟨a,-,ha⟩ := h.owned S hS
  exact ⟨a,ha⟩

theorem encard_idRange : idRange.encard = 256 := Table.encard_Ico 256

-- the other clients' ids are all that is taken, and `c` is one of 256 clients
theorem CountedWithout.exists_free (h : CountedWithout c st entered) (hc : c ∈ idRange)
    (hrange : st.clientIds.keys ⊆ idRange) : ∃ S ∈ idRange, entered.threadLocks S = none := by
  have hcount : entered.threadLocks.keys.encard = (st.clientIds.erase c).keys.encard := by
    rw [← h.ids]
    refine Table.encard_keys_eq (fun a S hS => ?_) (fun a b S ha hb => ?_) fun S hS => ?_
    · obtain ⟨hac,hS⟩ := (Table.erase_eq_some_iff _).mp hS
      exact h.sound.locks a S hac hS
    · obtain ⟨hac,ha⟩ := (Table.erase_eq_some_iff _).mp ha
      obtain ⟨hbc,hb⟩ := (Table.erase_eq_some_iff _).mp hb
      exact h.sound.distinct a b S hac hbc ha hb
    · obtain ⟨a,hac,ha⟩ := h.owned S hS
      exact ⟨a,(Table.erase_eq_some_iff _).mpr ⟨hac,ha⟩⟩
  have hothers : (st.clientIds.erase c).keys ⊂ idRange := by
    refine ⟨fun a ha => ?_,fun hall => ?_⟩
    · obtain ⟨S,hS⟩ := Table.mem_keys.mp ha
      exact hrange (Table.mem_keys.mpr ⟨S,((Table.erase_eq_some_iff _).mp hS).2⟩)
    · obtain ⟨S,hS⟩ := Table.mem_keys.mp (hall hc)
      exact ((Table.erase_eq_some_iff _).mp hS).1 rfl
  apply Table.exists_free_of_encard_lt
  rw [hcount]
  exact ((Set.finite_Ico _ _).subset hothers.1).encard_lt_encard hothers

theorem Counted.handle_isSome (h : st.Counted) (hc : message.clientId ∈ idRange) :
    ∃ drawn ∈ idRange, (st.handle drawn message).isSome := by
  have hdraw : ∃ drawn ∈ idRange, ∀ entered, st.enteredWith message = some entered →
      (entered.createServerThread drawn).isSome := by
    cases he : st.enteredWith message with
    | none => exact ⟨0,by simp [idRange],nofun⟩
    | some entered =>
      obtain ⟨S,hS,hfree⟩ := (h.without he).exists_free hc h.range
      refine ⟨S,hS,fun entered' he' => ?_⟩
      rw [← Option.some.inj he',createServerThread,if_pos ⟨hS.1,hS.2,hfree⟩]
      rfl
  obtain ⟨drawn,hrange,hdrawn⟩ := hdraw
  refine ⟨drawn,hrange,?_⟩
  rw [FtpServer.handle,Option.isSome_map]
  exact getServerId_isSome_iff.mpr hdrawn

-- every reachable state with ids reused, and every message that may come next
theorem ids_never_run_out {arrivals : List Arrival}
    (hclients : ∀ e ∈ arrivals, e.message.clientId ∈ idRange)
    (hrun : system.run (create true) arrivals = some st) :
    st.threadLocks.keys.encard = st.clientIds.keys.encard ∧ st.clientIds.keys.encard ≤ 256 ∧
      ∀ message entered, message.clientId ∈ idRange → st.enteredWith message = some entered →
        ∃ S ∈ idRange, entered.threadLocks S = none := by
  have halong : system.Along (fun _ _ st' => st'.Counted) (create true) arrivals :=
    system.along_of_invariant (fun _ _ _ h hc hs => ⟨h.handle hc hs,h.handle hc hs⟩)
      create_counted (system.along_of_forall (fun e he _ _ => hclients e he) _)
  have hcounted : st.Counted := system.along_final create_counted halong hrun
  refine ⟨hcounted.encard_eq,?_,fun message entered hc he => ?_⟩
  · rw [← encard_idRange]
    exact Set.encard_le_encard hcounted.range
  · exact (hcounted.without he).exists_free hc hcounted.range

theorem ids_never_run_out_two_syncs :
    let sync (serverId : ℤ) : Msg := ⟨1,serverId,.handshake,4,0,Buffer.copyIn (encodeInt 1)⟩
    ∃ st, system.run (create true) [⟨sync nullServerId,3⟩,⟨sync 3,3⟩] = some st ∧
      st.threadLocks.keys.encard = st.clientIds.keys.encard ∧ st.clientIds.keys.encard ≤ 256 ∧
      ∀ message entered, message.clientId ∈ idRange → st.enteredWith message = some entered →
        ∃ S ∈ idRange, entered.threadLocks S = none := by
  intro sync
  have hrun : (system.run (create true) [⟨sync nullServerId,3⟩,⟨sync 3,3⟩]).isSome := by decide
  obtain ⟨st,hst⟩ := Option.isSome_iff_exists.mp hrun
  exact ⟨st,hst,ids_never_run_out (by simp [sync,idRange]) hst⟩

end FtpServer
end FtpOverUdp
