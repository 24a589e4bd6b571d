import FtpOverUdp.UdpServer.FtpServer
import FtpOverUdp.Library.System

namespace FtpOverUdp

open Library

namespace FtpServer

structure Arrival where
  message : Msg
  drawn : ℤ

def system : System FtpServer Arrival where
  init st := ∃ areServerIdsReused, st = create areServerIdsReused
  step st e := st.handle e.drawn e.message

structure Consistent (st : FtpServer) : Prop where
  distinct : ∀ c c' S, st.clientIds c = some S → st.clientIds c' = some S → c = c'
  locks : ∀ c S, st.clientIds c = some S → (st.threadLocks S).isSome
  messages : ∀ c S, st.clientIds c = some S → (st.messages S).isSome
  active : ∀ c S, st.clientIds c = some S → st.isThreadActive S = some true

def CreatesThread (st : FtpServer) (message : Msg) : Prop :=
  st.clientIds message.clientId = none ∨
    message.type = .handshake ∧ st.clientIds message.clientId = some message.serverId

-- the tables as `createServerThread` finds them while `getServerId` handles the message
def enteredWith (st : FtpServer) (message : Msg) : Option FtpServer :=
  match st.clientIds message.clientId with
  | none => some st
  | some currentServerId =>
    if message.type = .handshake ∧ message.serverId = currentServerId then
      some (((st.deactivate message.clientId currentServerId).dispatchMessage currentServerId
        message).releaseId currentServerId)
    else none

def DrawsUnusedId (st : FtpServer) (e : Arrival) : Prop :=
  st.CreatesThread e.message → st.isThreadActive e.drawn = none

-- what holds of every client but `c`, whose session is being replaced
structure Sound (known : ℤ → Prop) (st : FtpServer) : Prop where
  distinct : ∀ c c' S, known c → known c' → st.clientIds c = some S →
    st.clientIds c' = some S → c = c'
  locks : ∀ c S, known c → st.clientIds c = some S → (st.threadLocks S).isSome
  slots : ∀ S, (st.threadLocks S).isSome → (st.messages S).isSome ∧ (st.isThreadActive S).isSome
  owned : ∀ S, st.isThreadActive S = some true → ∃ c, known c ∧ st.clientIds c = some S
  range : ∀ S, (st.threadLocks S).isSome → 0 ≤ S ∧ S < 256

def Live (known : ℤ → Prop) (st : FtpServer) : Prop :=
  ∀ c S, known c → st.clientIds c = some S → st.isThreadActive S = some true

variable {st st' entered : FtpServer} {known : ℤ → Prop} {c drawn : ℤ} {message : Msg}

structure Joins (c drawn : ℤ) (st st' : FtpServer) : Prop where
  lower : 0 ≤ drawn
  upper : drawn < 256
  free : st.threadLocks drawn = none
  reused : st'.areServerIdsReused = st.areServerIdsReused
  ids : ∀ c', st'.clientIds c' = if c' = c then some drawn else st.clientIds c'
  messages : st'.messages = st.messages.insert drawn emptyMsg
  active : st'.isThreadActive = st.isThreadActive.insert drawn true
  locks : ∀ S, st'.threadLocks S =
    if S = drawn then some (AsyncLock.create true drawn) else st.threadLocks S

theorem createServerThread_spec (h : st.createServerThread drawn = some st') :
    0 ≤ drawn ∧ drawn < 256 ∧ st.threadLocks drawn = none ∧ st' = { st with
      messages := st.messages.insert drawn emptyMsg
      isThreadActive := st.isThreadActive.insert drawn true
      threadLocks := st.threadLocks.assign drawn (AsyncLock.create true drawn) } := by
  simp only [createServerThread] at h
  split_ifs at h with hfree
  obtain rfl := Option.some.inj h
  exact ⟨hfree.1,hfree.2.1,hfree.2.2,by rw [Table.insert_of_none _ _ hfree.2.2]⟩

theorem joins_respawn (h : st.respawn c drawn = some st') : Joins c drawn st st' := by
  obtain ⟨created,hs,rfl⟩ := Option.map_eq_some_iff.mp h
  obtain ⟨hlo,hhi,hfree,rfl⟩ := createServerThread_spec hs
  exact ⟨hlo,hhi,hfree,rfl,fun _ => Table.assign_apply ..,rfl,rfl,fun _ => Table.assign_apply ..⟩

theorem joins_registerClient (h : st.registerClient c drawn = some st')
    (hnew : st.clientIds c = none) : Joins c drawn st st' := by
  obtain ⟨created,hs,rfl⟩ := Option.map_eq_some_iff.mp h
  obtain ⟨hlo,hhi,hfree,rfl⟩ := createServerThread_spec hs
  refine ⟨hlo,hhi,hfree,rfl,fun c' => ?_,rfl,rfl,fun _ => Table.assign_apply ..⟩
  exact (congrFun (Table.insert_of_none st.clientIds drawn hnew) c').trans (Table.assign_apply ..)

section Joins

variable (hj : Joins c drawn st st') (h : st.Sound (· ≠ c))
include hj h

theorem Joins.other_ne {c' S : ℤ} (hc : c' ≠ c) (hS : st.clientIds c' = some S) : S ≠ drawn := by
  intro he
  have := h.locks c' S hc hS
  rw [he,hj.free] at this
  cases this

theorem Joins.distinct (a b S : ℤ) (ha : st'.clientIds a = some S) (hb : st'.clientIds b = some S) :
    a = b := by
  rw [hj.ids] at ha hb
  split_ifs at ha hb with hac hbc hbc
  · exact hac.trans hbc.symm
  · exact absurd (Option.some.inj ha).symm (hj.other_ne h hbc hb)
  · exact absurd (Option.some.inj hb).symm (hj.other_ne h hac ha)
  · exact h.distinct a b S hac hbc ha hb

theorem Joins.locks_isSome (a S : ℤ) (ha : st'.clientIds a = some S) :
    (st'.threadLocks S).isSome := by
  rw [hj.ids] at ha
  rw [hj.locks]
  by_cases hS : S = drawn
  · rw [if_pos hS]
    rfl
  · rw [if_neg hS]
    split_ifs at ha with hac
    · exact absurd (Option.some.inj ha).symm hS
    · exact h.locks a S hac ha

theorem Joins.slots (S : ℤ) (hS : (st'.threadLocks S).isSome) :
    (st'.messages S).isSome ∧ (st'.isThreadActive S).isSome := by
  rw [hj.messages,hj.active]
  by_cases he : S = drawn
  · subst he
    simp
  · rw [hj.locks,if_neg he] at hS
    rw [Table.insert_of_ne _ _ he,Table.insert_of_ne _ _ he]
    exact h.slots S hS

theorem Joins.owned (S : ℤ) (hS : st'.isThreadActive S = some true) :
    ∃ a, st'.clientIds a = some S := by
  by_cases he : S = drawn
  · exact ⟨c,by rw [hj.ids,if_pos rfl,he]⟩
  · rw [hj.active,Table.insert_of_ne _ _ he] at hS
    obtain ⟨a,hac,ha⟩ := h.owned S hS
    exact ⟨a,by rw [hj.ids,if_neg hac,ha]⟩

theorem Joins.sound : st'.Sound (fun _ => True) := by
  refine ⟨fun a b S _ _ => hj.distinct h a b S,fun a S _ => hj.locks_isSome h a S,hj.slots h,
    fun S hS => ?_,fun S hS => ?_⟩
  · obtain ⟨a,ha⟩ := hj.owned h S hS
    exact ⟨a,trivial,ha⟩
  · rw [hj.locks] at hS
    split_ifs at hS with he
    · exact he ▸ ⟨hj.lower,hj.upper⟩
    · exact h.range S hS

-- a stale entry of `isThreadActive` is kept by `insert`, and it is never `true`
theorem Joins.live_iff (hlive : st.Live (· ≠ c)) :
    st'.Live (fun _ => True) ↔ st.isThreadActive drawn = none := by
  constructor
  · intro hall
    have hnew := hall c drawn trivial (by rw [hj.ids,if_pos rfl])
    cases hb : st.isThreadActive drawn with
    | none => rfl
    | some b =>
      rw [hj.active,Table.insert_of_some _ _ hb,hb] at hnew
      obtain ⟨a,hac,ha⟩ := h.owned drawn (hb.trans hnew)
      exact absurd rfl (hj.other_ne h hac ha)
  · intro hnone a S _ ha
    rw [hj.ids] at ha
    rw [hj.active,Table.insert_of_none _ _ hnone]
    split_ifs at ha with hac
    · rw [Option.some.inj ha,Table.assign_self]
    · rw [Table.assign_of_ne _ _ (hj.other_ne h hac ha)]
      exact hlive a S hac ha

end Joins

theorem Sound.restrict (h : st.Sound (fun _ => True))
    (hold : ∀ S, st.clientIds c = some S → st.isThreadActive S ≠ some true) : st.Sound (· ≠ c) := by
  refine ⟨fun a b S _ _ => h.distinct a b S trivial trivial,fun a S _ => h.locks a S trivial,
    h.slots,fun S hS => ?_,h.range⟩
  obtain ⟨a,_,ha⟩ := h.owned S hS
  exact ⟨a,fun hac => hold S (hac ▸ ha) hS,ha⟩

theorem dispatchMessage_tables (st : FtpServer) (serverId : ℤ) (message : Msg) :
    (st.dispatchMessage serverId message).clientIds = st.clientIds ∧
      (st.dispatchMessage serverId message).isThreadActive = st.isThreadActive ∧
      (∀ S, ((st.dispatchMessage serverId message).threadLocks S).isSome =
        (st.threadLocks S).isSome) ∧
      ∀ S, (st.messages S).isSome → ((st.dispatchMessage serverId message).messages S).isSome := by
  unfold dispatchMessage
  split_ifs
  · exact ⟨rfl,rfl,fun _ => rfl,fun _ => id⟩
  · refine ⟨rfl,rfl,fun _ => Table.modify_isSome ..,fun S hS => ?_⟩
    dsimp only
    rw [Table.assign_apply]
    split_ifs
    · rfl
    · exact hS

theorem Sound.dispatchMessage (h : st.Sound known) (serverId : ℤ) (message : Msg) :
    (st.dispatchMessage serverId message).Sound known := by
  obtain ⟨hids,hactive,hlocks,hmsg⟩ := dispatchMessage_tables st serverId message
  refine ⟨hids ▸ h.distinct,fun a S ha hS => ?_,fun S hS => ?_,?_,fun S hS => ?_⟩
  · rw [hlocks]
    exact h.locks a S ha (hids ▸ hS)
  · rw [hlocks] at hS
    rw [hactive]
    exact ⟨hmsg S (h.slots S hS).1,(h.slots S hS).2⟩
  · rw [hids,hactive]
    exact h.owned
  · rw [hlocks] at hS
    exact h.range S hS

theorem Live.dispatchMessage (serverId : ℤ) (message : Msg) :
    (st.dispatchMessage serverId message).Live known ↔ st.Live known := by
  obtain ⟨hids,hactive,_,_⟩ := dispatchMessage_tables st serverId message
  rw [Live,Live,hids,hactive]

theorem deactivate_active {currentServerId S : ℤ} :
    (st.deactivate c currentServerId).isThreadActive S =
      if S = currentServerId then some false else st.isThreadActive S := Table.assign_apply ..

theorem deactivate_sound (h : st.Sound (fun _ => True)) {currentServerId : ℤ} :
    (st.deactivate c currentServerId).Sound (fun _ => True) := by
  refine ⟨h.distinct,h.locks,fun S hS => ⟨(h.slots S hS).1,?_⟩,fun S hS => ?_,h.range⟩
  · rw [deactivate_active]
    split_ifs
    · rfl
    · exact (h.slots S hS).2
  · rw [deactivate_active] at hS
    split_ifs at hS
    · cases hS
    · exact h.owned S hS

theorem deactivate_inactive {currentServerId S : ℤ} (hc : st.clientIds c = some currentServerId)
    (hS : (st.deactivate c currentServerId).clientIds c = some S) :
    (st.deactivate c currentServerId).isThreadActive S ≠ some true := by
  rw [deactivate_active,if_pos (Option.some.inj (hS.symm.trans hc))]
  simp

theorem deactivate_live (h : st.Sound (fun _ => True)) (hlive : st.Live (fun _ => True))
    {currentServerId : ℤ} (hc : st.clientIds c = some currentServerId) :
    (st.deactivate c currentServerId).Live (· ≠ c) := by
  intro a S hac ha
  have hne : S ≠ currentServerId := fun he => hac (h.distinct a c S trivial trivial ha (he ▸ hc))
  exact (Table.assign_of_ne _ _ hne).trans (hlive a S trivial ha)

theorem releaseId_sound (h : st.Sound (· ≠ c)) {S : ℤ} (hS : ∀ a, a ≠ c → st.clientIds a ≠ some S) :
    (st.releaseId S).Sound (· ≠ c) := by
  unfold releaseId
  split_ifs
  · refine ⟨h.distinct,fun a T ha hT => ?_,fun T hT => ?_,h.owned,fun T hT => ?_⟩
    · have hne : T ≠ S := fun he => hS a ha (he ▸ hT)
      exact (congrArg _ (Table.erase_of_ne _ hne)).trans (h.locks a T ha hT)
    all_goals
      dsimp only at hT
      have hne : T ≠ S := by
        rintro rfl
        rw [Table.erase_self] at hT
        cases hT
      rw [Table.erase_of_ne _ hne] at hT
    · exact ⟨(congrArg _ (Table.erase_of_ne _ hne)).trans (h.slots T hT).1,(h.slots T hT).2⟩
    · exact h.range T hT
  · exact h

theorem releaseId_tables (st : FtpServer) (S : ℤ) :
    (st.releaseId S).clientIds = st.clientIds ∧
      (st.releaseId S).isThreadActive = st.isThreadActive := by
  unfold releaseId
  split_ifs <;> exact ⟨rfl,rfl⟩

theorem dispatchMessage_reused (st : FtpServer) (serverId : ℤ) (message : Msg) :
    (st.dispatchMessage serverId message).areServerIdsReused = st.areServerIdsReused := by
  unfold dispatchMessage
  split_ifs <;> rfl

theorem releaseId_reused (st : FtpServer) (S : ℤ) :
    (st.releaseId S).areServerIdsReused = st.areServerIdsReused := by
  unfold releaseId
  split_ifs <;> rfl

structure Retired (c currentServerId : ℤ) (st st' : FtpServer) : Prop where
  sound : st'.Sound (· ≠ c)
  live : st'.Live (· ≠ c)
  active : st'.isThreadActive = st.isThreadActive.assign currentServerId false

theorem retire_sound (h : st.Sound (fun _ => True)) {currentServerId : ℤ}
    (hc : st.clientIds c = some currentServerId) (message : Msg) :
    (((st.deactivate c currentServerId).dispatchMessage currentServerId message).releaseId
      currentServerId).Sound (· ≠ c) := by
  have hids := (dispatchMessage_tables (st.deactivate c currentServerId) currentServerId message).1
  have hsound := (deactivate_sound h).restrict (c := c) fun S => deactivate_inactive hc
  refine releaseId_sound (hsound.dispatchMessage ..) fun a hac ha => ?_
  rw [hids] at ha
  exact hac (h.distinct a c _ trivial trivial ha hc)

theorem retire (h : st.Sound (fun _ => True)) (hlive : st.Live (fun _ => True))
    {currentServerId : ℤ} (hc : st.clientIds c = some currentServerId) (message : Msg) :
    st.Retired c currentServerId (((st.deactivate c currentServerId).dispatchMessage
      currentServerId message).releaseId currentServerId) := by
  obtain ⟨_,hactive,_,_⟩ :=
    dispatchMessage_tables (st.deactivate c currentServerId) currentServerId message
  obtain ⟨hids',hactive'⟩ := releaseId_tables
    ((st.deactivate c currentServerId).dispatchMessage currentServerId message) currentServerId
  refine ⟨retire_sound h hc message,?_,?_⟩
  · have hd := (Live.dispatchMessage currentServerId message).mpr (deactivate_live h hlive hc)
    rw [Live,hids',hactive']
    exact hd
  · rw [hactive',hactive]
    rfl

theorem Consistent.live (h : st.Consistent) : st.Live (fun _ => True) :=
  fun a S _ => h.active a S

theorem consistent_iff (h : st.Sound (fun _ => True)) :
    st.Consistent ↔ st.Live (fun _ => True) :=
  ⟨Consistent.live,fun hlive => ⟨fun a b S => h.distinct a b S trivial trivial,
    fun a S => h.locks a S trivial,
    fun a S ha => (h.slots S (h.locks a S trivial ha)).1,fun a S => hlive a S trivial⟩⟩

def Holds (st : FtpServer) : Prop := st.Sound (fun _ => True) ∧ st.Live (fun _ => True)

theorem enteredWith_cases (he : st.enteredWith message = some entered) :
    st.clientIds message.clientId = none ∧ entered = st ∨
      ∃ currentServerId, st.clientIds message.clientId = some currentServerId ∧
        message.type = .handshake ∧ message.serverId = currentServerId ∧
        entered = ((st.deactivate message.clientId currentServerId).dispatchMessage currentServerId
          message).releaseId currentServerId := by
  unfold enteredWith at he
  cases hcur : st.clientIds message.clientId with
  | none =>
    rw [hcur] at he
    exact Or.inl ⟨rfl,(Option.some.inj he).symm⟩
  | some currentServerId =>
    rw [hcur] at he
    dsimp only at he
    split_ifs at he with hre
    exact Or.inr ⟨currentServerId,rfl,hre.1,hre.2,(Option.some.inj he).symm⟩

theorem enteredWith_createsThread (he : st.enteredWith message = some entered) :
    st.CreatesThread message := by
  rcases enteredWith_cases he with ⟨hnone,-⟩ | ⟨currentServerId,hcur,htype,hid,-⟩
  · exact Or.inl hnone
  · exact Or.inr ⟨htype,hid ▸ hcur⟩

theorem enteredWith_sound (h : st.Sound (fun _ => True))
    (he : st.enteredWith message = some entered) : entered.Sound (· ≠ message.clientId) := by
  rcases enteredWith_cases he with ⟨hnone,rfl⟩ | ⟨currentServerId,hcur,-,-,rfl⟩
  · exact h.restrict fun S hS => by simp [hnone] at hS
  · exact retire_sound h hcur message

theorem enteredWith_live (h : st.Holds) (he : st.enteredWith message = some entered) :
    entered.Live (· ≠ message.clientId) := by
  rcases enteredWith_cases he with ⟨-,rfl⟩ | ⟨currentServerId,hcur,-,-,rfl⟩
  · exact fun a S _ => h.2 a S trivial
  · exact (retire h.1 h.2 hcur message).live

-- the flag of the thread that is retired was set, and is cleared
theorem enteredWith_active (h : st.Holds) (he : st.enteredWith message = some entered) (S : ℤ) :
    entered.isThreadActive S = none ↔ st.isThreadActive S = none := by
  rcases enteredWith_cases he with ⟨-,rfl⟩ | ⟨currentServerId,hcur,-,-,rfl⟩
  · exact Iff.rfl
  · have hactive : st.isThreadActive currentServerId = some true := h.2 _ _ trivial hcur
    rw [(retire h.1 h.2 hcur message).active,Table.assign_apply]
    split_ifs with hS
    · exact iff_of_false (by simp) (by simp [hS,hactive])
    · exact Iff.rfl

theorem getServerId_cases {target : ℤ} (hs : st.getServerId drawn message = some (st',target)) :
    (∃ entered, st.enteredWith message = some entered ∧
      Joins message.clientId drawn entered st') ∨ ¬st.CreatesThread message ∧ st' = st := by
  unfold getServerId at hs
  unfold enteredWith
  cases hcur : st.clientIds message.clientId with
  | none =>
    rw [hcur] at hs
    obtain ⟨created,hr,he⟩ := Option.map_eq_some_iff.mp hs
    obtain ⟨rfl,-⟩ := Prod.mk.inj he
    exact Or.inl ⟨st,rfl,joins_registerClient hr hcur⟩
  | some currentServerId =>
    rw [hcur] at hs
    dsimp only at hs ⊢
    split_ifs at hs with hre
    · obtain ⟨created,hr,he⟩ := Option.map_eq_some_iff.mp hs
      obtain ⟨rfl,-⟩ := Prod.mk.inj he
      rw [if_pos hre]
      exact Or.inl ⟨_,rfl,joins_respawn hr⟩
    · obtain ⟨rfl,-⟩ := Prod.mk.inj (Option.some.inj hs)
      refine Or.inr ⟨fun hcreates => ?_,rfl⟩
      rcases hcreates with hnone | ⟨htype,hid⟩
      · exact Option.some_ne_none _ (hcur.symm.trans hnone)
      · exact hre ⟨htype,Option.some.inj (hid.symm.trans hcur)⟩

theorem getServerId_sound {drawn target : ℤ} (h : st.Sound (fun _ => True))
    (hs : st.getServerId drawn message = some (st',target)) : st'.Sound (fun _ => True) := by
  rcases getServerId_cases hs with ⟨entered,he,hj⟩ | ⟨-,rfl⟩
  · exact hj.sound (enteredWith_sound h he)
  · exact h

theorem handle_sound {e : Arrival} (h : st.Sound (fun _ => True))
    (hs : st.handle e.drawn e.message = some st') : st'.Sound (fun _ => True) := by
  obtain ⟨⟨mid,target⟩,hg,rfl⟩ := Option.map_eq_some_iff.mp hs
  exact (getServerId_sound h hg).dispatchMessage target e.message

theorem getServerId_iff {drawn target : ℤ} (h : st.Holds)
    (hs : st.getServerId drawn message = some (st',target)) :
    st'.Live (fun _ => True) ↔ st.DrawsUnusedId ⟨message,drawn⟩ := by
  rcases getServerId_cases hs with ⟨entered,he,hj⟩ | ⟨hnot,rfl⟩
  · calc st'.Live (fun _ => True) ↔ entered.isThreadActive drawn = none :=
        hj.live_iff (enteredWith_sound h.1 he) (enteredWith_live h he)
      _ ↔ st.isThreadActive drawn = none := enteredWith_active h he drawn
      _ ↔ st.DrawsUnusedId ⟨message,drawn⟩ :=
        ⟨fun hnone _ => hnone,fun hdraw => hdraw (enteredWith_createsThread he)⟩
  · exact iff_of_true h.2 fun hcreates => absurd hcreates hnot

theorem handle_iff (h : st.Holds) {e : Arrival} (hs : st.handle e.drawn e.message = some st') :
    (st'.Consistent ↔ st.DrawsUnusedId e) ∧ (st'.Consistent → st'.Holds) := by
  have hsound' := handle_sound h.1 hs
  obtain ⟨⟨mid,target⟩,hg,rfl⟩ := Option.map_eq_some_iff.mp hs
  exact ⟨(consistent_iff hsound').trans ((Live.dispatchMessage ..).trans (getServerId_iff h hg)),
    fun hcons => ⟨hsound',hcons.live⟩⟩

theorem create_holds (areServerIdsReused : Bool) : (create areServerIdsReused).Holds := by
  refine ⟨⟨?_,?_,?_,?_,?_⟩,?_⟩ <;> simp [create,Live]

theorem tables_consistent_iff (areServerIdsReused : Bool) (arrivals : List Arrival) :
    system.Along (fun _ _ st' => st'.Consistent) (create areServerIdsReused) arrivals ↔
      system.Along (fun st e _ => st.DrawsUnusedId e) (create areServerIdsReused) arrivals :=
  system.along_iff_of_step (P := fun _ _ st' => st'.Consistent) (fun _ _ _ h hs => handle_iff h hs)
    (create_holds areServerIdsReused) arrivals

-- the second HANDSHAKE releases id 3 and draws it again, and `insert` keeps the cleared flag
theorem recycled_id_stays_inactive : ¬∀ areServerIdsReused arrivals,
    system.Along (fun _ _ st' => st'.Consistent) (create areServerIdsReused) arrivals := by
  intro h
  let sync (serverId : ℤ) : Msg := ⟨1,serverId,.handshake,4,0,Buffer.copyIn (encodeInt 1)⟩
  let arrivals : List Arrival := [⟨sync nullServerId,3⟩,⟨sync 3,3⟩]
  have hrun : (system.run (create true) arrivals).any (fun st =>
      decide (st.clientIds 1 = some 3) && decide (st.isThreadActive 3 = some false)) = true := by
    decide
  obtain ⟨st,hst,hend⟩ := (Option.any_eq_true _ _).mp hrun
  simp only [Bool.and_eq_true,decide_eq_true_eq] at hend
  have hcons : st.Consistent := system.along_final ⟨by simp [create],by simp [create],
    by simp [create],by simp [create]⟩ (h true arrivals) hst
  have hactive := hcons.active 1 3 hend.1
  rw [hend.2] at hactive
  cases hactive

end FtpServer
end FtpOverUdp
