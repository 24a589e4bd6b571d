import FtpOverUdp.Library.System
import Mathlib.Logic.Function.Basic
import Mathlib.Data.Int.Notation
import Mathlib.Tactic.SplitIfs

namespace FtpOverUdp

open Library

structure AsyncLock where
  isConsumptionState : Bool
  id : ℤ
  deriving DecidableEq

namespace AsyncLock

def create (startWithConsumption : Bool) (id : ℤ) : AsyncLock := ⟨startWithConsumption,id⟩

-- a wait returns only when its predicate holds; it changes nothing
def waitForConsumption (self : AsyncLock) : Option AsyncLock :=
  if self.isConsumptionState then some self else none

def finalizeConsumption (self : AsyncLock) : AsyncLock := { self with isConsumptionState := false }

def waitForSignalling (self : AsyncLock) : Option AsyncLock :=
  if !self.isConsumptionState then some self else none

def finalizeSignalling (self : AsyncLock) : AsyncLock := { self with isConsumptionState := true }

theorem waitForConsumption_eq_some {self woken : AsyncLock} :
    self.waitForConsumption = some woken ↔ self.isConsumptionState = true ∧ woken = self := by
  unfold waitForConsumption
  cases self.isConsumptionState <;> simp [eq_comm]

theorem waitForSignalling_eq_some {self woken : AsyncLock} :
    self.waitForSignalling = some woken ↔ self.isConsumptionState = false ∧ woken = self := by
  unfold waitForSignalling
  cases self.isConsumptionState <;> simp [eq_comm]

inductive Side
  | producer
  | consumer
  deriving DecidableEq

namespace Side

def other : Side → Side
  | .producer => .consumer
  | .consumer => .producer

def ready : Side → Bool → Bool
  | .producer,isConsumptionState => !isConsumptionState
  | .consumer,isConsumptionState => isConsumptionState

def assigned : Side → Bool
  | .producer => true
  | .consumer => false

@[simp] theorem other_ne (s : Side) : s.other ≠ s := by cases s <;> decide

@[simp] theorem other_other (s : Side) : s.other.other = s := by cases s <;> rfl

theorem eq_or_eq_other (s r : Side) : r = s ∨ r = s.other := by
  cases s <;> cases r <;> decide

end Side

-- the points of one side's loop: `acquire` to `asleep` are inside `wait`, whose mutex only this
-- side takes, and `assign` and `notify` are the two statements of its `finalize` method
inductive Stage
  | acquire
  | evaluate
  | unready
  | asleep
  | assign
  | notify
  deriving DecidableEq

structure Pair where
  isConsumptionState : Bool
  stage : Side → Stage

namespace Pair

def goto (st : Pair) (side : Side) (stage : Stage) : Pair :=
  { st with stage := Function.update st.stage side stage }

def wake (st : Pair) (side : Side) : Pair :=
  if st.stage side = .asleep then st.goto side .acquire else st

def step (st : Pair) (side : Side) : Option Pair :=
  match st.stage side with
  | .acquire => some (st.goto side .evaluate)
  | .evaluate =>
    some (st.goto side (if side.ready st.isConsumptionState then .assign else .unready))
  | .unready => some (st.goto side .asleep)
  | .asleep => none
  | .assign => some (({ st with isConsumptionState := side.assigned } : Pair).goto side .notify)
  | .notify => some ((st.wake side.other).goto side .acquire)

def start (startWithConsumption : Bool) : Pair where
  isConsumptionState := startWithConsumption
  stage
    | .producer => .acquire
    | .consumer => .assign

def system : System Pair Side where
  init st := ∃ startWithConsumption, st = start startWithConsumption
  step := step

def LostWakeUp (st : Pair) (side : Side) : Prop :=
  st.stage side = .asleep ∧ side.ready st.isConsumptionState = true ∧
    st.stage side.other ≠ .notify

def NotifyHeard (st : Pair) (side : Side) : Prop :=
  st.stage side = .notify → st.stage side.other ≠ .unready

def Owed (st : Pair) : Prop :=
  ∀ side, st.stage side = .unready ∨ st.stage side = .asleep →
    side.ready st.isConsumptionState = true → st.stage side.other = .notify

variable {st st' : Pair} {side : Side}

theorem goto_self (st : Pair) (side : Side) (stage : Stage) : (st.goto side stage).stage side = stage :=
  Function.update_self ..

theorem goto_other (st : Pair) (side : Side) (stage : Stage) :
    (st.goto side stage).stage side.other = st.stage side.other :=
  Function.update_of_ne (Side.other_ne side) ..

theorem wake_other (st : Pair) (side : Side) :
    (st.wake side).stage side = if st.stage side = .asleep then .acquire else st.stage side := by
  unfold wake
  split_ifs with h
  · exact goto_self ..
  · rfl

theorem owed_start (startWithConsumption : Bool) : Owed (start startWithConsumption) := by
  intro side h
  cases side <;> simp [start] at h

theorem Owed.of_moved (h : Owed st) (side : Side) (hmove : st.stage side ≠ .notify)
    (hflag : st'.isConsumptionState = st.isConsumptionState)
    (hother : st'.stage side.other = st.stage side.other)
    (hself : st'.stage side = .unready ∨ st'.stage side = .asleep →
      side.ready st.isConsumptionState = true → st.stage side.other = .notify) : Owed st' := by
  intro r hr hready
  rw [hflag] at hready
  rcases Side.eq_or_eq_other side r with rfl | rfl
  · exact hother ▸ hself hr hready
  · rw [hother] at hr
    have hnotify := h side.other hr hready
    rw [Side.other_other] at hnotify
    exact absurd hnotify hmove

theorem Owed.step (h : Owed st) (hheard : NotifyHeard st side) (hs : st.step side = some st') :
    Owed st' := by
  cases hstage : st.stage side with
  | acquire =>
    simp only [Pair.step,hstage,Option.some.injEq] at hs
    refine h.of_moved side (by simp [hstage]) (hs ▸ rfl) (hs ▸ goto_other ..) fun hr => ?_
    simp [← hs,goto_self] at hr
  | evaluate =>
    simp only [Pair.step,hstage,Option.some.injEq] at hs
    refine h.of_moved side (by simp [hstage]) (hs ▸ rfl) (hs ▸ goto_other ..)
      fun hr hready => ?_
    simp [← hs,goto_self,hready] at hr
  | unready =>
    simp only [Pair.step,hstage,Option.some.injEq] at hs
    exact h.of_moved side (by simp [hstage]) (hs ▸ rfl) (hs ▸ goto_other ..)
      fun _ => h side (.inl hstage)
  | asleep => simp [Pair.step,hstage] at hs
  | assign =>
    simp only [Pair.step,hstage,Option.some.injEq] at hs
    intro r hr _
    rcases Side.eq_or_eq_other side r with rfl | rfl
    · simp [← hs,goto_self] at hr
    · rw [Side.other_other,← hs,goto_self]
  | notify =>
    simp only [Pair.step,hstage,Option.some.injEq] at hs
    intro r hr _
    rcases Side.eq_or_eq_other side r with rfl | rfl
    · simp [← hs,goto_self] at hr
    · rw [← hs,goto_other,wake_other] at hr
      have := hheard hstage
      split_ifs at hr with hasleep
      · simp at hr
      · rcases hr with hr | hr
        · exact absurd hr this
        · exact absurd hr hasleep

theorem owed_reachable (h : system.ReachableUnder NotifyHeard st) : Owed st :=
  system.reachableUnder_invariant (fun _ ⟨b,hb⟩ => hb ▸ owed_start b)
    (fun _ _ _ ho hc hs => ho.step hc hs) h

theorem Owed.not_lost (h : Owed st) (side : Side) : ¬LostWakeUp st side :=
  fun ⟨hasleep,hready,hnot⟩ => hnot (h side (.inr hasleep) hready)

theorem step_isSome (h : st.stage side ≠ .asleep) : ∃ st', st.step side = some st' := by
  cases hstage : st.stage side with
  | asleep => exact absurd hstage h
  | acquire | evaluate | unready | assign | notify => simp [step,hstage]

theorem Owed.progress (h : Owed st) : ∃ side st', st.step side = some st' := by
  by_cases hp : st.stage .producer = .asleep
  · by_cases hc : st.stage .consumer = .asleep
    · -- one of the two predicates holds, and its side is owed a notification
      cases hf : st.isConsumptionState with
      | false =>
        have := h .producer (.inr hp) (by simp [Side.ready,hf])
        simp [Side.other,hc] at this
      | true =>
        have := h .consumer (.inr hc) (by simp [Side.ready,hf])
        simp [Side.other,hp] at this
    · exact ⟨.consumer,step_isSome hc⟩
  · exact ⟨.producer,step_isSome hp⟩

theorem heard_pair_never_stalls (h : system.ReachableUnder NotifyHeard st) :
    (∀ side, ¬LostWakeUp st side) ∧ ∃ side st', st.step side = some st' :=
  ⟨(owed_reachable h).not_lost,(owed_reachable h).progress⟩

instance (st : Pair) (side : Side) : Decidable (NotifyHeard st side) :=
  inferInstanceAs (Decidable (_ → _))

theorem heard_pair_never_stalls_handOff : ∃ st, system.ReachableUnder NotifyHeard st ∧
    st.stage .producer = .notify ∧ st.stage .consumer = .asleep ∧
      ∀ side, ¬LostWakeUp st side := by
  let sides : List Side := [.consumer,.consumer,.consumer,.consumer,.consumer,
    .producer,.producer,.producer]
  have hcheck : system.check (fun st side => decide (NotifyHeard st side)) (start true) sides =
      true := by decide
  have hrun : (system.run (start true) sides).any (fun st =>
      decide (st.stage .producer = .notify) && decide (st.stage .consumer = .asleep)) = true := by
    decide
  obtain ⟨st,hst,hend⟩ := (Option.any_eq_true _ _).mp hrun
  simp only [Bool.and_eq_true,decide_eq_true_eq] at hend
  have hr := system.reachableUnder_of_run ⟨true,rfl⟩
    (system.along_of_check (fun _ _ h => of_decide_eq_true h) hcheck) hst
  exact ⟨st,hr,hend.1,hend.2,(heard_pair_never_stalls hr).1⟩

theorem missed_notify_deadlocks : ¬∀ st, system.Reachable st →
    (∀ side, ¬LostWakeUp st side) ∧ ∃ side st', st.step side = some st' := by
  intro hall
  let sides : List Side := [.producer,.producer,.consumer,.consumer,.producer,
    .consumer,.consumer,.consumer]
  have hrun : (system.run (start true) sides).any (fun st =>
      decide (st.stage .producer = .asleep) && decide (st.stage .consumer = .asleep)) = true := by
    decide
  obtain ⟨st,hst,hend⟩ := (Option.any_eq_true _ _).mp hrun
  simp only [Bool.and_eq_true,decide_eq_true_eq] at hend
  obtain ⟨hp,hc⟩ := hend
  obtain ⟨_,side,st',hs⟩ := hall st (system.reachable_of_run ⟨true,rfl⟩ hst)
  cases side <;> simp [step,hp,hc] at hs

end Pair
end AsyncLock
end FtpOverUdp
