import FtpOverUdp.Common.AsyncLock
import Mathlib.Data.Fintype.Basic
import Mathlib.Logic.Function.Basic

namespace FtpOverUdp

open Library

inductive FileOperation
  | getDirectoryContents
  | getFileContents
  | startRename
  | performRename
  | saveFile
  deriving DecidableEq

inductive FileStage
  | outside
  | working (operation : FileOperation)
  | signalled
  deriving DecidableEq

structure FileLock (n : ℕ) where
  ioLock : AsyncLock
  stage : Fin n → FileStage

namespace FileLock

inductive Event (n : ℕ)
  | waitForSignalling (thread : Fin n) (operation : FileOperation)
  | throw (thread : Fin n)
  | finalizeSignalling (thread : Fin n)
  | finalizeConsumption (thread : Fin n)

variable {n : ℕ}

def move (st : FileLock n) (ioLock : AsyncLock) (i : Fin n) (stage : FileStage) : FileLock n :=
  ⟨ioLock,Function.update st.stage i stage⟩

def step (st : FileLock n) : Event n → Option (FileLock n)
  | .waitForSignalling i operation =>
    if st.stage i = .outside then
      st.ioLock.waitForSignalling.map (st.move · i (.working operation))
    else none
  | .throw i =>
    -- `getFileContents` throws between the two calls and leaves the flag as it is
    if st.stage i = .working .getFileContents then some (st.move st.ioLock i .outside) else none
  | .finalizeSignalling i =>
    match st.stage i with
    | .working _ => some (st.move st.ioLock.finalizeSignalling i .signalled)
    | _ => none
  | .finalizeConsumption i =>
    if st.stage i = .signalled then some (st.move st.ioLock.finalizeConsumption i .outside)
    else none

def start (n : ℕ) : FileLock n := ⟨AsyncLock.create false 256,fun _ => .outside⟩

def system (n : ℕ) : System (FileLock n) (Event n) where
  init st := st = start n
  step := step

def Inside (st : FileLock n) (i : Fin n) : Prop := st.stage i ≠ .outside

def AtMostOneInside (st : FileLock n) : Prop := ∀ i j, st.Inside i → st.Inside j → i = j

def EntersAlone (st : FileLock n) (e : Event n) : Prop :=
  ∀ i operation, e = .waitForSignalling i operation → ∀ j other, st.stage j ≠ .working other

structure Inv (st : FileLock n) : Prop where
  alone : AtMostOneInside st
  signalled : ∀ i, st.stage i = .signalled → st.ioLock.isConsumptionState = true

variable {st st' : FileLock n}

theorem move_self (st : FileLock n) (ioLock : AsyncLock) (i : Fin n) (stage : FileStage) :
    (st.move ioLock i stage).stage i = stage := Function.update_self ..

theorem move_of_ne (st : FileLock n) (ioLock : AsyncLock) {i j : Fin n} (stage : FileStage)
    (h : j ≠ i) : (st.move ioLock i stage).stage j = st.stage j := Function.update_of_ne h ..

theorem move_inside {ioLock : AsyncLock} {i j : Fin n} {stage : FileStage}
    (h : (st.move ioLock i stage).Inside j) : j = i ∧ stage ≠ .outside ∨ j ≠ i ∧ st.Inside j := by
  by_cases hj : j = i
  · subst hj
    rw [Inside,move_self] at h
    exact .inl ⟨rfl,h⟩
  · rw [Inside,move_of_ne _ _ _ hj] at h
    exact .inr ⟨hj,h⟩

theorem inv_start : Inv (start n) :=
  ⟨fun _ _ hi => absurd rfl hi,fun _ hi => by cases hi⟩

theorem Inv.enter (h : Inv st) {i : Fin n} {operation : FileOperation}
    (hs : step st (.waitForSignalling i operation) = some st') :
    (AtMostOneInside st' ↔ EntersAlone st (.waitForSignalling i operation)) ∧
      (AtMostOneInside st' → Inv st') := by
  simp only [step] at hs
  split_ifs at hs with hout
  obtain ⟨ioLock,hlock,rfl⟩ := Option.map_eq_some_iff.mp hs
  have hnone : ∀ j, st.stage j ≠ .signalled := fun j hj => by
    simp [AsyncLock.waitForSignalling,h.signalled j hj] at hlock
  refine ⟨⟨fun hone k op he j other hj => ?_,fun halone a b ha hb => ?_⟩,fun hone => ⟨hone,?_⟩⟩
  · have hji : j ≠ i := fun hji => by simp [← hji,hj] at hout
    have hin : (st.move ioLock i (.working operation)).Inside j := by
      rw [Inside,move_of_ne _ _ _ hji,hj]
      simp
    exact hji (hone j i hin (by simp [Inside,move_self]))
  · have hempty : ∀ j, ¬st.Inside j := by
      intro j hj
      cases hstage : st.stage j with
      | outside => exact hj hstage
      | working other => exact halone i operation rfl j other hstage
      | signalled => exact hnone j hstage
    rcases move_inside ha with ⟨rfl,_⟩ | ⟨_,ha⟩
    · rcases move_inside hb with ⟨rfl,_⟩ | ⟨_,hb⟩
      · rfl
      · exact absurd hb (hempty b)
    · exact absurd ha (hempty a)
  · intro j hj
    by_cases hji : j = i
    · rw [hji,move_self] at hj
      cases hj
    · rw [move_of_ne _ _ _ hji] at hj
      exact absurd hj (hnone j)

theorem Inv.move (h : Inv st) {i : Fin n} (hin : st.Inside i) {ioLock : AsyncLock}
    {stage : FileStage} (hflag : stage = .signalled → ioLock.isConsumptionState = true) :
    Inv (st.move ioLock i stage) := by
  have honly : ∀ j, (st.move ioLock i stage).Inside j → j = i := by
    intro j hj
    rcases move_inside hj with ⟨rfl,_⟩ | ⟨_,hj⟩
    · rfl
    · exact h.alone j i hj hin
  refine ⟨fun a b ha hb => (honly a ha).trans (honly b hb).symm,fun j hj => hflag ?_⟩
  have hji := honly j (by simp [Inside,hj])
  rwa [hji,move_self] at hj

theorem Inv.step_iff (h : Inv st) {e : Event n} (hs : step st e = some st') :
    (AtMostOneInside st' ↔ EntersAlone st e) ∧ (AtMostOneInside st' → Inv st') := by
  have hother (hinv : Inv st') (hnot : ∀ i operation, e ≠ .waitForSignalling i operation) :
      (AtMostOneInside st' ↔ EntersAlone st e) ∧ (AtMostOneInside st' → Inv st') :=
    ⟨iff_of_true hinv.alone fun i op he => absurd he (hnot i op),fun _ => hinv⟩
  cases e with
  | waitForSignalling i operation => exact h.enter hs
  | throw i =>
    simp only [step] at hs
    split_ifs at hs with hstage
    obtain rfl := Option.some.inj hs
    exact hother (h.move (by simp [Inside,hstage]) (by simp)) (by simp)
  | finalizeSignalling i =>
    simp only [step] at hs
    split at hs
    · rename_i op hstage
      obtain rfl := Option.some.inj hs
      exact hother (h.move (by simp [Inside,hstage]) fun _ => rfl) (by simp)
    · cases hs
  | finalizeConsumption i =>
    simp only [step] at hs
    split_ifs at hs with hstage
    obtain rfl := Option.some.inj hs
    exact hother (h.move (by simp [Inside,hstage]) (by simp)) (by simp)

theorem file_operations_exclusive_iff (n : ℕ) (events : List (Event n)) :
    (system n).Along (fun _ _ st => AtMostOneInside st) (start n) events ↔
      (system n).Along (fun st e _ => EntersAlone st e) (start n) events :=
  (system n).along_iff_of_step (I := Inv) (fun _ _ _ h hs => h.step_iff hs) inv_start events

theorem ioLock_admits_two_threads : ¬∀ n st, (system n).Reachable st → AtMostOneInside st := by
  intro h
  let events : List (Event 2) := [.waitForSignalling 0 .performRename,.waitForSignalling 1 .saveFile]
  have hrun : ((system 2).run (start 2) events).any (fun st =>
      decide (st.stage 0 ≠ .outside) && decide (st.stage 1 ≠ .outside)) = true := by decide
  obtain ⟨st,hst,hend⟩ := (Option.any_eq_true _ _).mp hrun
  simp only [Bool.and_eq_true,decide_eq_true_eq] at hend
  exact absurd (h 2 st ((system 2).reachable_of_run rfl hst) 0 1 hend.1 hend.2) (by decide)

end FileLock
end FtpOverUdp
