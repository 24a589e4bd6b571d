import Mathlib.Logic.Function.Basic
import Mathlib.Tactic.SplitIfs

namespace Library

abbrev Table (κ α : Type) := κ → Option α

namespace Table

variable {κ α : Type} [DecidableEq κ] (t : Table κ α) {k j : κ} (v : α)

def insert (k : κ) (v : α) : Table κ α :=
  if (t k).isSome then t else Function.update t k (some v)

def assign (k : κ) (v : α) : Table κ α := Function.update t k (some v)

def modify (k : κ) (f : α → α) : Table κ α := Function.update t k ((t k).map f)

def erase (k : κ) : Table κ α := Function.update t k none

theorem insert_of_none (h : t k = none) : t.insert k v = t.assign k v := by
  simp [insert,assign,h]

theorem insert_of_some {w : α} (h : t k = some w) : t.insert k v = t := by
  simp [insert,h]

@[simp] theorem insert_isSome : (t.insert k v k).isSome := by
  unfold insert
  split_ifs with h
  · exact h
  · simp

theorem insert_of_ne (h : j ≠ k) : t.insert k v j = t j := by
  unfold insert
  split_ifs
  · rfl
  · exact Function.update_of_ne h ..

theorem insert_keeps {w : α} (h : t j = some w) : t.insert k v j = some w := by
  unfold insert
  split_ifs with hk
  · exact h
  · have hne : j ≠ k := by
      rintro rfl
      exact hk (h ▸ rfl)
    exact (Function.update_of_ne hne ..).trans h

@[simp] theorem assign_self : t.assign k v k = some v := Function.update_self ..

theorem assign_of_ne (h : j ≠ k) : t.assign k v j = t j := Function.update_of_ne h ..

theorem assign_apply : t.assign k v j = if j = k then some v else t j :=
  Function.update_apply ..

@[simp] theorem modify_self (f : α → α) : t.modify k f k = (t k).map f := Function.update_self ..

theorem modify_of_ne (f : α → α) (h : j ≠ k) : t.modify k f j = t j := Function.update_of_ne h ..

@[simp] theorem modify_isSome (f : α → α) : (t.modify k f j).isSome = (t j).isSome := by
  by_cases h : j = k
  · subst h
    simp
  · rw [modify_of_ne _ _ h]

@[simp] theorem erase_self : t.erase k k = none := Function.update_self ..

theorem erase_of_ne (h : j ≠ k) : t.erase k j = t j := Function.update_of_ne h ..

theorem erase_eq_some_iff {v : α} : t.erase k j = some v ↔ j ≠ k ∧ t j = some v := by
  by_cases h : j = k
  · subst h
    simp
  · rw [erase_of_ne _ h]
    exact (and_iff_right h).symm

end Table
end Library
