import Mathlib.Algebra.BigOperators.Group.List.Basic
import Mathlib.Logic.Relation

namespace Library

-- one step after the other, each logged
inductive Serial {σ ε : Type} (P : σ → ε → σ → Prop) (s₀ : σ) : List ε → σ → Prop
  | nil : Serial P s₀ [] s₀
  | snoc {log : List ε} {s s' : σ} {e : ε} (h : Serial P s₀ log s) (hstep : P s e s') :
      Serial P s₀ (log ++ [e]) s'

-- what every step adds to a measure of the state, the whole log adds up
theorem Serial.measure {σ ε M : Type} [AddCommMonoid M] {P : σ → ε → σ → Prop} {s₀ s : σ}
    {log : List ε} {f : σ → M} {g : ε → M} (hadd : ∀ {s e s'}, P s e s' → f s' = f s + g e)
    (h : Serial P s₀ log s) : f s = f s₀ + (log.map g).sum := by
  induction h with
  | nil => simp
  | snoc _ hstep ih =>
    rw [hadd hstep,ih,List.map_append,List.sum_append,List.map_singleton,List.sum_singleton,
      add_assoc]

-- an operation makes one call after the other on a store, which only its last call changes; `none`
-- is a call that does not come back
structure Operations (ρ σ τ α : Type) where
  start : ρ → τ
  call : σ → τ → Option (τ ⊕ (α × σ))

namespace Operations

variable {ρ σ τ α : Type} (O : Operations ρ σ τ α)

def Goes (s : σ) : τ → τ → Prop := Relation.ReflTransGen fun t u => O.call s t = some (.inl u)

def Performs (s : σ) (r : ρ) (a : α) (s' : σ) : Prop :=
  ∃ t, O.Goes s (O.start r) t ∧ O.call s t = some (.inr (a,s'))

end Operations
end Library
