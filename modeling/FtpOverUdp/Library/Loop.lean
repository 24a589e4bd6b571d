import Mathlib.Data.Set.Finite.Basic
import Mathlib.Logic.Function.Iterate

namespace Library

namespace Loop

inductive Outcome (σ : Type)
  | ended (s : σ)
  | fault
  | running
  deriving DecidableEq

def Outcome.map {σ τ : Type} (f : σ → τ) : Outcome σ → Outcome τ
  | .ended s => .ended (f s)
  | .fault => .fault
  | .running => .running

variable {σ τ : Type} (guard : σ → Bool) (body : σ → Option σ) (next : σ → σ)

-- `while (guard) body`, for at most `fuel` tests of the guard
def run : ℕ → σ → Outcome σ
  | 0, _ => .running
  | fuel + 1, s =>
    if guard s then
      match body s with
      | some s' => run fuel s'
      | none => .fault
    else .ended s

structure Ends (s : σ) (n : ℕ) : Prop where
  stays : ∀ i < n, guard (next^[i] s) = true
  leaves : guard (next^[n] s) = false

variable {guard : σ → Bool} {body : σ → Option σ} {next : σ → σ} {s : σ} {n : ℕ}

theorem Ends.tail (h : Ends guard next s (n + 1)) : Ends guard next (next s) n :=
  ⟨fun i hi => h.stays (i + 1) (Nat.succ_lt_succ hi),h.leaves⟩

-- the rounds that the guard asks for, up to the first whose body fails
theorem Ends.run_eq (h : Ends guard next s n) (hbody : ∀ s s', body s = some s' → s' = next s)
    {fuel : ℕ} (hfuel : n < fuel) :
    run guard body fuel s =
      if ∀ i < n, (body (next^[i] s)).isSome then .ended (next^[n] s) else .fault := by
  induction fuel generalizing s n with
  | zero => exact absurd hfuel (Nat.not_lt_zero n)
  | succ fuel ih =>
    rw [run]
    cases n with
    | zero =>
      have hleave : guard s = false := h.leaves
      rw [if_neg (Bool.eq_false_iff.mp hleave),if_pos fun i hi => absurd hi i.not_lt_zero]
      rfl
    | succ n =>
      have hstay : guard s = true := h.stays 0 n.succ_pos
      rw [if_pos hstay]
      simp only [Nat.forall_lt_succ_left,Function.iterate_zero_apply,Function.iterate_succ_apply]
      cases hround : body s with
      | none => simp
      | some s' =>
        obtain rfl := hbody s s' hround
        simp only [Option.isSome_some,true_and]
        exact ih h.tail (Nat.lt_of_succ_lt_succ hfuel)

-- a guard that holds of finitely many observations, none of which comes twice
theorem exists_ends {observe : σ → τ} {p : τ → Bool} (hfinite : {o | p o = true}.Finite)
    (hfresh : Function.Injective fun n => observe (next^[n] s)) :
    ∃ n, Ends (fun s => p (observe s)) next s n := by
  have hexit : ∃ n, p (observe (next^[n] s)) = false := by
    by_contra hstay
    have hall : ∀ n, observe (next^[n] s) ∈ {o | p o = true} := by
      intro n
      by_contra hn
      exact hstay ⟨n,Bool.eq_false_iff.mpr hn⟩
    exact Set.infinite_of_injective_forall_mem hfresh hall hfinite
  refine ⟨Nat.find hexit,fun i hi => ?_,Nat.find_spec hexit⟩
  exact Bool.eq_true_of_not_eq_false (Nat.find_min hexit hi)

end Loop
end Library
