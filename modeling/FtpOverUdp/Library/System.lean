import Mathlib.Logic.Relation
import Mathlib.Data.Option.Basic

namespace Library

structure System (σ α : Type) where
  init : σ → Prop
  step : σ → α → Option σ

namespace System

variable {σ α : Type} (S : System σ α)

def next (C : σ → α → Prop) (s t : σ) : Prop := ∃ a, C s a ∧ S.step s a = some t

def ReachableUnder (C : σ → α → Prop) (t : σ) : Prop :=
  ∃ s, S.init s ∧ Relation.ReflTransGen (S.next C) s t

def Reachable (t : σ) : Prop := S.ReachableUnder (fun _ _ => True) t

def run (s : σ) : List α → Option σ
  | [] => some s
  | a :: as => (S.step s a).bind (run · as)

def Along (Q : σ → α → σ → Prop) (s : σ) : List α → Prop
  | [] => True
  | a :: as => ∀ t, S.step s a = some t → Q s a t ∧ Along Q t as

def check (c : σ → α → Bool) (s : σ) : List α → Bool
  | [] => true
  | a :: as => c s a && (S.step s a).all (check c · as)

theorem reachableUnder_invariant {C : σ → α → Prop} {I : σ → Prop}
    (hinit : ∀ s, S.init s → I s)
    (hstep : ∀ s a t, I s → C s a → S.step s a = some t → I t)
    {t : σ} (h : S.ReachableUnder C t) : I t := by
  obtain ⟨s,hs,hr⟩ := h
  induction hr with
  | refl => exact hinit s hs
  | tail _ hn ih =>
    obtain ⟨a,hc,ha⟩ := hn
    exact hstep _ a _ ih hc ha

theorem reachable_invariant {I : σ → Prop} (hinit : ∀ s, S.init s → I s)
    (hstep : ∀ s a t, I s → S.step s a = some t → I t) {t : σ} (h : S.Reachable t) : I t :=
  S.reachableUnder_invariant hinit (fun s a t hi _ ha => hstep s a t hi ha) h

theorem ReachableUnder.step {S : System σ α} {C : σ → α → Prop} {s t : σ} {a : α}
    (h : S.ReachableUnder C s) (hc : C s a) (ha : S.step s a = some t) : S.ReachableUnder C t := by
  obtain ⟨s₀,hs,hr⟩ := h
  exact ⟨s₀,hs,hr.tail ⟨a,hc,ha⟩⟩

theorem reflTransGen_of_run {C : σ → α → Prop} {s t : σ} {as : List α}
    (hc : S.Along (fun s a _ => C s a) s as) (h : S.run s as = some t) :
    Relation.ReflTransGen (S.next C) s t := by
  induction as generalizing s with
  | nil =>
    simp only [run,Option.some.injEq] at h
    exact h ▸ .refl
  | cons a as ih =>
    simp only [run,Option.bind_eq_some_iff] at h
    obtain ⟨u,hu,hr⟩ := h
    obtain ⟨hca,hcs⟩ := hc u hu
    exact .head ⟨a,hca,hu⟩ (ih hcs hr)

theorem along_true (s : σ) (as : List α) : S.Along (fun _ _ _ => True) s as := by
  induction as generalizing s with
  | nil => trivial
  | cons a as ih => exact fun t _ => ⟨trivial,ih t⟩

theorem reachable_of_run {s t : σ} {as : List α} (hs : S.init s) (h : S.run s as = some t) :
    S.Reachable t :=
  ⟨s,hs,S.reflTransGen_of_run (S.along_true s as) h⟩

theorem reachableUnder_of_run {C : σ → α → Prop} {s t : σ} {as : List α} (hs : S.init s)
    (hc : S.Along (fun s a _ => C s a) s as) (h : S.run s as = some t) : S.ReachableUnder C t :=
  ⟨s,hs,S.reflTransGen_of_run hc h⟩

theorem along_of_forall {Q : σ → α → σ → Prop} {as : List α} (h : ∀ a ∈ as, ∀ s t, Q s a t)
    (s : σ) : S.Along Q s as := by
  induction as generalizing s with
  | nil => trivial
  | cons a as ih =>
    exact fun t _ => ⟨h a (by simp) s t,ih (fun b hb => h b (List.mem_cons_of_mem a hb)) t⟩

theorem along_of_check {C : σ → α → Prop} {c : σ → α → Bool}
    (hc : ∀ s a, c s a = true → C s a) {s : σ} {as : List α} (h : S.check c s as = true) :
    S.Along (fun s a _ => C s a) s as := by
  induction as generalizing s with
  | nil => trivial
  | cons a as ih =>
    simp only [check,Bool.and_eq_true] at h
    intro t ht
    rw [ht] at h
    exact ⟨hc s a h.1,ih h.2⟩

theorem along_mono {Q R : σ → α → σ → Prop} (h : ∀ s a t, Q s a t → R s a t)
    {s : σ} {as : List α} (hq : S.Along Q s as) : S.Along R s as := by
  induction as generalizing s with
  | nil => trivial
  | cons a as ih =>
    intro t ht
    exact ⟨h s a t (hq t ht).1,ih (hq t ht).2⟩

theorem along_of_invariant {Q : σ → α → σ → Prop} {C : σ → α → Prop} {I : σ → Prop}
    (hstep : ∀ s a t, I s → C s a → S.step s a = some t → Q s a t ∧ I t)
    {s : σ} {as : List α} (hi : I s) (hc : S.Along (fun s a _ => C s a) s as) :
    S.Along Q s as := by
  induction as generalizing s with
  | nil => trivial
  | cons a as ih =>
    intro t ht
    obtain ⟨hca,hcs⟩ := hc t ht
    obtain ⟨hq,hit⟩ := hstep s a t hi hca ht
    exact ⟨hq,ih hit hcs⟩

theorem along_iff_of_step {P : σ → α → σ → Prop} {C : σ → α → Prop} {I : σ → Prop}
    (hstep : ∀ s a t, I s → S.step s a = some t → (P s a t ↔ C s a) ∧ (P s a t → I t))
    {s : σ} (hi : I s) (as : List α) :
    S.Along P s as ↔ S.Along (fun s a _ => C s a) s as := by
  induction as generalizing s with
  | nil => exact Iff.rfl
  | cons a as ih =>
    refine forall₂_congr fun t ht => ?_
    obtain ⟨hiff,hnext⟩ := hstep s a t hi ht
    refine Iff.trans (and_congr_right fun hp => ih (hnext hp)) ?_
    exact and_congr_left fun _ => hiff

theorem along_final {P : σ → Prop} {s t : σ} {as : List α} (hs : P s)
    (h : S.Along (fun _ _ t => P t) s as) (hr : S.run s as = some t) : P t := by
  induction as generalizing s with
  | nil => exact Option.some.inj hr ▸ hs
  | cons a as ih =>
    obtain ⟨u,hu,hrest⟩ := Option.bind_eq_some_iff.mp hr
    exact ih (h u hu).1 (h u hu).2 hrest

end System
end Library
