import FtpOverUdp.Library.System
import Mathlib.Data.Nat.Init
import Mathlib.Data.Nat.Notation

namespace Library

namespace System

variable {σ α : Type} (S : System σ α) (C : σ → α → Prop)

-- some continuation of steps that satisfy `C` ends in `P`
def Leads (s : σ) (P : σ → Prop) : Prop := ∃ t, Relation.ReflTransGen (S.next C) s t ∧ P t

variable {S C} {P Q I : σ → Prop} {s t : σ} {a : α}

theorem leads_now (h : P s) : S.Leads C s P := ⟨s,.refl,h⟩

theorem leads_step (hc : C s a) (hs : S.step s a = some t) (h : S.Leads C t P) :
    S.Leads C s P := by
  obtain ⟨u,hr,hu⟩ := h
  exact ⟨u,.head ⟨a,hc,hs⟩ hr,hu⟩

theorem leads_goes (hr : Relation.ReflTransGen (S.next C) s t) (h : S.Leads C t P) :
    S.Leads C s P := by
  obtain ⟨u,hr',hu⟩ := h
  exact ⟨u,hr.trans hr',hu⟩

theorem Leads.trans (h : S.Leads C s P) (hnext : ∀ t, P t → S.Leads C t Q) : S.Leads C s Q := by
  obtain ⟨t,hr,ht⟩ := h
  exact leads_goes hr (hnext t ht)

theorem Leads.mono (h : S.Leads C s P) (himp : ∀ t, P t → Q t) : S.Leads C s Q :=
  h.trans fun _ ht => leads_now (himp _ ht)

theorem Leads.invariant (h : S.Leads C s P) (hi : I s)
    (hstep : ∀ s a t, I s → C s a → S.step s a = some t → I t) :
    S.Leads C s fun t => I t ∧ P t := by
  obtain ⟨t,hr,ht⟩ := h
  refine ⟨t,hr,?_,ht⟩
  clear ht
  induction hr with
  | refl => exact hi
  | tail _ hn ih =>
    obtain ⟨a,hc,ha⟩ := hn
    exact hstep _ a _ ih hc ha

theorem leads_of_variant (variant : σ → ℕ)
    (hdecrease : ∀ s, I s → ¬P s → S.Leads C s fun t => I t ∧ variant t < variant s)
    (hi : I s) : S.Leads C s fun t => I t ∧ P t := by
  induction hv : variant s using Nat.strong_induction_on generalizing s with
  | _ n ih =>
    by_cases hp : P s
    · exact leads_now ⟨hi,hp⟩
    · refine (hdecrease s hi hp).trans fun t ht => ?_
      exact ih (variant t) (hv ▸ ht.2) ht.1 rfl

end System
end Library
