import FtpOverUdp.Library.Table
import Mathlib.Data.Int.ConditionallyCompleteOrder
import Mathlib.Data.Int.Interval
import Mathlib.Data.Set.Card

namespace Library

namespace Table

variable {κ μ α : Type}

def keys (t : Table κ α) : Set κ := {k | (t k).isSome}

theorem mem_keys {t : Table κ α} {k : κ} : k ∈ t.keys ↔ ∃ v, t k = some v :=
  Option.isSome_iff_exists

-- each key of `u` is the value of exactly one key of `t`
theorem encard_keys_eq {t : Table κ μ} {u : Table μ α} (hkey : ∀ k m, t k = some m → m ∈ u.keys)
    (hinj : ∀ k k' m, t k = some m → t k' = some m → k = k')
    (hsurj : ∀ m ∈ u.keys, ∃ k, t k = some m) : u.keys.encard = t.keys.encard := by
  have himage : some '' u.keys = t '' t.keys := by
    ext o
    constructor
    · rintro ⟨m,hm,rfl⟩
      obtain ⟨k,hk⟩ := hsurj m hm
      exact ⟨k,mem_keys.mpr ⟨m,hk⟩,hk⟩
    · rintro ⟨k,hk,rfl⟩
      obtain ⟨m,hm⟩ := mem_keys.mp hk
      exact ⟨m,hkey k m hm,hm.symm⟩
  have honce : Set.InjOn t t.keys := by
    intro k hk k' _ he
    obtain ⟨m,hm⟩ := mem_keys.mp hk
    exact hinj k k' m hm (he ▸ hm)
  calc u.keys.encard = (some '' u.keys).encard := ((Option.some_injective μ).encard_image _).symm
    _ = (t '' t.keys).encard := by rw [himage]
    _ = t.keys.encard := honce.encard_image

theorem exists_free_of_encard_lt {t : Table κ α} {range : Set κ}
    (h : t.keys.encard < range.encard) : ∃ k ∈ range, t k = none := by
  by_contra hfull
  have hsub : range ⊆ t.keys := by
    intro k hk
    by_contra hnone
    exact hfull ⟨k,hk,Option.not_isSome_iff_eq_none.mp hnone⟩
  exact absurd (Set.encard_le_encard hsub) (not_le.mpr h)

theorem encard_Ico (n : ℕ) : (Set.Ico (0 : ℤ) n).encard = n := by
  rw [← Finset.coe_Ico,Set.encard_coe_eq_coe_finsetCard,Int.card_Ico]
  simp

end Table
end Library
