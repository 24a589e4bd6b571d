import FtpOverUdp.Library.DelayLine
import Mathlib.Algebra.BigOperators.Group.Finset.Basic
import Mathlib.Algebra.Order.BigOperators.Group.Finset
import Mathlib.Algebra.Group.Action.Defs

namespace Library

structure Reassembly where
  origin : ℕ
  slot : ℕ → Option ℕ

namespace Reassembly

variable {w m : ℕ}

def empty : Reassembly := ⟨0,fun _ => none⟩

def position (m : ℕ) (r : Reassembly) (a : ℕ) : ℕ :=
  r.origin + (a + (m - r.origin % m)) % m

def advance (s : ℕ → Option ℕ) : ℕ → ℕ → ℕ
  | 0, o => o
  | n + 1, o => if (s o).isSome then advance s n (o + 1) else o

def place (w : ℕ) (r : Reassembly) (v a : ℕ) : Reassembly :=
  ⟨advance (Function.update r.slot v (some a)) w r.origin,Function.update r.slot v (some a)⟩

def deliver (w m : ℕ) (r : Reassembly) (a : ℕ) : Reassembly :=
  if r.position m a < r.origin + w ∧ r.slot (r.position m a) = none
  then r.place w (r.position m a) a else r

def load (w : ℕ) (weight : ℕ → ℕ) (r : Reassembly) : ℕ :=
  ∑ v ∈ Finset.range (r.origin + w), (r.slot v).elim 0 weight

structure Valid (w : ℕ) (r : Reassembly) : Prop where
  filled : ∀ v < r.origin, (r.slot v).isSome
  head : r.slot r.origin = none
  beyond : ∀ v, r.origin + w ≤ v → r.slot v = none

structure Sound (w m : ℕ) (seen : List ℕ) (r : Reassembly) : Prop where
  valid : r.Valid w
  source : ∀ v a, r.slot v = some a → v ≤ a ∧ a % m = v % m ∧ a ∈ seen
  chain : ∀ v a, r.slot v = some a → v < a →
    ¬(r.slot (v + w) = some (v + w) ∧ r.slot (v + w + 1) = some (v + w + 1))

theorem eq_of_mod_eq {a b : ℕ} (h : a % m = b % m) (hab : a ≤ b) (hlt : b < a + m) : a = b := by
  have h0 := Nat.sub_mod_eq_zero_of_mod_eq h.symm
  rw [Nat.mod_eq_of_lt (by omega)] at h0
  omega

theorem position_ge (r : Reassembly) (a : ℕ) : r.origin ≤ r.position m a :=
  Nat.le_add_right _ _

theorem position_lt (hm : 0 < m) (r : Reassembly) (a : ℕ) :
    r.position m a < r.origin + m :=
  Nat.add_lt_add_left (Nat.mod_lt _ hm) _

theorem position_mod (hm : 0 < m) (r : Reassembly) (a : ℕ) : r.position m a % m = a % m := by
  have hlt := Nat.mod_lt r.origin hm
  have hsum : r.origin + (a + (m - r.origin % m)) = a + m * (r.origin / m + 1) := by
    have := Nat.div_add_mod r.origin m
    rw [Nat.mul_add,Nat.mul_one]
    omega
  rw [position,Nat.add_mod_mod,hsum,Nat.add_mul_mod_self_left]

theorem position_eq (hm : 0 < m) (r : Reassembly) {a v : ℕ} (hv : r.origin ≤ v)
    (hlt : v < r.origin + m) (hmod : a % m = v % m) : r.position m a = v := by
  have hp := position_mod hm r a
  have hge := position_ge (m := m) r a
  have hub := position_lt hm r a
  rw [hmod] at hp
  rcases Nat.le_total (r.position m a) v with hle | hle
  · exact eq_of_mod_eq hp hle (by omega)
  · exact (eq_of_mod_eq hp.symm hle (by omega)).symm

theorem advance_spec {s : ℕ → Option ℕ} {n o : ℕ} (h : ∀ v, o + n ≤ v → s v = none) :
    o ≤ advance s n o ∧ advance s n o ≤ o + n ∧ s (advance s n o) = none ∧
      ∀ v, o ≤ v → v < advance s n o → (s v).isSome := by
  induction n generalizing o with
  | zero => exact ⟨le_rfl,le_rfl,h o le_rfl,fun v hv hlt => by simp only [advance] at hlt; omega⟩
  | succ n ih =>
    simp only [advance]
    split_ifs with hs
    · obtain ⟨h1,h2,h3,h4⟩ := ih (o := o + 1) (fun v hv => h v (by omega))
      refine ⟨by omega,by omega,h3,?_⟩
      intro v hv hlt
      rcases Nat.eq_or_lt_of_le hv with rfl | hv
      · exact hs
      · exact h4 v hv hlt
    · exact ⟨le_rfl,by omega,by simpa using hs,fun v hv hlt => by omega⟩

theorem valid_empty : empty.Valid w := ⟨by simp [empty],rfl,fun _ _ => rfl⟩

section Place

variable {r : Reassembly} {v a : ℕ}

theorem place_spec (hr : r.Valid w) (hge : r.origin ≤ v) (hlt : v < r.origin + w) :
    r.origin ≤ (r.place w v a).origin ∧ (r.place w v a).origin ≤ r.origin + w ∧
      (r.place w v a).Valid w := by
  have hb : ∀ u, r.origin + w ≤ u → Function.update r.slot v (some a) u = none := by
    intro u hu
    rw [Function.update_of_ne (by omega)]
    exact hr.beyond u hu
  obtain ⟨h1,h2,h3,h4⟩ := advance_spec hb
  refine ⟨h1,h2,?_,h3,?_⟩
  · intro u hu
    rcases Nat.lt_or_ge u r.origin with hlo | hhi
    · change (Function.update r.slot v (some a) u).isSome
      rw [Function.update_of_ne (by omega)]
      exact hr.filled u hlo
    · exact h4 u hhi hu
  · intro u hu
    exact hb u (le_trans (Nat.add_le_add_right h1 w) hu)

theorem load_place (weight : ℕ → ℕ) (hr : r.Valid w) (hge : r.origin ≤ v)
    (hlt : v < r.origin + w) (hnone : r.slot v = none) :
    (r.place w v a).load w weight = r.load w weight + weight a := by
  obtain ⟨h1,_,hv⟩ := place_spec (a := a) hr hge hlt
  have hext : r.load w weight =
      ∑ u ∈ Finset.range ((r.place w v a).origin + w), (r.slot u).elim 0 weight := by
    apply Finset.sum_subset
    · simpa using h1
    · intro u _ hu
      rw [hr.beyond u (by simpa using hu)]
      rfl
  have hmem : v ∈ Finset.range ((r.place w v a).origin + w) := by
    simp only [Finset.mem_range]
    omega
  rw [hext,load,← Finset.add_sum_erase _ _ hmem,← Finset.add_sum_erase _ _ hmem,hnone]
  have hself : (r.place w v a).slot v = some a := Function.update_self ..
  have hrest : ∑ u ∈ (Finset.range ((r.place w v a).origin + w)).erase v,
      ((r.place w v a).slot u).elim 0 weight =
      ∑ u ∈ (Finset.range ((r.place w v a).origin + w)).erase v, (r.slot u).elim 0 weight := by
    refine Finset.sum_congr rfl fun u hu => ?_
    have hne : u ≠ v := (Finset.mem_erase.mp hu).1
    rw [show (r.place w v a).slot u = r.slot u from Function.update_of_ne hne ..]
  rw [hself,hrest]
  simp only [Option.elim]
  omega

end Place

theorem deliver_cases (w m : ℕ) (r : Reassembly) (a : ℕ) :
    (r.position m a < r.origin + w ∧ r.slot (r.position m a) = none ∧
      r.deliver w m a = r.place w (r.position m a) a) ∨
    ((r.position m a < r.origin + w → r.slot (r.position m a) ≠ none) ∧ r.deliver w m a = r) := by
  unfold deliver
  split_ifs with h
  · exact .inl ⟨h.1,h.2,rfl⟩
  · exact .inr ⟨fun hlt hn => h ⟨hlt,hn⟩,rfl⟩

theorem sound_empty : empty.Sound w m [] :=
  ⟨valid_empty,fun v a h => by simp [empty] at h,fun v a h => by simp [empty] at h⟩

theorem Sound.weaken {r : Reassembly} {seen : List ℕ} (h : r.Sound w m seen) (x : ℕ) :
    r.Sound w m (seen ++ [x]) :=
  ⟨h.valid,fun v a hv => ⟨(h.source v a hv).1,(h.source v a hv).2.1,
    List.mem_append_left _ (h.source v a hv).2.2⟩,h.chain⟩

theorem Sound.place {r : Reassembly} {seen : List ℕ} {v a : ℕ} (h : r.Sound w m seen)
    (hge : r.origin ≤ v) (hlt : v < r.origin + w) (hva : v ≤ a) (hmod : a % m = v % m)
    (hchain : ∀ u b, r.slot u = some b → u < b → a = v →
      (v = u + w → r.slot (u + w + 1) ≠ some (u + w + 1)) ∧
      (v = u + w + 1 → r.slot (u + w) ≠ some (u + w))) :
    (r.place w v a).Sound w m (seen ++ [a]) := by
  have hslot : ∀ u, (r.place w v a).slot u = if u = v then some a else r.slot u :=
    fun u => Function.update_apply ..
  refine ⟨(place_spec h.valid hge hlt).2.2,?_,?_⟩
  · intro u b hu
    rw [hslot] at hu
    split_ifs at hu with hvu
    · obtain rfl := Option.some.inj hu
      exact hvu ▸ ⟨hva,hmod,by simp⟩
    · obtain ⟨h1,h2,h3⟩ := h.source u b hu
      exact ⟨h1,h2,List.mem_append_left _ h3⟩
  · intro u b hu hub hboth
    rw [hslot] at hu
    rw [hslot,hslot] at hboth
    split_ifs at hu with hvu
    · -- a stand-in just placed: the later positions are still outside the window
      have hout := h.valid.beyond (u + w) (by omega)
      rw [if_neg (by omega),hout] at hboth
      simp at hboth
    · have hold := h.chain u b hu hub
      by_cases h1 : u + w = v
      · rw [if_pos h1,if_neg (by omega)] at hboth
        have hav : a = v := by simpa [h1] using hboth.1
        exact (hchain u b hu hub hav).1 h1.symm hboth.2
      · by_cases h2 : u + w + 1 = v
        · rw [if_neg h1,if_pos h2] at hboth
          have hav : a = v := by simpa [h2] using hboth.2
          exact (hchain u b hu hub hav).2 h2.symm hboth.1
        · rw [if_neg h1,if_neg h2] at hboth
          exact hold hboth

section Overtaking

variable {r : Reassembly} {seen : List ℕ} {x : ℕ}

theorem position_le_of_origin_le (hm : 0 < m) (hr : r.origin + w ≤ x + m)
    (hlt : r.position m x < r.origin + w) : r.position m x ≤ x := by
  by_contra hgt
  have := eq_of_mod_eq (position_mod hm r x).symm (by omega) (by omega)
  omega

theorem Sound.origin_le (h : r.Sound w m seen) (hw : 0 < w)
    (hall : ∀ y ∈ seen, y < x + w) : r.origin ≤ x + w := by
  by_contra hgt
  obtain ⟨a,ha⟩ := Option.isSome_iff_exists.mp (h.valid.filled (r.origin - 1) (by omega))
  obtain ⟨h1,_,h3⟩ := h.source _ a ha
  have := hall a h3
  omega

theorem standIn_ge {u b : ℕ} (hlt : u < b) (hmod : b % m = u % m) : u + m ≤ b := by
  by_contra hgt
  have := eq_of_mod_eq hmod.symm (by omega) (by omega)
  omega

theorem Sound.standIn_far (h : r.Sound w m seen) (hm : 2 * w + 1 ≤ m) {u b : ℕ}
    (hu : r.slot u = some b) (hub : u < b) (hall : b ∈ seen → b < x + w) : u + w + 1 < x := by
  obtain ⟨-,hmod,hmem⟩ := h.source u b hu
  have hge := standIn_ge hub hmod
  have hlt := hall hmem
  omega

theorem Sound.deliver (h : r.Sound w m seen) (hw : 0 < w) (hm : 2 * w + 1 ≤ m)
    (ho : r.origin + w ≤ x + m)
    (hchain : ∀ u b, r.slot u = some b → u < b → x = r.position m x →
      (r.position m x = u + w → r.slot (u + w + 1) ≠ some (u + w + 1)) ∧
      (r.position m x = u + w + 1 → r.slot (u + w) ≠ some (u + w))) :
    (r.deliver w m x).Sound w m (seen ++ [x]) := by
  rcases deliver_cases w m r x with ⟨hlt,-,he⟩ | ⟨-,he⟩
  · have hpos := position_le_of_origin_le (by omega) ho hlt
    have hmod : x % m = r.position m x % m := (position_mod (by omega) r x).symm
    rw [he]
    exact h.place (position_ge r x) hlt hpos hmod hchain
  · rw [he]
    exact h.weaken x

theorem Sound.deliver_keep (h : r.Sound w m seen) (hw : 0 < w) (hm : 2 * w + 1 ≤ m)
    (hall : ∀ y ∈ seen, y < x + w) : (r.deliver w m x).Sound w m (seen ++ [x]) := by
  have ho := h.origin_le hw hall
  apply h.deliver hw hm (by omega)
  intro u b hu hub hx
  have hfar := h.standIn_far hm hu hub (hall b)
  omega

-- everything placed before `x` was sent before `y`, so only `x` can push the origin past `y + w`
theorem Sound.origin_deliver_le {y : ℕ} (h : r.Sound w m seen)
    (hk : (r.deliver w m x).Sound w m (seen ++ [x])) (hall : ∀ z ∈ seen, z < y + w) {v : ℕ}
    (hslot : ∀ u, (r.deliver w m x).slot u = if u = v then some x else r.slot u) :
    (r.deliver w m x).origin ≤ y + w + 1 := by
  by_contra hgt
  have hf : ∀ u, y + w ≤ u → u < (r.deliver w m x).origin → u = v := by
    intro u hu hlt
    obtain ⟨a,ha⟩ := Option.isSome_iff_exists.mp (hk.valid.filled u hlt)
    by_contra hne
    rw [hslot,if_neg hne] at ha
    obtain ⟨h1,-,h3⟩ := h.source u a ha
    have := hall a h3
    omega
  have h1 := hf (y + w) le_rfl (by omega)
  have h2 := hf (y + w + 1) (by omega) (by omega)
  omega

theorem Sound.deliver_swap {y : ℕ} (h : r.Sound w m seen) (hw : 0 < w) (hm : 2 * w + 1 ≤ m)
    (hx : ∀ z ∈ seen, z < x + w) (hy : ∀ z ∈ seen, z < y + w) :
    ((r.deliver w m x).deliver w m y).Sound w m (seen ++ [x,y]) := by
  have hk := h.deliver_keep hw hm hx
  rw [List.append_cons]
  rcases deliver_cases w m r x with ⟨hlt,hnone,he⟩ | ⟨-,he⟩
  · have hge := position_ge (m := m) r x
    have hslot : ∀ u, (r.deliver w m x).slot u =
        if u = r.position m x then some x else r.slot u := by
      rw [he]
      exact fun u => Function.update_apply ..
    have ho := h.origin_deliver_le hk hy hslot
    apply hk.deliver hw hm (by omega)
    intro u b hu hub hyv
    rw [hslot] at hu
    split_ifs at hu with huv
    · have hb1 := h.valid.beyond (u + w) (by omega)
      have hb2 := h.valid.beyond (u + w + 1) (by omega)
      rw [hslot,hslot,if_neg (by omega),if_neg (by omega),hb1,hb2]
      simp
    · have hfar := h.standIn_far hm hu hub (hy b)
      omega
  · rw [he]
    have ho := h.origin_le hw hy
    apply (h.weaken x).deliver hw hm (by omega)
    intro u b hu hub hyv
    have hfar := h.standIn_far hm hu hub (hy b)
    omega

theorem sound_of_overtakenOnce {α : Type} {key : α → ℕ} {late : α → Prop} {l : List α}
    (hw : 0 < w) (hm : 2 * w + 1 ≤ m)
    (h : OvertakenOnce key (fun a b => a < b + w) late l) :
    ((l.map key).foldl (deliver w m) empty).Sound w m (l.map key) := by
  induction h with
  | nil => exact sound_empty
  | @keep l x _ hx ih =>
    rw [List.map_append,List.foldl_append]
    exact ih.deliver_keep hw hm (by simpa using hx)
  | @swap l x y _ hx hy _ _ ih =>
    rw [List.map_append,List.foldl_append]
    exact ih.deliver_swap hw hm (by simpa using hx) (by simpa using hy)

end Overtaking

section Complete

variable {r : Reassembly} {seen : List ℕ} {n : ℕ}

theorem Sound.eq_self (h : r.Sound w m seen) (hw : 0 < w) (hm : 2 * w + 1 ≤ m) (hn : r.origin = n)
    (hseen : ∀ a ∈ seen, a < n) : ∀ v < n, r.slot v = some v := by
  intro v hv
  induction hk : n - v using Nat.strong_induction_on generalizing v with
  | _ k ih =>
    obtain ⟨a,ha⟩ := Option.isSome_iff_exists.mp (h.valid.filled v (by omega))
    obtain ⟨hva,hmod,hmem⟩ := h.source v a ha
    rcases Nat.eq_or_lt_of_le hva with rfl | hlt
    · exact ha
    · have hge := standIn_ge hlt hmod
      have hlast := hseen a hmem
      have h1 := ih (n - (v + w)) (by omega) (v + w) (by omega) rfl
      have h2 := ih (n - (v + w + 1)) (by omega) (v + w + 1) (by omega) rfl
      exact absurd ⟨h1,h2⟩ (h.chain v a ha hlt)

theorem Sound.load_le (h : r.Sound w m seen) (hseen : ∀ a ∈ seen, a < n) {weight : ℕ → ℕ}
    {B : ℕ} (hB : ∀ a, weight a ≤ B) {u : ℕ} (hu : u < n) (hhole : r.slot u = none) :
    r.load w weight ≤ (n - 1) * B := by
  have hzero : ∀ v ∈ Finset.range (r.origin + w), v ∉ (Finset.range n).erase u →
      (r.slot v).elim 0 weight = 0 := by
    intro v _ hv
    cases ha : r.slot v with
    | none => rfl
    | some a =>
      obtain ⟨hva,_,hmem⟩ := h.source v a ha
      have := hseen a hmem
      have hne : v ≠ u := fun he => by simp [he,hhole] at ha
      exact absurd (Finset.mem_erase.mpr ⟨hne,by simp only [Finset.mem_range]; omega⟩) hv
  calc r.load w weight
      = ∑ v ∈ Finset.range (r.origin + w) ∩ (Finset.range n).erase u,
          (r.slot v).elim 0 weight :=
        (Finset.sum_subset Finset.inter_subset_left fun v hv hnot =>
          hzero v hv fun hin => hnot (Finset.mem_inter.mpr ⟨hv,hin⟩)).symm
    _ ≤ (Finset.range (r.origin + w) ∩ (Finset.range n).erase u).card • B := by
        refine Finset.sum_le_card_nsmul _ _ _ fun v _ => ?_
        cases r.slot v with
        | none => exact Nat.zero_le _
        | some a => exact hB a
    _ ≤ (n - 1) * B := by
        rw [smul_eq_mul]
        refine Nat.mul_le_mul_right B ?_
        calc _ ≤ ((Finset.range n).erase u).card := Finset.card_le_card Finset.inter_subset_right
          _ = n - 1 := by rw [Finset.card_erase_of_mem (Finset.mem_range.mpr hu),Finset.card_range]

theorem Sound.origin_eq (h : r.Sound w m seen) (hseen : ∀ a ∈ seen, a < n) {weight : ℕ → ℕ}
    {B : ℕ} (hB : ∀ a, weight a ≤ B) (hload : (n - 1) * B < r.load w weight) :
    r.origin = n := by
  rcases Nat.lt_trichotomy r.origin n with hlt | heq | hgt
  · have := h.load_le hseen hB hlt h.valid.head
    omega
  · exact heq
  · obtain ⟨a,ha⟩ := Option.isSome_iff_exists.mp (h.valid.filled n hgt)
    obtain ⟨hva,_,hmem⟩ := h.source n a ha
    have := hseen a hmem
    omega

theorem load_eq_sum {weight : ℕ → ℕ} (hn : n ≤ r.origin + w)
    (hself : ∀ v < n, r.slot v = some v) (hbeyond : ∀ v, n ≤ v → r.slot v = none) :
    r.load w weight = ∑ v ∈ Finset.range n, weight v := by
  have hsub : Finset.range n ⊆ Finset.range (r.origin + w) := Finset.range_mono hn
  rw [load,← Finset.sum_subset hsub]
  · refine Finset.sum_congr rfl fun v hv => ?_
    rw [hself v (Finset.mem_range.mp hv)]
    rfl
  · intro v _ hv
    rw [hbeyond v (by simpa using hv)]
    rfl

end Complete

end Reassembly
end Library
