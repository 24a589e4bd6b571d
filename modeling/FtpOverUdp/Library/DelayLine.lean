import Mathlib.Data.List.Basic
import Mathlib.Data.List.Induction
import Mathlib.Data.Set.Insert

namespace Library

section Order

variable {α κ : Type} (key : α → κ) (R : κ → κ → Prop) (late : α → Prop)

inductive OvertakenOnce : List α → Prop
  | nil : OvertakenOnce []
  | keep {l : List α} {x : α} : OvertakenOnce l → (∀ y ∈ l, R (key y) (key x)) →
      OvertakenOnce (l ++ [x])
  | swap {l : List α} {x y : α} : OvertakenOnce l → (∀ z ∈ l, R (key z) (key x)) →
      (∀ z ∈ l, R (key z) (key y)) → R (key y) (key x) → late y → OvertakenOnce (l ++ [x,y])

def Straggles (before : Set κ) (x : α) : Prop :=
  (∀ k ∈ before, R k (key x)) ∨ late x ∧ ∃ e, ∀ k ∈ before, R k (key x) ∨ k = e

def Stragglers : Set κ → List α → Prop
  | _, [] => True
  | before, x :: l => Straggles key R late before x ∧ Stragglers (insert (key x) before) l

variable {key R late}

theorem OvertakenOnce.last {l : List α} {x : α} (h : OvertakenOnce key R late (l ++ [x])) :
    OvertakenOnce key R late l ∧ ((∀ y ∈ l, R (key y) (key x)) ∨
      late x ∧ ∃ l₀ q, l = l₀ ++ [q] ∧ ∀ y ∈ l₀, R (key y) (key x)) := by
  generalize he : l ++ [x] = m at h
  cases h with
  | nil => simp at he
  | keep hl hx =>
    obtain ⟨rfl,rfl⟩ := List.append_singleton_inj.mp he
    exact ⟨hl,.inl hx⟩
  | @swap l₀ a b hl ha hb _ hlate =>
    have he' : l ++ [x] = (l₀ ++ [a]) ++ [b] := by simpa using he
    obtain ⟨rfl,rfl⟩ := List.append_singleton_inj.mp he'
    exact ⟨.keep hl ha,.inr ⟨hlate,l₀,a,rfl,hb⟩⟩

theorem OvertakenOnce.of_append {l m : List α} (h : OvertakenOnce key R late (l ++ m)) :
    OvertakenOnce key R late l := by
  induction m using List.reverseRecOn with
  | nil => simpa using h
  | append_singleton m x ih =>
    rw [← List.append_assoc] at h
    exact ih h.last.1

theorem OvertakenOnce.mono {late' : α → Prop} (hlate : ∀ x, late x → late' x) {l : List α}
    (h : OvertakenOnce key R late l) : OvertakenOnce key R late' l := by
  induction h with
  | nil => exact .nil
  | keep _ hx ih => exact ih.keep hx
  | swap _ hx hy hyx hl ih => exact ih.swap hx hy hyx (hlate _ hl)

theorem OvertakenOnce.straggles {l : List α} {x : α} (h : OvertakenOnce key R late (l ++ [x])) :
    Straggles key R late {k | ∃ y ∈ l, key y = k} x := by
  rcases h.last.2 with hall | ⟨hlate,l₀,q,rfl,hall⟩
  · left
    rintro _ ⟨y,hy,rfl⟩
    exact hall y hy
  · refine .inr ⟨hlate,key q,?_⟩
    rintro _ ⟨y,hy,rfl⟩
    rcases List.mem_append.mp hy with hy | hy
    · exact .inl (hall y hy)
    · exact .inr (by simp_all)

theorem OvertakenOnce.filter (keep : α → Bool) {l : List α} (h : OvertakenOnce key R late l) :
    OvertakenOnce key R late (l.filter keep) := by
  induction h with
  | nil => exact .nil
  | @keep l x _ hx ih =>
    rw [List.filter_append,List.filter_singleton]
    cases hk : keep x with
    | false => simpa using ih
    | true => exact ih.keep fun y hy => hx y (List.mem_of_mem_filter hy)
  | @swap l x y _ hx hy hyx hlate ih =>
    have hx' := fun z hz => hx z (List.mem_of_mem_filter (p := keep) hz)
    have hy' := fun z hz => hy z (List.mem_of_mem_filter (p := keep) hz)
    rw [List.filter_append,List.filter_cons,List.filter_singleton]
    cases hkx : keep x <;> cases hky : keep y
    · simpa using ih
    · simpa using ih.keep hy'
    · simpa using ih.keep hx'
    · exact .swap ih hx' hy' hyx hlate

theorem OvertakenOnce.filterMap {β ι : Type} {key' : β → ι} {R' : ι → ι → Prop} {late' : β → Prop}
    (f : α → Option β)
    (hR : ∀ a b a' b', f a = some a' → f b = some b' → R (key a) (key b) → R' (key' a') (key' b'))
    (hlate : ∀ a a', f a = some a' → late a → late' a') {l : List α}
    (h : OvertakenOnce key R late l) : OvertakenOnce key' R' late' (l.filterMap f) := by
  have hbefore : ∀ {m : List α} {x : α} {x' : β}, f x = some x' →
      (∀ y ∈ m, R (key y) (key x)) → ∀ y' ∈ m.filterMap f, R' (key' y') (key' x') := by
    intro m x x' hx hm y' hy
    obtain ⟨y,hym,hy⟩ := List.mem_filterMap.mp hy
    exact hR y x y' x' hy hx (hm y hym)
  induction h with
  | nil => exact .nil
  | @keep l x _ hx ih =>
    rw [List.filterMap_append]
    cases hfx : f x with
    | none => simpa [hfx] using ih
    | some x' => simpa [hfx] using ih.keep (hbefore hfx hx)
  | @swap l x y _ hx hy hyx hl ih =>
    rw [List.filterMap_append]
    cases hfx : f x with
    | none =>
      cases hfy : f y with
      | none => simpa [hfx,hfy] using ih
      | some y' => simpa [hfx,hfy] using ih.keep (hbefore hfy hy)
    | some x' =>
      cases hfy : f y with
      | none => simpa [hfx,hfy] using ih.keep (hbefore hfx hx)
      | some y' =>
        simpa [hfx,hfy] using .swap ih (hbefore hfx hx) (hbefore hfy hy)
          (hR y x y' x' hfy hfx hyx) (hlate y y' hfy hl)

-- an element that may not follow `x` is at most the next one after it
theorem OvertakenOnce.blocked {l m : List α} {x q z : α}
    (h : OvertakenOnce key R late (l ++ q :: m)) (hx : x ∈ l) (hz : ¬R (key x) (key z)) :
    z ∉ m := by
  intro hm
  obtain ⟨m₁,m₂,rfl⟩ := List.append_of_mem hm
  have hsplit : l ++ q :: (m₁ ++ z :: m₂) = l ++ q :: m₁ ++ [z] ++ m₂ := by simp
  rw [hsplit] at h
  rcases h.of_append.last.2 with hall | ⟨-,l₀,q',he,hall⟩
  · exact hz (hall x (List.mem_append_left _ hx))
  · refine hz (hall x ?_)
    have hlen : l.length ≤ l₀.length := by
      have := congrArg List.length he
      simp only [List.length_append,List.length_cons,List.length_nil] at this
      omega
    have hprefix : l <+: l₀ :=
      List.prefix_of_prefix_length_le ⟨_,he⟩ (List.prefix_append l₀ [q']) hlen
    exact hprefix.subset hx

theorem Straggles.anti {B B' : Set κ} {x : α} (hB : B' ⊆ B) (h : Straggles key R late B x) :
    Straggles key R late B' x := by
  rcases h with h | ⟨hl,e,h⟩
  · exact .inl fun k hk => h k (hB hk)
  · exact .inr ⟨hl,e,fun k hk => h k (hB hk)⟩

theorem Straggles.grow {B B' : Set κ} {x : α} (hB : ∀ k ∈ B', k ∈ B ∨ R k (key x))
    (h : Straggles key R late B x) : Straggles key R late B' x := by
  rcases h with h | ⟨hl,e,h⟩
  · exact .inl fun k hk => (hB k hk).elim (h k) id
  · exact .inr ⟨hl,e,fun k hk => (hB k hk).elim (h k) .inl⟩

theorem Stragglers.anti {B B' : Set κ} {l : List α} (hB : B' ⊆ B)
    (h : Stragglers key R late B l) : Stragglers key R late B' l := by
  induction l generalizing B B' with
  | nil => trivial
  | cons x l ih => exact ⟨h.1.anti hB,ih (Set.insert_subset_insert hB) h.2⟩

theorem Stragglers.tail {B : Set κ} {x : α} {l : List α} (h : Stragglers key R late B (x :: l)) :
    Stragglers key R late B l := h.2.anti (Set.subset_insert _ _)

theorem stragglers_append {B : Set κ} {l m : List α} :
    Stragglers key R late B (l ++ m) ↔
      Stragglers key R late B l ∧ Stragglers key R late (B ∪ {k | ∃ y ∈ l, key y = k}) m := by
  induction l generalizing B with
  | nil => simp [Stragglers]
  | cons x l ih =>
    have he : insert (key x) B ∪ {k | ∃ y ∈ l, key y = k} =
        B ∪ {k | ∃ y ∈ x :: l, key y = k} := by
      ext k
      simp only [Set.mem_union,Set.mem_insert_iff,Set.mem_ofPred_eq,List.mem_cons,
        exists_eq_or_imp,eq_comm (a := k)]
      tauto
    simp only [List.cons_append,Stragglers,ih,he,and_assoc]

theorem Stragglers.snoc {B : Set κ} {l : List α} {x : α} (h : Stragglers key R late B l)
    (hx : Straggles key R late (B ∪ {k | ∃ y ∈ l, key y = k}) x) :
    Stragglers key R late B (l ++ [x]) :=
  stragglers_append.mpr ⟨h,hx,trivial⟩

theorem stragglers_of_all {B : Set κ} {l : List α} (hB : ∀ k ∈ B, ∀ x ∈ l, R k (key x))
    (hl : ∀ y ∈ l, ∀ x ∈ l, R (key y) (key x)) : Stragglers key R late B l := by
  induction l generalizing B with
  | nil => trivial
  | cons x l ih =>
    refine ⟨.inl fun k hk => hB k hk x List.mem_cons_self,ih ?_ ?_⟩
    · rintro k (rfl | hk) z hz
      · exact hl x List.mem_cons_self z (.tail x hz)
      · exact hB k hk z (.tail x hz)
    · exact fun y hy z hz => hl y (.tail x hy) z (.tail x hz)

end Order

structure DelayLine (α : Type) where
  passed : List α
  held : Option α
  queued : List α

namespace DelayLine

variable {α κ : Type}

def waiting (d : DelayLine α) : List α := d.held.toList ++ d.queued

def contents (d : DelayLine α) : List α := d.passed ++ d.waiting

def push (d : DelayLine α) (x : α) : DelayLine α := { d with queued := d.queued ++ [x] }

def map {β : Type} (f : α → β) (d : DelayLine α) : DelayLine β :=
  ⟨d.passed.map f,d.held.map f,d.queued.map f⟩

inductive Step (mark : α → α) (admits : α → Prop) : DelayLine α → DelayLine α → Prop
  | drop {p h x q} : Step mark admits ⟨p,h,x :: q⟩ ⟨p,h,q⟩
  | pass {p x q} : Step mark admits ⟨p,none,x :: q⟩ ⟨p ++ [x],none,q⟩
  | overtake {p y x q} : Step mark admits ⟨p,some y,x :: q⟩ ⟨p ++ [x,y],none,q⟩
  | hold {p x q} : admits x → Step mark admits ⟨p,none,x :: q⟩ ⟨p,some (mark x),q⟩
  | release {p y q} : Step mark admits ⟨p,some y,q⟩ ⟨p ++ [y],none,q⟩

def All (P : α → Prop) (d : DelayLine α) : Prop := ∀ y ∈ d.passed ++ d.waiting, P y

variable (key : α → κ) (R : κ → κ → Prop) (late : α → Prop)

structure Ordered (d : DelayLine α) : Prop where
  passed : OvertakenOnce key R late d.passed
  ahead : ∀ y ∈ d.passed, ∀ x ∈ d.waiting, R (key y) (key x)
  waiting : d.waiting.Pairwise fun y x => R (key y) (key x)
  held : ∀ y ∈ d.held, late y

structure Bounded (d : DelayLine α) : Prop where
  line : Stragglers key R late ∅ (d.passed ++ d.waiting)
  held : ∀ y ∈ d.held, late y ∧ ∀ x ∈ d.passed, R (key x) (key y)

variable {key R late} {mark : α → α} {admits : α → Prop} {d d' : DelayLine α}

theorem All.push {P : α → Prop} (h : d.All P) {x : α} (hx : P x) : (d.push x).All P := by
  intro y hy
  simp only [DelayLine.push,DelayLine.waiting,← List.append_assoc] at hy
  rcases List.mem_append.mp hy with hy | hy
  · exact h y (by simpa only [DelayLine.waiting,← List.append_assoc] using hy)
  · exact List.mem_singleton.mp hy ▸ hx

theorem All.step {P : α → Prop} (hmark : ∀ x, P x → P (mark x)) (h : d.All P)
    (hs : Step mark admits d d') : d'.All P := by
  intro y hy
  cases hs with
  | drop => exact h y (by simp only [DelayLine.waiting,List.mem_append,List.mem_cons] at hy ⊢; tauto)
  | pass => exact h y (by simpa [DelayLine.waiting] using hy)
  | overtake =>
    exact h y (by
      simp only [DelayLine.waiting,Option.toList,List.mem_append,List.mem_cons,
        List.not_mem_nil] at hy ⊢
      tauto)
  | @hold p x q _ =>
    simp only [DelayLine.waiting,Option.toList_some,List.mem_append,List.mem_cons,
      List.not_mem_nil,or_false] at hy
    rcases hy with hy | rfl | hy
    · exact h y (List.mem_append_left _ hy)
    · exact hmark x (h x (by simp [DelayLine.waiting]))
    · exact h y (by simp [DelayLine.waiting,hy])
  | release => exact h y (by simpa [DelayLine.waiting] using hy)

theorem Step.moves (hs : Step id admits d d') : ∃ more, d'.passed = d.passed ++ more ∧
    (∀ x ∈ more, x ∈ d.waiting) ∧ ∀ x ∈ d'.waiting, x ∈ d.waiting := by
  cases hs with
  | drop =>
    refine ⟨[],by simp,by simp,fun y hy => ?_⟩
    simp only [DelayLine.waiting,List.mem_append,List.mem_cons] at hy ⊢
    tauto
  | @pass _ x => exact ⟨[x],rfl,by simp [DelayLine.waiting],by simp +contextual [DelayLine.waiting]⟩
  | @overtake _ y x =>
    refine ⟨[x,y],rfl,by simp [DelayLine.waiting],fun z hz => ?_⟩
    simp only [DelayLine.waiting,Option.toList_none,List.nil_append] at hz
    simp [DelayLine.waiting,hz]
  | hold => exact ⟨[],by simp,by simp,by simp [DelayLine.waiting]⟩
  | @release _ y =>
    refine ⟨[y],rfl,by simp [DelayLine.waiting],fun z hz => ?_⟩
    simp only [DelayLine.waiting,Option.toList_none,List.nil_append] at hz
    simp [DelayLine.waiting,hz]

theorem Step.held {late : α → Prop} (hmark : ∀ x, late (mark x)) (h : ∀ y ∈ d.held, late y)
    (hs : Step mark admits d d') : ∀ y ∈ d'.held, late y := by
  cases hs with
  | drop => exact h
  | @hold p x q _ => simpa using hmark x
  | pass | overtake | release => simp

theorem pairwise_swap {R : α → α → Prop} {l rest : List α} {x y : α} (hxy : R x y)
    (h : (l ++ y :: x :: rest).Pairwise R) : (l ++ x :: y :: rest).Pairwise R := by
  simp only [List.pairwise_append,List.pairwise_cons,List.mem_cons,forall_eq_or_imp] at h ⊢
  obtain ⟨hl,⟨⟨-,hy⟩,hx,hrest⟩,hall⟩ := h
  exact ⟨hl,⟨⟨hxy,hx⟩,hy,hrest⟩,fun z hz => ⟨(hall z hz).2.1,(hall z hz).1,(hall z hz).2.2⟩⟩

theorem contents_push (d : DelayLine α) (x : α) : (d.push x).contents = d.contents ++ [x] := by
  simp [contents,waiting,DelayLine.push]

theorem ordered_empty : Ordered key R late (⟨[],none,[]⟩ : DelayLine α) :=
  ⟨.nil,by simp,by simp [DelayLine.waiting],by simp⟩

theorem overtakenOnce_of_all (l : List α) (h : ∀ y ∈ l, ∀ x ∈ l, R (key y) (key x)) :
    OvertakenOnce key R late l := by
  induction l using List.reverseRecOn with
  | nil => exact .nil
  | append_singleton l x ih =>
    refine .keep (ih fun y hy z hz => ?_) fun y hy => ?_
    · exact h y (List.mem_append_left _ hy) z (List.mem_append_left _ hz)
    · exact h y (List.mem_append_left _ hy) x (by simp)

theorem ordered_of_all (h : ∀ y ∈ d.contents, ∀ x ∈ d.contents, R (key y) (key x))
    (hlate : ∀ y ∈ d.held, late y) : Ordered key R late d := by
  refine ⟨overtakenOnce_of_all _ fun y hy x hx => ?_,fun y hy x hx => ?_,?_,hlate⟩
  · exact h y (List.mem_append_left _ hy) x (List.mem_append_left _ hx)
  · exact h y (List.mem_append_left _ hy) x (List.mem_append_right _ hx)
  · refine List.pairwise_of_forall_mem_list fun y hy x hx => ?_
    exact h y (List.mem_append_right _ hy) x (List.mem_append_right _ hx)

theorem bounded_empty : Bounded key R late (⟨[],none,[]⟩ : DelayLine α) :=
  ⟨by simp [DelayLine.waiting,Stragglers],by simp⟩

theorem bounded_of_all (h : ∀ y ∈ d.contents, ∀ x ∈ d.contents, R (key y) (key x))
    (hlate : ∀ y ∈ d.held, late y) : Bounded key R late d := by
  refine ⟨stragglers_of_all (fun k hk => absurd hk (Set.notMem_empty k)) h,fun y hy => ?_⟩
  refine ⟨hlate y hy,fun x hx => h x (List.mem_append_left _ hx) y ?_⟩
  rw [contents,waiting,Option.mem_def.mp hy]
  simp

theorem Ordered.push (h : Ordered key R late d) {x : α}
    (hx : ∀ y ∈ d.passed ++ d.waiting, R (key y) (key x)) : Ordered key R late (d.push x) := by
  have hw : (d.push x).waiting = d.waiting ++ [x] := by
    simp [DelayLine.waiting,DelayLine.push]
  refine ⟨h.passed,?_,?_,h.held⟩
  · intro y hy z hz
    rw [hw,List.mem_append,List.mem_singleton] at hz
    rcases hz with hz | rfl
    · exact h.ahead y hy z hz
    · exact hx y (List.mem_append_left _ hy)
  · rw [hw,List.pairwise_append]
    refine ⟨h.waiting,List.pairwise_singleton _ _,?_⟩
    intro y hy z hz
    rw [List.mem_singleton.mp hz]
    exact hx y (List.mem_append_right _ hy)

theorem ordered_passed {p q : List α} {x : α} (hp : OvertakenOnce key R late p)
    (ha : ∀ y ∈ p, ∀ z ∈ x :: q, R (key y) (key z))
    (hw : (x :: q).Pairwise fun y z => R (key y) (key z)) :
    Ordered key R late ⟨p ++ [x],none,q⟩ := by
  obtain ⟨hx,hq⟩ := List.pairwise_cons.mp hw
  refine ⟨hp.keep fun y hy => ha y hy x List.mem_cons_self,fun y hy z hz => ?_,hq,by simp⟩
  rcases List.mem_append.mp hy with hy | hy
  · exact ha y hy z (List.mem_cons_of_mem x hz)
  · exact List.mem_singleton.mp hy ▸ hx z hz

theorem Ordered.step (hkey : ∀ x, key (mark x) = key x) (hmark : ∀ x, late (mark x))
    (h : Ordered key R late d) (hs : Step mark admits d d') : Ordered key R late d' := by
  obtain ⟨hp,ha,hw,hh⟩ := h
  cases hs with
  | @drop p y x q =>
    have hsub : (⟨p,y,q⟩ : DelayLine α).waiting.Sublist (⟨p,y,x :: q⟩ : DelayLine α).waiting :=
      List.Sublist.append_left (List.sublist_cons_self x q) _
    exact ⟨hp,fun z hz w hw => ha z hz w (hsub.subset hw),hw.sublist hsub,hh⟩
  | pass | release => exact ordered_passed hp ha hw
  | @overtake p y x q =>
    simp only [DelayLine.waiting,Option.toList_some,List.singleton_append,List.mem_cons,
      forall_eq_or_imp,List.pairwise_cons] at ha hw ⊢
    refine ⟨.swap hp (fun z hz => (ha z hz).2.1) (fun z hz => (ha z hz).1) hw.1.1
      (hh y rfl),?_,hw.2.2,by simp⟩
    intro z hz w hwq
    simp only [List.mem_append,List.mem_cons,List.not_mem_nil,or_false] at hz
    rcases hz with hz | rfl | rfl
    · exact (ha z hz).2.2 w hwq
    · exact hw.2.1 w hwq
    · exact hw.1.2 w hwq
  | @hold p x q _ =>
    simp only [DelayLine.waiting,Option.toList_none,List.nil_append,List.mem_cons,
      forall_eq_or_imp,List.pairwise_cons] at ha hw
    refine ⟨hp,?_,?_,?_⟩
    · simpa [DelayLine.waiting,hkey] using ha
    · simpa [DelayLine.waiting,hkey] using hw
    · simpa using hmark x

-- what may not follow `x` is at most the next element after it
theorem Ordered.blocked (h : Ordered key R late d) {l m : List α} {x q z : α}
    (hpassed : d.passed = l ++ q :: m) (hx : x ∈ l) (hz : ¬R (key x) (key z)) :
    z ∉ m ++ d.waiting := by
  intro hm
  rcases List.mem_append.mp hm with hm | hm
  · exact (hpassed ▸ h.passed).blocked hx hz hm
  · exact hz (h.ahead x (by simp [hpassed,hx]) z hm)

theorem Ordered.blocked_of_two (h : Ordered key R late d) {l m : List α} {a b z : α}
    (hpassed : d.passed = l ++ m) (ha : a ∈ l) (hb : b ∈ l) (hne : a ≠ b)
    (hza : ¬R (key a) (key z)) (hzb : ¬R (key b) (key z)) : z ∉ m ++ d.waiting := by
  obtain ⟨l₁,l₂,rfl⟩ := List.append_of_mem ha
  intro hm
  rcases List.mem_append.mp hb with hb | hb
  · exact h.blocked (l := l₁) (q := a) (m := l₂ ++ m) (by simp [hpassed]) hb hzb
      (by rw [List.append_assoc]; exact List.mem_append_right _ hm)
  · have hb := (List.mem_cons.mp hb).resolve_left (Ne.symm hne)
    obtain ⟨m₁,m₂,rfl⟩ := List.append_of_mem hb
    exact h.blocked (l := l₁ ++ a :: m₁) (q := b) (m := m₂ ++ m) (by simp [hpassed]) (by simp) hza
      (by rw [List.append_assoc]; exact List.mem_append_right _ hm)

theorem Bounded.push (h : Bounded key R late d) {x : α}
    (hx : Straggles key R late {k | ∃ y ∈ d.passed ++ d.waiting, key y = k} x) :
    Bounded key R late (d.push x) := by
  refine ⟨?_,h.held⟩
  have hw : (d.push x).passed ++ (d.push x).waiting = (d.passed ++ d.waiting) ++ [x] := by
    simp [DelayLine.waiting,DelayLine.push]
  rw [hw]
  exact h.line.snoc (by simpa using hx)

theorem Bounded.step (hkey : ∀ x, key (mark x) = key x) (hmark : ∀ x, late (mark x))
    (hadm : ∀ x, admits x → ¬late x)
    (h : Bounded key R late d) (hs : Step mark admits d d') : Bounded key R late d' := by
  obtain ⟨hl,hh⟩ := h
  cases hs with
  | @drop p y x q =>
    refine ⟨?_,hh⟩
    simp only [DelayLine.waiting,← List.append_assoc] at hl ⊢
    rw [stragglers_append] at hl ⊢
    exact ⟨hl.1,hl.2.tail⟩
  | pass => exact ⟨by simpa [DelayLine.waiting] using hl,by simp⟩
  | @overtake p y x q =>
    obtain ⟨hy,hyp⟩ := hh y rfl
    refine ⟨?_,by simp⟩
    simp only [DelayLine.waiting,Option.toList_some,Option.toList_none,List.nil_append,
      List.append_assoc,List.cons_append] at hl ⊢
    rw [stragglers_append] at hl ⊢
    obtain ⟨hp,_,hx,hq⟩ := hl
    refine ⟨hp,hx.anti (Set.subset_insert _ _),.inr ⟨hy,key x,?_⟩,by rwa [Set.insert_comm]⟩
    rintro k (rfl | hk)
    · exact .inr rfl
    · obtain ⟨z,hz,rfl⟩ := by simpa using hk
      exact .inl (hyp z hz)
  | @hold p x q hax =>
    simp only [DelayLine.waiting,Option.toList_none,List.nil_append] at hl ⊢
    rw [stragglers_append] at hl
    obtain ⟨hp,hx,hq⟩ := hl
    have hall : ∀ z ∈ p, R (key z) (key x) := by
      rcases hx with hx | ⟨hlx,_⟩
      · exact fun z hz => hx _ (.inr ⟨z,hz,rfl⟩)
      · exact absurd hlx (hadm x hax)
    constructor
    · refine stragglers_append.mpr ⟨hp,.inl ?_,by rwa [hkey]⟩
      rintro k (hk | ⟨z,hz,rfl⟩)
      · exact absurd hk (Set.notMem_empty k)
      · exact hkey x ▸ hall z hz
    · simpa [hkey] using And.intro (hmark x) hall
  | release => exact ⟨by simpa [DelayLine.waiting] using hl,by simp⟩

theorem waiting_map {β : Type} (f : α → β) (d : DelayLine α) : (d.map f).waiting = d.waiting.map f := by
  cases hheld : d.held <;> simp [waiting,map,hheld]

theorem mem_contents_map {β : Type} {f : α → β} {y : β} (h : y ∈ (d.map f).contents) :
    ∃ x ∈ d.contents, f x = y := by
  rw [contents,waiting_map,map,← List.map_append] at h
  exact List.mem_map.mp h

theorem All.map {β : Type} {P : α → Prop} {Q : β → Prop} {f : α → β}
    (hf : ∀ x, P x → Q (f x)) (h : d.All P) : (d.map f).All Q := by
  intro y hy
  obtain ⟨x,hx,rfl⟩ := mem_contents_map hy
  exact hf x (h x hx)

-- what comes after the first part of a line may pass over one key of that part
theorem Bounded.straggles {l m : List α} (h : Bounded key R late d) (hpassed : d.passed = l ++ m)
    {x : α} (hx : x ∈ m ++ d.waiting) : Straggles key R late {k | ∃ y ∈ l, key y = k} x := by
  obtain ⟨r₁,r₂,hr⟩ := List.append_of_mem hx
  have hline := h.line
  rw [hpassed,List.append_assoc,hr,stragglers_append,stragglers_append] at hline
  refine hline.2.2.1.anti ?_
  rintro _ ⟨y,hy,rfl⟩
  exact .inl (.inr ⟨y,hy,rfl⟩)

end DelayLine
end Library
