import Mathlib.Data.List.Basic

namespace Library

-- a word split at its last `sep` that no later letter blocks, or at its end when there is none
namespace LastSeparator

variable {α : Type} (sep : α) (blocks : α → Prop)

-- every `sep` in the word is followed by a letter that blocks
def Closed (word : List α) : Prop := ∀ s e, word = s ++ sep :: e → ∃ c ∈ e, blocks c

def Open (tail : List α) : Prop := ∃ e, tail = sep :: e ∧ ∀ c ∈ e, c ≠ sep ∧ ¬blocks c

structure Split (word stem tail : List α) : Prop where
  append : stem ++ tail = word
  last : tail = [] ∧ Closed sep blocks word ∨ Open sep blocks tail

def tailOf [DecidableEq α] [DecidablePred blocks] : List α → List α
  | [] => []
  | c :: word =>
    if tailOf word ≠ [] then tailOf word
    else if c = sep ∧ ∀ d ∈ word, ¬blocks d then c :: word else []

variable {sep : α} {blocks : α → Prop} {word stem tail : List α}

theorem closed_nil : Closed sep blocks [] := by
  intro s e h
  cases s <;> cases h

theorem Closed.not_open (h : Closed sep blocks (stem ++ tail)) (htail : Open sep blocks tail) :
    False := by
  obtain ⟨e,rfl,hclean⟩ := htail
  obtain ⟨c,hc,hblocks⟩ := h stem e rfl
  exact (hclean c hc).2 hblocks

theorem Open.length_le {stem' tail' : List α} (h : Open sep blocks tail)
    (h' : Open sep blocks tail') (happend : stem ++ tail = stem' ++ tail') :
    stem.length ≤ stem'.length := by
  obtain ⟨e,rfl,hclean⟩ := h
  obtain ⟨e',rfl,hclean'⟩ := h'
  by_contra hlt
  rcases List.append_eq_append_iff.mp happend with ⟨mid,rfl,-⟩ | ⟨mid,rfl,hmid⟩
  · simp at hlt
  · cases mid with
    | nil => simp at hlt
    | cons c mid =>
      have hmem : sep ∈ e' := by
        rw [(List.cons.inj hmid).2]
        simp
      exact (hclean' sep hmem).1 rfl

theorem Split.unique {stem' tail' : List α} (h : Split sep blocks word stem tail)
    (h' : Split sep blocks word stem' tail') : stem = stem' ∧ tail = tail' := by
  have happend : stem ++ tail = stem' ++ tail' := h.append.trans h'.append.symm
  have hlength : stem.length = stem'.length := by
    rcases h.last with ⟨rfl,hclosed⟩ | hopen
    · rcases h'.last with ⟨rfl,-⟩ | hopen'
      · simpa using congrArg List.length happend
      · exact ((h'.append ▸ hclosed).not_open hopen').elim
    · rcases h'.last with ⟨rfl,hclosed'⟩ | hopen'
      · exact ((h.append ▸ hclosed').not_open hopen).elim
      · exact Nat.le_antisymm (hopen.length_le hopen' happend)
          (hopen'.length_le hopen happend.symm)
  exact List.append_inj happend hlength

theorem closed_of_not_mem (h : sep ∉ word) : Closed sep blocks word := by
  rintro s e rfl
  exact absurd (List.mem_append_right s List.mem_cons_self) h

theorem Closed.append {word' : List α} (h : Closed sep blocks word)
    (h' : Closed sep blocks word') : Closed sep blocks (word ++ word') := by
  intro s e he
  rcases List.append_eq_append_iff.mp he with ⟨mid,-,hmid⟩ | ⟨mid,hword,hmid⟩
  · exact h' mid e hmid
  · cases mid with
    | nil => exact h' [] e hmid.symm
    | cons c mid =>
      obtain ⟨rfl,rfl⟩ := List.cons.inj hmid
      obtain ⟨d,hd,hblocks⟩ := h s mid hword
      exact ⟨d,List.mem_append_left word' hd,hblocks⟩

theorem Split.prepend {pre : List α} (h : Split sep blocks word stem tail)
    (hpre : Closed sep blocks pre) : Split sep blocks (pre ++ word) (pre ++ stem) tail := by
  refine ⟨by rw [List.append_assoc,h.append],?_⟩
  rcases h.last with ⟨htail,hclosed⟩ | hopen
  · exact Or.inl ⟨htail,hpre.append hclosed⟩
  · exact Or.inr hopen

theorem Split.insert {mid : List α} (h : Split sep blocks word stem tail) (hmid : sep ∉ mid) :
    Split sep blocks (stem ++ mid ++ tail) (stem ++ mid) tail := by
  refine ⟨rfl,?_⟩
  rcases h.last with ⟨rfl,hclosed⟩ | hopen
  · have hstem : Closed sep blocks stem := by
      rw [← h.append,List.append_nil] at hclosed
      exact hclosed
    rw [List.append_nil]
    exact Or.inl ⟨rfl,hstem.append (closed_of_not_mem hmid)⟩
  · exact Or.inr hopen

section Computed

variable [DecidableEq α] [DecidablePred blocks]

def stemOf (sep : α) (blocks : α → Prop) [DecidablePred blocks] (word : List α) : List α :=
  word.take (word.length - (tailOf sep blocks word).length)

theorem tailOf_suffix (word : List α) : tailOf sep blocks word <:+ word := by
  induction word with
  | nil => exact List.suffix_rfl
  | cons c word ih =>
    rw [tailOf]
    split_ifs
    · exact ih.trans (List.suffix_cons c word)
    · exact List.suffix_rfl
    · exact List.nil_suffix

theorem tailOf_last (word : List α) :
    tailOf sep blocks word = [] ∧ Closed sep blocks word ∨ Open sep blocks (tailOf sep blocks word) := by
  induction word with
  | nil => exact Or.inl ⟨rfl,closed_nil⟩
  | cons c word ih =>
    rw [tailOf]
    rcases ih with ⟨htail,hclosed⟩ | hopen
    · rw [if_neg (not_not.mpr htail)]
      split_ifs with hlast
      · obtain ⟨rfl,hclean⟩ := hlast
        refine Or.inr ⟨word,rfl,fun d hd => ⟨?_,hclean d hd⟩⟩
        rintro rfl
        obtain ⟨s,e,he⟩ := List.append_of_mem hd
        obtain ⟨b,hb,hblocks⟩ := hclosed s e he
        exact hclean b (he ▸ List.mem_append_right s (List.mem_cons_of_mem d hb)) hblocks
      · refine Or.inl ⟨rfl,fun s e he => ?_⟩
        cases s with
        | nil =>
          obtain ⟨rfl,rfl⟩ := List.cons.inj he
          simpa using hlast
        | cons d s => exact hclosed s e (List.cons.inj he).2
    · have hne : tailOf sep blocks word ≠ [] := by
        obtain ⟨e,he,-⟩ := hopen
        rw [he]
        exact List.cons_ne_nil sep e
      rw [if_pos hne]
      exact Or.inr hopen

theorem split_tailOf (word : List α) :
    Split sep blocks word (stemOf sep blocks word) (tailOf sep blocks word) :=
  ⟨List.suffix_iff_eq_append.mp (tailOf_suffix word),tailOf_last word⟩

end Computed

end LastSeparator
end Library
