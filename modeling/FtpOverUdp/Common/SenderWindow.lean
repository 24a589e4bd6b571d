import FtpOverUdp.Common.Sender
import Mathlib.Data.List.Range

namespace FtpOverUdp

structure Transmission where
  serverId : ℤ
  clientId : ℤ
  contents : List UInt8
  seed : Slot

namespace Transmission

variable (x : Transmission)

def count : ℕ := Sender.packetCount x.contents.length

def packet (i : ℕ) : List UInt8 := (x.contents.drop (i * bufferLength)).take bufferLength

def eof : List UInt8 := eofText ++ [0] ++ encodeInt x.contents.length

def message (i : ℕ) : Msg :=
  if i < x.count
  then (SenderThread.create x.serverId x.clientId .resp (residue x.seed i).val (x.packet i)).msg
  else (SenderThread.create x.serverId x.clientId .respErr (residue x.seed i).val x.eof).msg

def span (o : ℕ) : ℕ := if o < x.count then min (o + windowSize) x.count else x.count + 1

theorem count_bounds (h : x.contents ≠ []) :
    0 < x.count ∧ (x.count - 1) * bufferLength < x.contents.length ∧
      x.contents.length ≤ x.count * bufferLength := by
  have hl := List.length_pos_iff.mpr h
  simp only [count,Sender.packetCount,bufferLength]
  split_ifs <;> omega

theorem span_le (o : ℕ) (ho : o ≤ x.count) : o ≤ x.span o ∧ x.span o ≤ o + windowSize ∧
    x.span o ≤ x.count + 1 := by
  simp only [span,windowSize]
  split_ifs <;> omega

theorem span_mono {o o' : ℕ} (h : o ≤ o') : x.span o ≤ x.span o' := by
  simp only [span,windowSize]
  split_ifs <;> omega

end Transmission

namespace Sender

def flag (s : Sender) (j : ℕ) : Bool := (s.threads[j]?).any (·.isAcked)

structure Carries (x : Transmission) (s : Sender) : Prop where
  serverId : s.serverId = x.serverId
  clientId : s.clientId = x.clientId
  payload : s.completePayload = x.contents
  size : s.payloadSize = x.contents.length
  count : s.numberOfPackets = x.count
  seed : s.sequenceSeed = x.seed.val

structure Window (x : Transmission) (base o n : ℕ) (s : Sender) : Prop where
  carries : s.Carries x
  origin : s.currentWindowOrigin = o
  le : o ≤ n
  span : n ≤ o + windowSize
  length : s.threads.length = base + n
  state : ∀ k j, s.windowState k = some j ↔
    ∃ i, o ≤ i ∧ i < n ∧ residue x.seed i = k ∧ j = base + i
  pending : ∀ k j, s.currentWindow k = some j ↔ s.windowState k = some j ∧ s.flag j = false
  past : ∀ i < o, s.flag (base + i) = true
  message : ∀ i < n, (s.threads[base + i]?).map (·.msg) = some (x.message i)

structure Running (x : Transmission) (base : ℕ) (s : Sender) : Prop where
  window : s.Window x base s.currentWindowOrigin (x.span s.currentWindowOrigin)
  le : s.currentWindowOrigin ≤ x.count
  head : s.currentWindowOrigin < x.count → s.flag (base + s.currentWindowOrigin) = false

variable {x : Transmission} {base o n : ℕ} {s : Sender}

theorem flag_of_length_le {j : ℕ} (h : s.threads.length ≤ j) : s.flag j = false := by
  simp [flag,List.getElem?_eq_none h]

theorem flag_setFlag (s : Sender) (f j : ℕ) (hf : f < s.threads.length) :
    (s.setFlag f).flag j = (s.flag j || decide (j = f)) := by
  simp only [flag,setFlag,List.getElem?_modify]
  by_cases hj : f = j
  · subst hj
    simp [List.getElem?_eq_getElem hf]
  · simp [hj,Ne.symm hj]

theorem flag_startThread (s : Sender) (slot : Slot) (t : MsgType) (c : List UInt8) (j : ℕ) :
    (s.startThread slot t c).flag j = s.flag j := by
  simp only [flag,startThread]
  rcases Nat.lt_trichotomy j s.threads.length with h | h | h
  · rw [List.getElem?_append_left h]
  · subst h
    simp [SenderThread.create]
  · rw [List.getElem?_eq_none (by simp; omega),List.getElem?_eq_none h.le]

theorem message_modify {g : SenderThread → SenderThread} (hg : ∀ t, (g t).msg = t.msg)
    (threads : List SenderThread) (f j : ℕ) :
    ((threads.modify f g)[j]?).map (·.msg) = (threads[j]?).map (·.msg) := by
  rw [List.getElem?_modify]
  cases threads[j]? with
  | none => rfl
  | some t =>
    split_ifs
    · exact congrArg some (hg t)
    · rfl

theorem Carries.packet (h : s.Carries x) (hne : x.contents ≠ []) {i : ℕ} (hi : i < x.count) :
    s.packet i = x.packet i := by
  obtain ⟨_,hlo,hhi⟩ := x.count_bounds hne
  simp only [Sender.packet,Transmission.packet,h.payload,h.size,h.count]
  split_ifs with hlast
  · -- the last packet is what remains of the payload, at most one buffer
    rw [List.take_of_length_le (by simp),List.take_of_length_le]
    subst hlast
    rw [List.length_drop]
    simp only [bufferLength] at hhi hlo ⊢
    omega
  · rfl

theorem Window.state_none (h : s.Window x base o n) {k : Slot}
    (hk : ∀ i, o ≤ i → i < n → residue x.seed i ≠ k) : s.windowState k = none := by
  cases hs : s.windowState k with
  | none => rfl
  | some j =>
    obtain ⟨i,h1,h2,h3,_⟩ := (h.state k j).mp hs
    exact absurd h3 (hk i h1 h2)

theorem Window.state_inj (h : s.Window x base o n) {k k' : Slot} {j : ℕ}
    (hk : s.windowState k = some j) (hk' : s.windowState k' = some j) : k = k' := by
  obtain ⟨i,_,_,h1,h2⟩ := (h.state k j).mp hk
  obtain ⟨i',_,_,h1',h2'⟩ := (h.state k' j).mp hk'
  obtain rfl : i = i' := by omega
  exact h1.symm.trans h1'

theorem residue_fresh (seed : Slot) (hn : n < o + windowSize) :
    ∀ i, o ≤ i → i < n → residue seed i ≠ residue seed n := by
  intro i hi hin heq
  have := residue_inj heq hin.le (by simp only [sequenceRange,windowSize] at *; omega)
  omega

theorem Window.state_startThread (h : s.Window x base o n) (hn : n < o + windowSize)
    (t : MsgType) (c : List UInt8) (k : Slot) (j : ℕ) :
    (s.startThread (residue x.seed n) t c).windowState k = some j ↔
      ∃ i, o ≤ i ∧ i < n + 1 ∧ residue x.seed i = k ∧ j = base + i := by
  simp only [Sender.startThread,Function.update_apply]
  split_ifs with hk
  · rw [h.length,Option.some_inj]
    constructor
    · rintro rfl
      exact ⟨n,h.le,Nat.lt_succ_self n,hk.symm,rfl⟩
    · rintro ⟨i,hi,hin,hr,rfl⟩
      rcases Nat.lt_succ_iff_lt_or_eq.mp hin with hin | rfl
      · exact absurd (hr.trans hk) (residue_fresh x.seed hn i hi hin)
      · rfl
  · rw [h.state]
    constructor
    · rintro ⟨i,hi,hin,hr,hj⟩
      exact ⟨i,hi,hin.trans (Nat.lt_succ_self n),hr,hj⟩
    · rintro ⟨i,hi,hin,hr,hj⟩
      rcases Nat.lt_succ_iff_lt_or_eq.mp hin with hin | rfl
      · exact ⟨i,hi,hin,hr,hj⟩
      · exact absurd hr.symm hk

theorem Window.startThread (h : s.Window x base o n) (hn : n < o + windowSize)
    {t : MsgType} {c : List UInt8}
    (hmsg : (SenderThread.create x.serverId x.clientId t (residue x.seed n).val c).msg =
      x.message n) :
    (s.startThread (residue x.seed n) t c).Window x base o (n + 1) := by
  have hc := h.carries
  constructor
  · exact ⟨hc.1,hc.2,hc.3,hc.4,hc.5,hc.6⟩
  · exact h.origin
  · exact h.le.trans (Nat.le_succ n)
  · exact hn
  · simp [Sender.startThread,h.length,Nat.add_assoc]
  · exact h.state_startThread hn t c
  · intro k j
    rw [flag_startThread]
    simp only [Sender.startThread,Function.update_apply]
    split_ifs with hk
    · refine ⟨fun hj => ⟨hj,?_⟩,And.left⟩
      exact flag_of_length_le (Option.some.inj hj).le
    · exact h.pending k j
  · intro i hi
    rw [flag_startThread]
    exact h.past i hi
  · intro i hi
    simp only [Sender.startThread]
    rcases Nat.lt_succ_iff_lt_or_eq.mp hi with hi | rfl
    · rw [List.getElem?_append_left (by rw [h.length]; omega)]
      exact h.message i hi
    · rw [← h.length,List.getElem?_concat_length,Option.map_some,hc.serverId,hc.clientId,hmsg]

theorem Window.populateSlot (h : s.Window x base o n) (hne : x.contents ≠ []) {i : ℕ}
    (hi : i < windowSize) (hn : n = min (o + max i (n - o)) x.count) :
    ∃ s', s.populateSlot i = some s' ∧
      s'.Window x base o (min (o + max (i + 1) (n - o)) x.count) ∧
      (∀ j, s'.flag j = s.flag j) ∧ s'.isComplete = s.isComplete := by
  have hle := h.le
  simp only [Sender.populateSlot,h.origin,h.carries.count,h.carries.seed]
  split_ifs with hlt
  · have hslot : slotOf (wrap ((o : ℤ) + (x.seed.val : ℤ) + (i : ℤ))) =
        some (residue x.seed (o + i)) := by
      have := slotOf_wrap x.seed (o + i)
      rwa [show ((o + i : ℕ) : ℤ) + x.seed.val = o + x.seed.val + i by omega] at this
    rw [hslot,Option.map_some]
    refine ⟨_,rfl,?_⟩
    by_cases hfull : o + i < n
    · have hstate : s.windowState (residue x.seed (o + i)) = some (base + (o + i)) :=
        (h.state _ _).mpr ⟨o + i,by omega,hfull,rfl,rfl⟩
      rw [if_neg (by simp [hstate]),show min (o + max (i + 1) (n - o)) x.count = n by omega]
      exact ⟨h,fun _ => rfl,rfl⟩
    · obtain rfl : n = o + i := by omega
      have hnone : s.windowState (residue x.seed (o + i)) = none :=
        h.state_none (residue_fresh x.seed (by omega))
      rw [if_pos hnone,show min (o + max (i + 1) (o + i - o)) x.count = o + i + 1 by omega]
      refine ⟨?_,flag_startThread _ _ _ _,rfl⟩
      apply h.startThread (by omega)
      rw [h.carries.packet hne hlt,Transmission.message,if_pos hlt]
  · refine ⟨s,rfl,?_,fun _ => rfl,rfl⟩
    rwa [show min (o + max (i + 1) (n - o)) x.count = n by omega]

theorem Window.populateSlots (h : s.Window x base o n) (hne : x.contents ≠ []) (hn : n ≤ x.count)
    {f : ℕ} (hf : f ≤ windowSize) :
    ∃ s', (List.range f).foldlM Sender.populateSlot s = some s' ∧
      s'.Window x base o (min (o + max f (n - o)) x.count) ∧
      (∀ j, s'.flag j = s.flag j) ∧ s'.isComplete = s.isComplete := by
  induction f with
  | zero =>
    have hle := h.le
    have hsame : min (o + max 0 (n - o)) x.count = n := by omega
    refine ⟨s,rfl,?_,fun _ => rfl,rfl⟩
    rwa [hsame]
  | succ f ih =>
    obtain ⟨s₁,e₁,h₁,hf₁,hc₁⟩ := ih (Nat.le_of_succ_le hf)
    obtain ⟨s₂,e₂,h₂,hf₂,hc₂⟩ := h₁.populateSlot hne hf (by omega)
    refine ⟨s₂,?_,?_,fun j => (hf₂ j).trans (hf₁ j),hc₂.trans hc₁⟩
    · rw [List.range_succ,List.foldlM_append,e₁]
      simpa using e₂
    · have hwider : min (o + max (f + 1) (min (o + max f (n - o)) x.count - o)) x.count =
          min (o + max (f + 1) (n - o)) x.count := by omega
      rwa [hwider] at h₂

theorem Window.normalizeCurrentWindow (h : s.Window x base o n) (hne : x.contents ≠ [])
    (hn : n ≤ x.count) :
    ∃ s', s.normalizeCurrentWindow = some s' ∧
      s'.Window x base o (min (o + windowSize) x.count) ∧
      (∀ j, s'.flag j = s.flag j) ∧ s'.isComplete = s.isComplete := by
  have hspan := h.span
  have hfull : min (o + max windowSize (n - o)) x.count = min (o + windowSize) x.count := by omega
  rw [← hfull]
  exact h.populateSlots hne hn le_rfl

theorem Window.acknowledgeSlot_none (h : s.Window x base o n) {k : Slot}
    (hk : s.windowState k = none) : s.acknowledgeSlot k = s := by
  have hpend : s.currentWindow k = none := by
    by_contra hne
    obtain ⟨j,hj⟩ := Option.ne_none_iff_exists'.mp hne
    simp [((h.pending k j).mp hj).1] at hk
  simp only [Sender.acknowledgeSlot,hk]
  rw [Function.update_eq_self_iff.mpr hpend.symm]

theorem acknowledgeSlot_some {k : Slot} {f : ℕ} (hk : s.windowState k = some f) :
    s.acknowledgeSlot k =
      { s.setFlag f with currentWindow := Function.update s.currentWindow k none } := by
  simp only [Sender.acknowledgeSlot,hk]

theorem Window.flag_acknowledge (h : s.Window x base o n) {k : Slot} {f : ℕ}
    (hk : s.windowState k = some f) (j : ℕ) :
    (s.acknowledgeSlot k).flag j = (s.flag j || decide (j = f)) := by
  obtain ⟨i,-,hin,-,hf⟩ := (h.state k f).mp hk
  have hlen : f < s.threads.length := by
    rw [h.length]
    omega
  rw [acknowledgeSlot_some hk]
  exact flag_setFlag s f j hlen

theorem Window.acknowledge (h : s.Window x base o n) {k : Slot} {f : ℕ}
    (hk : s.windowState k = some f) : (s.acknowledgeSlot k).Window x base o n := by
  have hack := acknowledgeSlot_some hk
  have hflag := h.flag_acknowledge hk
  generalize s.acknowledgeSlot k = s' at *
  subst hack
  have hc := h.carries
  constructor
  · exact ⟨hc.1,hc.2,hc.3,hc.4,hc.5,hc.6⟩
  · exact h.origin
  · exact h.le
  · exact h.span
  · simp [Sender.setFlag,h.length]
  · exact h.state
  · intro k' j
    rw [hflag]
    simp only [Sender.setFlag,Function.update_apply]
    split_ifs with hkk
    · subst hkk
      simp only [hk,Option.some.injEq,false_iff,not_and]
      rintro rfl
      simp
    · rw [h.pending]
      refine and_congr_right fun hj => ?_
      have hne : j ≠ f := fun he => hkk (h.state_inj (he ▸ hj) hk)
      simp [hne]
  · intro i hi
    rw [hflag,h.past i hi]
    rfl
  · intro i hi
    rw [← h.message i hi]
    apply message_modify
    exact fun _ => rfl

theorem Window.acknowledgeSlot (h : s.Window x base o n) (k : Slot) :
    (s.acknowledgeSlot k).Window x base o n ∧
      (∀ j, (s.acknowledgeSlot k).flag j = (s.flag j || decide (s.windowState k = some j))) ∧
      (s.acknowledgeSlot k).isComplete = s.isComplete := by
  cases hk : s.windowState k with
  | none =>
    rw [h.acknowledgeSlot_none hk]
    exact ⟨h,fun j => by simp,rfl⟩
  | some f =>
    have hsame (j : ℕ) : decide (some f = some j) = decide (j = f) := by simp [eq_comm]
    refine ⟨h.acknowledge hk,fun j => ?_,?_⟩
    · rw [hsame]
      exact h.flag_acknowledge hk j
    · rw [acknowledgeSlot_some hk]
      rfl

theorem Window.slideHead (h : s.Window x base o n) (hlt : o < n)
    (hcur : s.currentWindow (residue x.seed o) = none) (hacked : s.flag (base + o) = true) :
    (s.slideHead (residue x.seed o)).Window x base (o + 1) n := by
  have hc := h.carries
  have hspan := h.span
  refine ⟨⟨hc.1,hc.2,hc.3,hc.4,hc.5,hc.6⟩,congrArg (· + 1) h.origin,hlt,by omega,h.length,?_,?_,?_,
    h.message⟩
  · intro k j
    simp only [Sender.slideHead,Function.update_apply]
    split_ifs with hk
    · subst hk
      simp only [false_iff]
      rintro ⟨i,hi,hin,hr,_⟩
      have := residue_inj hr.symm (by omega) (by simp only [sequenceRange,windowSize] at *; omega)
      omega
    · rw [h.state]
      constructor
      · rintro ⟨i,hi,hin,hr,hj⟩
        rcases Nat.eq_or_lt_of_le hi with rfl | hi
        · exact absurd hr.symm hk
        · exact ⟨i,hi,hin,hr,hj⟩
      · rintro ⟨i,hi,hin,hr,hj⟩
        exact ⟨i,by omega,hin,hr,hj⟩
  · intro k j
    simp only [Sender.slideHead,Function.update_apply]
    split_ifs with hk
    · simp [hk,hcur]
    · exact h.pending k j
  · intro i hi
    rcases Nat.lt_succ_iff_lt_or_eq.mp hi with hi | rfl
    · exact h.past i hi
    · exact hacked

theorem Window.slide {f : ℕ} (h : s.Window x base o n) (hn : n = min (o + f) x.count)
    (ho : o ≤ x.count) :
    ∃ s' o', Sender.slide f s = some s' ∧ s'.Window x base o' n ∧ o ≤ o' ∧ o' ≤ x.count ∧
      (o' < n → s'.flag (base + o') = false) ∧ (∀ j, s'.flag j = s.flag j) ∧
      s'.isComplete = s.isComplete := by
  induction f generalizing s o with
  | zero =>
    have hle := h.le
    exact ⟨s,o,rfl,h,le_rfl,ho,fun hlt => absurd hlt (by omega),fun _ => rfl,rfl⟩
  | succ f ih =>
    have hle := h.le
    have hspan := h.span
    simp only [Sender.slide,h.origin,h.carries.count,h.carries.seed]
    split_ifs with hlt
    · rw [slotOf_wrap,Option.bind_some]
      have hstate : s.windowState (residue x.seed o) = some (base + o) :=
        (h.state _ _).mpr ⟨o,le_rfl,by omega,rfl,rfl⟩
      split_ifs with hcur
      · have hacked : s.flag (base + o) = true := by
          by_contra hf
          have := (h.pending (residue x.seed o) (base + o)).mpr ⟨hstate,by simpa using hf⟩
          simp [this] at hcur
        have hnext := h.slideHead (by omega) hcur hacked
        obtain ⟨s',o',e,hw,h1,h2,h3,h4,h5⟩ := ih hnext (by omega) (by omega)
        exact ⟨s',o',e,hw,by omega,h2,h3,h4,h5⟩
      · obtain ⟨j,hj⟩ := Option.ne_none_iff_exists'.mp hcur
        obtain ⟨hs,hf⟩ := (h.pending _ _).mp hj
        rw [hstate] at hs
        exact ⟨s,o,rfl,h,le_rfl,ho,fun _ => (Option.some.inj hs) ▸ hf,fun _ => rfl,rfl⟩
    · exact ⟨s,o,rfl,h,le_rfl,ho,fun hlt' => absurd hlt' (by omega),fun _ => rfl,rfl⟩

theorem Window.checkEofAck (h : s.Window x base o n) (k : ℤ) : (s.checkEofAck k).Window x base o n := by
  have hc := h.carries
  exact ⟨⟨hc.1,hc.2,hc.3,hc.4,hc.5,hc.6⟩,h.origin,h.le,h.span,h.length,h.state,h.pending,h.past,
    h.message⟩

theorem Window.finalizePayload (h : s.Window x base x.count x.count) :
    ∃ s', s.finalizePayload = some s' ∧ s'.Window x base x.count (x.count + 1) ∧
      ∀ j, s'.flag j = s.flag j := by
  have hslot : slotOf (wrap ((x.count : ℤ) + x.seed.val)) = some (residue x.seed x.count) :=
    slotOf_wrap x.seed x.count
  have heof : s.eofMessage = x.eof := by
    simp only [Sender.eofMessage,Transmission.eof,h.carries.size]
  have hmsg : (SenderThread.create x.serverId x.clientId .respErr
      (residue x.seed x.count).val s.eofMessage).msg = x.message x.count := by
    rw [Transmission.message,if_neg (lt_irrefl _),heof]
  simp only [Sender.finalizePayload,h.carries.count,h.carries.seed,hslot,Option.map_some]
  exact ⟨_,rfl,h.startThread (by simp) hmsg,flag_startThread _ _ _ _⟩

-- the ACK of the last packet starts the EOF, any other one fills the window again
theorem Window.refill (h : s.Window x base o n) (hne : x.contents ≠ []) (ho : o ≤ x.count)
    (hn : n ≤ x.count) (hhead : o < n → s.flag (base + o) = false) :
    ∃ s', (if s.currentWindowOrigin = s.numberOfPackets then s.finalizePayload
        else s.normalizeCurrentWindow) = some s' ∧
      s'.Running x base ∧ s'.currentWindowOrigin = o ∧ ∀ j, s'.flag j = s.flag j := by
  rw [h.origin,h.carries.count]
  split_ifs with hdone
  · subst hdone
    obtain rfl : n = x.count := le_antisymm hn h.le
    obtain ⟨s',e,hw,hf⟩ := h.finalizePayload
    refine ⟨s',e,⟨?_,hw.origin.le,fun hlt => absurd hw.origin hlt.ne⟩,hw.origin,hf⟩
    rw [hw.origin,Transmission.span,if_neg (lt_irrefl _)]
    exact hw
  · obtain ⟨s',e,hw,hf,-⟩ := h.normalizeCurrentWindow hne hn
    have hlt : o < x.count := lt_of_le_of_ne ho hdone
    refine ⟨s',e,⟨?_,hw.origin.le.trans ho,fun _ => ?_⟩,hw.origin,hf⟩
    · rw [hw.origin,Transmission.span,if_pos hlt]
      exact hw
    · rw [hw.origin,hf]
      rcases Nat.lt_or_ge o n with hin | hout
      · exact hhead hin
      · apply flag_of_length_le
        rw [h.length]
        omega

theorem Running.processAck (h : s.Running x base) (hne : x.contents ≠ []) (k : Slot) :
    ∃ s', s.processAck k.val = some s' ∧ s'.Running x base ∧
      s.currentWindowOrigin ≤ s'.currentWindowOrigin ∧
      ∀ j, s'.flag j = (s.flag j || decide (s.windowState k = some j)) := by
  obtain ⟨hw,hle,hhead⟩ := h
  obtain ⟨ha,hf,-⟩ := hw.acknowledgeSlot k
  simp only [Sender.processAck,slotOf_slot,Option.bind_some,ha.carries.count,ha.origin]
  split_ifs with heof
  · have hchecked := ha.checkEofAck k.val
    have horigin : ((s.acknowledgeSlot k).checkEofAck k.val).currentWindowOrigin =
        s.currentWindowOrigin := hchecked.origin
    refine ⟨_,rfl,⟨?_,?_,?_⟩,horigin.ge,hf⟩
    · rw [horigin]
      exact hchecked
    · rw [horigin]
      exact hle
    · intro hlt
      rw [horigin] at hlt
      exact absurd heof hlt.ne
  · have hspan : x.span s.currentWindowOrigin =
        min (s.currentWindowOrigin + windowSize) x.count := if_pos (by omega)
    obtain ⟨s₁,o',hslid,hw₁,hmono,hcount,hunacked,hf₁,-⟩ := ha.slide hspan hle
    obtain ⟨s₂,hfilled,hrun,horigin,hf₂⟩ := hw₁.refill hne hcount (by omega) hunacked
    rw [hslid,Option.bind_some]
    refine ⟨s₂,hfilled,hrun,horigin ▸ hmono,fun j => ?_⟩
    rw [hf₂,hf₁,hf]

theorem Running.start {s₀ s₁ s₂ : Sender} {contents : List UInt8} {seed : Slot}
    (hne : contents ≠ []) (h₁ : s₀.initializePayload (some contents) seed.val = some s₁)
    (h₂ : s₁.send = some s₂) :
    s₂.Running ⟨s₀.serverId,s₀.clientId,contents,seed⟩ s₀.threads.length ∧
      s₂.currentWindowOrigin = 0 ∧ (∀ i, s₂.flag (s₀.threads.length + i) = false) ∧
      s₂.isComplete = false := by
  simp only [Sender.initializePayload,Option.bind_some] at h₁
  split_ifs at h₁ with hfits
  obtain rfl := Option.some.inj h₁
  let x : Transmission := ⟨s₀.serverId,s₀.clientId,contents,seed⟩
  have hw : Window x s₀.threads.length 0 0 { s₀ with
      numberOfPackets := packetCount contents.length
      payloadSize := contents.length
      completePayload := contents
      currentWindow := fun _ => none
      windowState := fun _ => none
      currentWindowOrigin := 0
      isComplete := false
      sequenceSeed := seed.val } :=
    ⟨⟨rfl,rfl,rfl,rfl,rfl,rfl⟩,rfl,le_rfl,Nat.zero_le _,rfl,by simp,by simp,by simp,by simp⟩
  obtain ⟨s₂',e,h,hf,hc⟩ := hw.normalizeCurrentWindow hne (Nat.zero_le _)
  obtain rfl := Option.some.inj (h₂.symm.trans e)
  have hpos := (x.count_bounds hne).1
  have hflags : ∀ i, s₂.flag (s₀.threads.length + i) = false := by
    intro i
    rw [hf]
    exact flag_of_length_le (Nat.le_add_right _ _)
  refine ⟨⟨?_,by rw [h.origin]; exact Nat.zero_le _,?_⟩,h.origin,hflags,hc⟩
  · rw [h.origin,Transmission.span,if_pos hpos]
    exact h
  · intro _
    rw [h.origin]
    exact hflags 0

theorem attempt_cases {k : ℕ} {fails : Bool} {s' : Sender} {a : Attempt}
    (h : s.attempt k fails = some (s',a)) :
    ∃ t, s.threads[k]? = some t ∧
      ((a = .sent t.msg ∧ t.isAcked = false ∧ s' = s) ∨
        (∀ m, a ≠ .sent m) ∧ s' = s.stopThread k) := by
  simp only [Sender.attempt,Option.bind_eq_some_iff] at h
  obtain ⟨t,ht,h⟩ := h
  refine ⟨t,ht,?_⟩
  split_ifs at h with hrun hack hfail
  · simp only [Option.some.injEq,Prod.mk.injEq] at h
    exact .inr ⟨fun m => by simp [← h.2],h.1.symm⟩
  · simp only [Option.some.injEq,Prod.mk.injEq] at h
    exact .inr ⟨fun m => by simp [← h.2],h.1.symm⟩
  · simp only [Option.some.injEq,Prod.mk.injEq] at h
    exact .inl ⟨h.2.symm,by simpa using hack,h.1.symm⟩

theorem flag_stopThread (s : Sender) (k j : ℕ) : (s.stopThread k).flag j = s.flag j := by
  simp only [flag,stopThread,List.getElem?_modify]
  cases s.threads[j]? with
  | none => rfl
  | some t => by_cases hk : k = j <;> simp [hk]

theorem Running.stopThread (h : s.Running x base) (k : ℕ) : (s.stopThread k).Running x base := by
  obtain ⟨hw,hle,hhead⟩ := h
  have hc := hw.carries
  refine ⟨⟨⟨hc.1,hc.2,hc.3,hc.4,hc.5,hc.6⟩,rfl,hw.le,hw.span,?_,hw.state,?_,?_,?_⟩,hle,?_⟩
  · simpa [Sender.stopThread] using hw.length
  · intro k' j
    rw [flag_stopThread]
    exact hw.pending k' j
  · intro i hi
    rw [flag_stopThread]
    exact hw.past i hi
  · intro i hi
    rw [← hw.message i hi]
    apply message_modify
    exact fun _ => rfl
  · intro hl
    rw [flag_stopThread]
    exact hhead hl

end Sender
end FtpOverUdp
