import FtpOverUdp.Common.Sender
import Mathlib.Order.Nat

namespace FtpOverUdp

def Slotted (n : ℤ) : Prop := 0 ≤ n ∧ n < sequenceRange

def Numbered (msg : Msg) : Prop := Slotted msg.sequenceNumber

theorem wrap_eq_emod {n : ℤ} (h : 0 ≤ n) : wrap n = n % sequenceRange :=
  Int.tmod_eq_emod_of_nonneg h

theorem slotted_wrap {n : ℤ} (h : 0 ≤ n) : Slotted (wrap n) := by
  rw [Slotted,wrap_eq_emod h]
  simp only [sequenceRange]
  omega

theorem slotted_next {n : ℤ} (h : 0 ≤ n) : Slotted (wrap (n + 1)) :=
  slotted_wrap (Int.add_nonneg h (by decide))

theorem Slotted.le {n : ℤ} (h : Slotted n) : 0 ≤ n ∧ n ≤ sequenceRange :=
  h.imp id Int.le_of_lt

namespace Sender

variable {s s' s'' : Sender}

def SendsNumbered (s : Sender) : Prop := ∀ t ∈ s.threads, Numbered t.msg

def runs (s : Sender) (j : ℕ) : Bool := (s.threads[j]?).any (·.running)

-- what `processAck` and what it calls do to the threads: none ends, and new ones start in their loop
structure Grows (s s' : Sender) : Prop where
  length : s.threads.length ≤ s'.threads.length
  old : ∀ j < s.threads.length, s'.runs j = s.runs j
  new : ∀ j, s.threads.length ≤ j → j < s'.threads.length → s'.runs j = true

theorem Grows.refl (s : Sender) : s.Grows s :=
  ⟨le_rfl,fun _ _ => rfl,fun _ hj hlt => absurd hlt (by omega)⟩

theorem grows_of_threads (h : s'.threads = s.threads) : s.Grows s' := by
  have hruns : s'.runs = s.runs := by
    funext j
    rw [runs,runs,h]
  exact ⟨h ▸ le_rfl,fun _ _ => by rw [hruns],fun _ hj hlt => absurd hlt (by rw [h]; omega)⟩

theorem Grows.trans (h : s.Grows s') (h' : s'.Grows s'') : s.Grows s'' := by
  constructor
  · exact h.length.trans h'.length
  · intro j hj
    rw [h'.old j (hj.trans_le h.length),h.old j hj]
  · intro j hj hlt
    rcases Nat.lt_or_ge j s'.threads.length with hin | hout
    · rw [h'.old j hin]
      exact h.new j hj hin
    · exact h'.new j hout hlt

theorem grows_setFlag (s : Sender) (f : ℕ) : s.Grows (s.setFlag f) := by
  have hlength : (s.setFlag f).threads.length = s.threads.length := by simp [setFlag]
  refine ⟨hlength.ge,fun j _ => ?_,fun j hj hlt => absurd hlt (by omega)⟩
  simp only [runs,setFlag,List.getElem?_modify]
  cases s.threads[j]? with
  | none => rfl
  | some t => by_cases hf : f = j <;> simp [hf]

theorem grows_startThread (s : Sender) (slot : Slot) (t : MsgType) (c : List UInt8) :
    s.Grows (s.startThread slot t c) := by
  constructor
  · simp [startThread]
  · intro j hj
    rw [runs,runs,startThread,List.getElem?_append_left hj]
  · intro j hj hlt
    obtain rfl : j = s.threads.length := by
      simp only [startThread,List.length_append,List.length_singleton] at hlt
      omega
    rw [runs,startThread,List.getElem?_concat_length]
    rfl

-- the transfer stays the one that was started, its window only moves on and its packets carry slots
structure Advances (s s' : Sender) : Prop where
  seed : s'.sequenceSeed = s.sequenceSeed
  packets : s'.numberOfPackets = s.numberOfPackets
  later : s.currentWindowOrigin ≤ s'.currentWindowOrigin
  bounded : s.currentWindowOrigin ≤ s.numberOfPackets → s'.currentWindowOrigin ≤ s'.numberOfPackets
  numbered : s.SendsNumbered → s'.SendsNumbered
  threads : s.Grows s'

theorem advances_refl (s : Sender) : s.Advances s := ⟨rfl,rfl,le_rfl,id,id,Grows.refl s⟩

theorem Advances.trans (h : s.Advances s') (h' : s'.Advances s'') : s.Advances s'' := by
  constructor
  · rw [h'.seed,h.seed]
  · rw [h'.packets,h.packets]
  · exact h.later.trans h'.later
  · exact fun hle => h'.bounded (h.bounded hle)
  · exact fun hnum => h'.numbered (h.numbered hnum)
  · exact h.threads.trans h'.threads

theorem sendsNumbered_startThread (h : s.SendsNumbered) (slot : Slot) (messageType : MsgType)
    (contents : List UInt8) : (s.startThread slot messageType contents).SendsNumbered := by
  intro t ht
  rcases List.mem_append.mp ht with ht | ht
  · exact h t ht
  · rw [List.mem_singleton.mp ht]
    constructor
    · exact Int.natCast_nonneg slot.val
    · exact Int.ofNat_lt.mpr slot.isLt

theorem sendsNumbered_setFlag (h : s.SendsNumbered) (flag : ℕ) : (s.setFlag flag).SendsNumbered := by
  intro t ht
  obtain ⟨i,hi⟩ := List.mem_iff_getElem?.mp ht
  change (s.threads.modify flag _)[i]? = some t at hi
  rw [List.getElem?_modify] at hi
  obtain ⟨t₀,ht₀,he⟩ := Option.map_eq_some_iff.mp hi
  have hold := h t₀ (List.mem_of_getElem? ht₀)
  rw [← he]
  split_ifs
  · exact hold
  · exact hold

theorem advances_startThread (s : Sender) (slot : Slot) (messageType : MsgType)
    (contents : List UInt8) : s.Advances (s.startThread slot messageType contents) :=
  ⟨rfl,rfl,le_rfl,id,fun h => sendsNumbered_startThread h slot messageType contents,
    grows_startThread s slot messageType contents⟩

theorem advances_populateSlot {i : ℕ} (h : s.populateSlot i = some s') : s.Advances s' := by
  unfold populateSlot at h
  split_ifs at h
  · obtain ⟨slot,-,rfl⟩ := Option.map_eq_some_iff.mp h
    split_ifs
    · exact advances_startThread ..
    · exact advances_refl s
  · exact Option.some.inj h ▸ advances_refl s

theorem advances_foldlM (is : List ℕ) (h : is.foldlM populateSlot s = some s') : s.Advances s' := by
  induction is generalizing s with
  | nil => exact Option.some.inj h ▸ advances_refl s
  | cons i is ih =>
    obtain ⟨mid,hmid,hrest⟩ := Option.bind_eq_some_iff.mp h
    exact (advances_populateSlot hmid).trans (ih hrest)

theorem advances_acknowledgeSlot (s : Sender) (index : Slot) :
    s.Advances (s.acknowledgeSlot index) := by
  unfold acknowledgeSlot
  dsimp only
  split
  · rename_i flag _
    exact ⟨rfl,rfl,le_rfl,id,fun h => sendsNumbered_setFlag h flag,
      (grows_setFlag s flag).trans (grows_of_threads rfl)⟩
  · exact ⟨rfl,rfl,le_rfl,id,id,grows_of_threads rfl⟩

theorem advances_slide {n : ℕ} (h : slide n s = some s') : s.Advances s' := by
  induction n generalizing s with
  | zero => exact Option.some.inj h ▸ advances_refl s
  | succ n ih =>
    rw [slide] at h
    split_ifs at h with hlt
    · obtain ⟨head,-,h⟩ := Option.bind_eq_some_iff.mp h
      split_ifs at h
      · have hhead : s.Advances (s.slideHead head) :=
          ⟨rfl,rfl,Nat.le_succ _,fun _ => hlt,id,grows_of_threads rfl⟩
        exact hhead.trans (ih h)
      · exact Option.some.inj h ▸ advances_refl s
    · exact Option.some.inj h ▸ advances_refl s

theorem advances_processAck {sequenceNumber : ℤ} (h : s.processAck sequenceNumber = some s') :
    s.Advances s' := by
  obtain ⟨index,-,h⟩ := Option.bind_eq_some_iff.mp h
  refine (advances_acknowledgeSlot s index).trans ?_
  dsimp only at h
  split_ifs at h
  · exact Option.some.inj h ▸ ⟨rfl,rfl,le_rfl,id,id,grows_of_threads rfl⟩
  · obtain ⟨slid,hslid,h⟩ := Option.bind_eq_some_iff.mp h
    refine (advances_slide hslid).trans ?_
    split_ifs at h
    · obtain ⟨slot,-,rfl⟩ := Option.map_eq_some_iff.mp h
      exact advances_startThread ..
    · exact advances_foldlM _ h

structure Loads (sequenceNumber : ℤ) (contents : List UInt8) (s s' : Sender) : Prop where
  seed : s'.sequenceSeed = sequenceNumber
  packets : s'.numberOfPackets = packetCount contents.length
  origin : s'.currentWindowOrigin = 0
  threads : s'.threads = s.threads

theorem loads_initializePayload {sequenceNumber : ℤ} {contents : List UInt8}
    (h : s.initializePayload (some contents) sequenceNumber = some s') :
    Loads sequenceNumber contents s s' := by
  simp only [initializePayload,Option.bind_some] at h
  split_ifs at h
  obtain rfl := Option.some.inj h
  exact ⟨rfl,rfl,rfl,rfl⟩

theorem load_cases {sequenceNumber : ℤ} {contents : List UInt8}
    (h : (s.initializePayload (some contents) sequenceNumber).bind send = some s') :
    ∃ loaded, Loads sequenceNumber contents s loaded ∧ loaded.Advances s' := by
  obtain ⟨loaded,hload,hsend⟩ := Option.bind_eq_some_iff.mp h
  exact ⟨loaded,loads_initializePayload hload,advances_foldlM _ hsend⟩

theorem sendsNumbered_load (hnum : s.SendsNumbered) {sequenceNumber : ℤ} {contents : List UInt8}
    (h : (s.initializePayload (some contents) sequenceNumber).bind send = some s') :
    s'.SendsNumbered := by
  obtain ⟨loaded,hloads,hsend⟩ := load_cases h
  refine hsend.numbered fun t ht => hnum t ?_
  rwa [← hloads.threads]

end Sender
end FtpOverUdp
