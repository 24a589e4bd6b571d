import FtpOverUdp.Wire.Access

namespace FtpOverUdp

def AllInBounds (accesses : List Access) : Prop := ∀ a ∈ accesses, a.InBounds

theorem allInBounds_nil : AllInBounds [] := nofun

theorem allInBounds_cons {a : Access} {accesses : List Access} (ha : a.InBounds)
    (hrest : AllInBounds accesses) : AllInBounds (a :: accesses) :=
  List.forall_mem_cons.mpr ⟨ha,hrest⟩

theorem allInBounds_append {accesses more : List Access} (h : AllInBounds accesses)
    (hmore : AllInBounds more) : AllInBounds (accesses ++ more) :=
  List.forall_mem_append.mpr ⟨h,hmore⟩

namespace Sender

-- the slots of the packets that are still to be sent can be computed in an `int`
structure Guarded (s : Sender) : Prop where
  origin : s.currentWindowOrigin ≤ s.numberOfPackets
  seed : s.currentWindowOrigin < s.numberOfPackets →
    0 ≤ s.sequenceSeed ∧ s.numberOfPackets + s.sequenceSeed < 2 ^ 31

variable {s s' : Sender}

theorem Guarded.advance (h : s.Guarded) (ha : s.Advances s') : s'.Guarded := by
  constructor
  · exact ha.bounded h.origin
  · have hlater := ha.later
    rw [ha.packets,ha.seed]
    exact fun hlt => h.seed (by omega)

section Accesses

variable (hlo : 0 ≤ s.sequenceSeed) (hhi : s.numberOfPackets + s.sequenceSeed < 2 ^ 31)
include hlo hhi

theorem normalizeAccesses_inBounds : AllInBounds s.normalizeAccesses := by
  intro a ha
  obtain ⟨i,hi,rfl⟩ := List.mem_map.mp ha
  have hlt := of_decide_eq_true (List.mem_filter.mp hi).2
  apply slotAccess_inBounds
  · omega
  · omega

theorem slideAccesses_inBounds (n : ℕ) : AllInBounds (slideAccesses n s) := by
  induction n generalizing s with
  | zero => exact allInBounds_nil
  | succ n ih =>
    rw [slideAccesses]
    split_ifs with hlt
    · apply allInBounds_cons
      · apply slotAccess_inBounds
        · omega
        · omega
      · split
        · split_ifs
          · exact ih hlo hhi
          · exact allInBounds_nil
        · exact allInBounds_nil
    · exact allInBounds_nil

end Accesses

theorem Guarded.processAck_inBounds (h : s.Guarded) {sequenceNumber : ℤ}
    (hnum : 0 ≤ sequenceNumber ∧ sequenceNumber < sequenceRange) :
    AllInBounds (s.processAckAccesses sequenceNumber) := by
  refine allInBounds_cons (a := .slot sequenceNumber) hnum ?_
  split
  · rename_i index hindex
    have hacked := advances_acknowledgeSlot s index
    have hguarded := h.advance hacked
    dsimp only
    generalize s.acknowledgeSlot index = acked at hguarded
    split_ifs with hend
    · exact allInBounds_nil
    · obtain ⟨hlo,hhi⟩ := hguarded.seed (lt_of_le_of_ne hguarded.origin hend)
      apply allInBounds_append (slideAccesses_inBounds hlo hhi _)
      split
      · rename_i slid hslid
        have hmoved := advances_slide hslid
        rw [← hmoved.seed] at hlo
        rw [← hmoved.seed,← hmoved.packets] at hhi
        split_ifs
        · exact allInBounds_cons (slotAccess_inBounds (by omega) hhi) allInBounds_nil
        · exact normalizeAccesses_inBounds hlo hhi
      · exact allInBounds_nil
  · exact allInBounds_nil

theorem guarded_create (serverId clientId : ℤ) : (create serverId clientId).Guarded :=
  ⟨le_rfl,fun hlt => absurd hlt (Nat.lt_irrefl _)⟩

def FirstNumber (sequenceNumber : ℤ) (contents : List UInt8) : Prop :=
  contents ≠ [] → 0 ≤ sequenceNumber ∧ packetCount contents.length + sequenceNumber < 2 ^ 31

theorem packetCount_pos_iff (n : ℕ) : 0 < packetCount n ↔ n ≠ 0 := by
  simp only [packetCount,bufferLength]
  split_ifs <;> omega

theorem Loads.guarded {sequenceNumber : ℤ} {contents : List UInt8}
    (h : Loads sequenceNumber contents s s') (hfirst : FirstNumber sequenceNumber contents) :
    s'.Guarded := by
  constructor
  · rw [h.origin]
    exact Nat.zero_le _
  · rw [h.origin,h.packets,h.seed,packetCount_pos_iff]
    exact fun hne => hfirst fun hnil => hne (by rw [hnil]; rfl)

theorem Guarded.load_inBounds (h : s.Guarded) (horigin : s.currentWindowOrigin = 0) :
    AllInBounds s.normalizeAccesses := by
  by_cases hlt : s.currentWindowOrigin < s.numberOfPackets
  · exact normalizeAccesses_inBounds (h.seed hlt).1 (h.seed hlt).2
  · intro a ha
    obtain ⟨i,hi,-⟩ := List.mem_map.mp ha
    have := of_decide_eq_true (List.mem_filter.mp hi).2
    omega

end Sender

namespace Receiver

variable {self : Receiver} {msg : Msg}

theorem normalizeAccesses_inBounds (n : ℕ) (hlo : 0 ≤ self.sequenceSeed)
    (hhi : self.windowOrigin + self.sequenceSeed + n < 2 ^ 31 + 1) :
    AllInBounds (normalizeAccesses n self) := by
  induction n generalizing self with
  | zero => exact allInBounds_nil
  | succ n ih =>
    apply allInBounds_cons
    · apply slotAccess_inBounds
      · omega
      · push_cast at hhi
        omega
    · split
      · split
        · apply ih
          · exact hlo
          · simp only [completeHead]
            push_cast at hhi ⊢
            omega
        · exact allInBounds_nil
      · exact allInBounds_nil

-- a number that the window test lets through is a slot, and so are those that follow it
structure Takes (rc : Receiver) (sequenceNumber : ℤ) : Prop where
  counts : rc.windowOrigin + rc.sequenceSeed + sequenceRange ≤ 2 ^ 31
  slot : rc.isSequenceNumberInWindow sequenceNumber →
    0 ≤ rc.sequenceSeed ∧ 0 ≤ sequenceNumber ∧ sequenceNumber < sequenceRange

theorem eofAccesses_inBounds (self : Receiver) {msg : Msg} (heof : isEofMsg msg = true) :
    AllInBounds (self.handleMsgAccesses msg) := by
  unfold handleMsgAccesses
  rw [if_pos heof]
  split_ifs
  · exact allInBounds_nil
  · exact allInBounds_nil

theorem Takes.inBounds (h : self.Takes msg.sequenceNumber)
    (hlength : 0 ≤ msg.length ∧ msg.length ≤ bufferLength) :
    AllInBounds (self.handleMsgAccesses msg) := by
  have hcounts := h.counts
  unfold handleMsgAccesses
  split_ifs with hnsf heof hwindow
  · exact allInBounds_nil
  · exact allInBounds_nil
  · obtain ⟨hseed,hnum⟩ := h.slot hwindow
    refine allInBounds_cons (a := .slot msg.sequenceNumber) hnum ?_
    split
    · split_ifs
      · exact allInBounds_nil
      · refine allInBounds_cons (a := .copy msg.length bufferLength) hlength ?_
        apply normalizeAccesses_inBounds
        · exact hseed
        · simp only [register]
          omega
    · exact allInBounds_nil
  · exact allInBounds_nil

end Receiver
end FtpOverUdp
