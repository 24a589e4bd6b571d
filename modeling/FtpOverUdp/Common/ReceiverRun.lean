import FtpOverUdp.Common.Receiver
import FtpOverUdp.Library.System
import Mathlib.Algebra.BigOperators.Fin
import Mathlib.Data.Fintype.BigOperators

namespace FtpOverUdp

open Library

-- a message whose header fields lie in the ranges of the protocol
structure Msg.Fits (msg : Msg) : Prop where
  number : 0 ≤ msg.sequenceNumber ∧ msg.sequenceNumber < sequenceRange
  length : 0 ≤ msg.length ∧ msg.length ≤ bufferLength

namespace Receiver

def step (self : Receiver) (msg : {msg : Msg // msg.Fits}) : Option Receiver :=
  if self.isPayloadComplete then none else (self.handleMsg msg.val).map (·.receiver)

def reception (rc₀ : Receiver) (seed : Slot) : System Receiver {msg : Msg // msg.Fits} where
  init rc := rc = rc₀.startNewPayload seed.val
  step := step

def buffered (self : Receiver) : ℕ := ∑ k : Slot, ((self.currentWindow k).elim 0 List.length)

structure Balanced (seed : Slot) (rc : Receiver) : Prop where
  seed : rc.sequenceSeed = seed.val
  total : rc.totalPayloadSize = (rc.completedSet.map List.length).sum + rc.buffered

structure GapFree (rc : Receiver) : Prop where
  window : ∀ k, rc.currentWindow k = none
  total : (rc.completedSet.map List.length).sum = rc.totalPayloadSize
  filled : ∃ payload drained, rc.getPayload = some (payload,drained) ∧
    payload.length = rc.totalPayloadSize ∧ payload.data.length = payload.length

def EofFindsNoGap (rc : Receiver) (msg : Msg) : Prop :=
  isEofMsg msg → decodeInt (msg.buffer.val.drop 4) = rc.totalPayloadSize →
    ∀ k, rc.currentWindow k = none

variable {rc rc' rc₀ : Receiver} {seed : Slot} {msg : Msg}

theorem buffered_update (window : Slot → Option (List UInt8)) (slot : Slot)
    (entry : Option (List UInt8)) :
    (∑ k, ((Function.update window slot entry k).elim 0 List.length)) +
      (window slot).elim 0 List.length =
    (∑ k, ((window k).elim 0 List.length)) + entry.elim 0 List.length := by
  have hold := Finset.add_sum_erase Finset.univ (fun k => (window k).elim 0 List.length)
    (Finset.mem_univ slot)
  have hnew := Finset.add_sum_erase Finset.univ
    (fun k => (Function.update window slot entry k).elim 0 List.length) (Finset.mem_univ slot)
  have hrest : ∑ k ∈ Finset.univ.erase slot,
      ((Function.update window slot entry k).elim 0 List.length) =
      ∑ k ∈ Finset.univ.erase slot, ((window k).elim 0 List.length) := by
    apply Finset.sum_congr rfl
    intro k hk
    rw [Function.update_of_ne (Finset.ne_of_mem_erase hk)]
  simp only [Function.update_self] at hnew
  omega

theorem Balanced.register (h : rc.Balanced seed) {slot : Slot} (data : List UInt8)
    (hempty : rc.currentWindow slot = none) : (rc.register slot data).Balanced seed := by
  constructor
  · exact h.seed
  · have hsum := buffered_update rc.currentWindow slot (some data)
    have htotal := h.total
    rw [hempty] at hsum
    simp only [buffered] at htotal
    simp only [Receiver.register,buffered,Option.elim_some,Option.elim_none] at hsum ⊢
    omega

theorem Balanced.completeHead (h : rc.Balanced seed) {slot : Slot} {data : List UInt8}
    (hslot : rc.currentWindow slot = some data) : (rc.completeHead slot data).Balanced seed := by
  constructor
  · exact h.seed
  · have hsum := buffered_update rc.currentWindow slot none
    have htotal := h.total
    rw [hslot] at hsum
    simp only [buffered] at htotal
    simp only [Receiver.completeHead,buffered,Option.elim_some,Option.elim_none,List.map_append,List.sum_append,
      List.map_singleton,List.sum_singleton] at hsum ⊢
    omega

theorem Balanced.normalizeBuffer (h : rc.Balanced seed) (n : ℕ) :
    ∃ rc', rc.normalizeBuffer n = some rc' ∧ rc'.Balanced seed ∧
      rc'.isComplete = rc.isComplete := by
  induction n generalizing rc with
  | zero => exact ⟨rc,rfl,h,rfl⟩
  | succ n ih =>
    have hslot : slotOf (wrap (rc.windowOrigin + rc.sequenceSeed)) =
        some (residue seed rc.windowOrigin) := by
      rw [h.seed]
      exact slotOf_wrap seed rc.windowOrigin
    simp only [Receiver.normalizeBuffer,hslot,Option.bind_some]
    cases hhead : rc.currentWindow (residue seed rc.windowOrigin) with
    | none => exact ⟨rc,rfl,h,rfl⟩
    | some data => exact ih (h.completeHead hhead)

theorem Balanced.handleData (h : rc.Balanced seed) (hfits : msg.Fits) :
    ∃ handled, rc.handleData msg = some handled ∧ handled.receiver.Balanced seed ∧
      handled.receiver.isComplete = rc.isComplete := by
  have hslot : slotOf msg.sequenceNumber = some ⟨msg.sequenceNumber.toNat,by
      have := hfits.number
      simp only [sequenceRange] at *
      omega⟩ := dif_pos hfits.number
  dsimp only [Receiver.handleData]
  split
  · rw [hslot,Option.bind_some]
    split
    · exact ⟨_,rfl,h,rfl⟩
    · rename_i hempty
      rw [if_pos hfits.length]
      obtain ⟨rc',hrun,hbalanced,hcomplete⟩ := (h.register
        (msg.buffer.copyOut msg.length.toNat) (by simpa using hempty)).normalizeBuffer sequenceRange
      exact ⟨_,by rw [hrun]; rfl,hbalanced,hcomplete⟩
  · exact ⟨_,rfl,h,rfl⟩

theorem isEofMsg_of_nsf (hnsf : msg.isText nsfText = true) : isEofMsg msg = false := by
  simp only [Msg.isText,isEofMsg,Bool.and_eq_true,decide_eq_true_eq] at hnsf ⊢
  rw [hnsf.2]
  simp only [Bool.and_eq_false_iff]
  exact .inr (by decide)

def completes (rc : Receiver) (msg : Msg) : Prop :=
  isEofMsg msg ∧ decodeInt (msg.buffer.val.drop 4) = rc.totalPayloadSize

-- only the EOF that carries the size counted so far changes `isComplete`, and it changes no slot
inductive Stepped (rc : Receiver) (msg : Msg) (seed : Slot) (rc' : Receiver) : Prop
  | finished (heof : rc.completes msg)
      (he : rc' = { rc with windowOrigin := rc.windowOrigin + 1,isComplete := true })
  | carriedOn (hnot : ¬rc.completes msg) (hbalanced : rc'.Balanced seed)
      (hopen : rc'.isComplete = false)

theorem Balanced.handleMsg (h : rc.Balanced seed) (hopen : rc.isComplete = false)
    (hfits : msg.Fits) :
    ∃ handled, rc.handleMsg msg = some handled ∧ rc.Stepped msg seed handled.receiver := by
  unfold Receiver.handleMsg
  split_ifs with hnsf heof
  · refine ⟨_,rfl,.carriedOn (fun hc => ?_) h hopen⟩
    rw [completes,isEofMsg_of_nsf hnsf.2] at hc
    exact absurd hc.1 Bool.false_ne_true
  · refine ⟨_,rfl,?_⟩
    unfold Receiver.handleEof
    split_ifs with hsize
    · exact .finished ⟨heof,hsize⟩ rfl
    · exact .carriedOn (fun hc => hsize hc.2) h hopen
  · obtain ⟨handled,hdata,hbalanced,hcomplete⟩ := h.handleData hfits
    exact ⟨handled,hdata,.carriedOn (fun hc => heof hc.1) hbalanced (hcomplete.trans hopen)⟩

theorem Balanced.step_defined (h : rc.Balanced seed) (hopen : rc.isComplete = false)
    (msg : {msg : Msg // msg.Fits}) :
    ∃ rc', rc.step msg = some rc' ∧ rc.Stepped msg.val seed rc' := by
  obtain ⟨handled,hrun,hstepped⟩ := h.handleMsg hopen msg.property
  refine ⟨handled.receiver,?_,hstepped⟩
  rw [step,isPayloadComplete,hopen,hrun]
  rfl

theorem Balanced.step (h : rc.Balanced seed) {msg : {msg : Msg // msg.Fits}}
    (hs : rc.step msg = some rc') : rc.Stepped msg.val seed rc' := by
  have hopen : rc.isComplete = false := by
    rw [Bool.eq_false_iff]
    intro hc
    rw [Receiver.step,isPayloadComplete,if_pos hc] at hs
    cases hs
  obtain ⟨rc'',hrun,hstepped⟩ := h.step_defined hopen msg
  exact Option.some.inj (hs.symm.trans hrun) ▸ hstepped

theorem Balanced.gapFree_iff (h : rc.Balanced seed) :
    GapFree { rc with windowOrigin := rc.windowOrigin + 1,isComplete := true } ↔
      ∀ k, rc.currentWindow k = none := by
  constructor
  · exact fun hg => hg.window
  · intro hwindow
    have hsum : (rc.completedSet.map List.length).sum = rc.totalPayloadSize := by
      have hbuffered : rc.buffered = 0 := by simp [buffered,hwindow]
      rw [h.total,hbuffered,Nat.add_zero]
    constructor
    · exact hwindow
    · exact hsum
    · refine ⟨_,_,rfl,rfl,?_⟩
      simpa [List.length_flatten] using hsum

theorem Balanced.gapFree_step_iff (h : rc.Balanced seed) {msg : {msg : Msg // msg.Fits}}
    (hs : rc.step msg = some rc') :
    ((rc'.isPayloadComplete = true → rc'.GapFree) ↔ rc.EofFindsNoGap msg.val) ∧
      rc'.Balanced seed := by
  cases h.step hs with
  | finished heof he =>
    subst he
    refine ⟨?_,h.seed,h.total⟩
    rw [h.gapFree_iff]
    exact ⟨fun hp _ _ => hp rfl,fun hc _ => hc heof.1 heof.2⟩
  | carriedOn hnot hbalanced hopen =>
    refine ⟨iff_of_true (fun hc => ?_) (fun heof hsize => absurd ⟨heof,hsize⟩ hnot),hbalanced⟩
    rw [isPayloadComplete,hopen] at hc
    cases hc

theorem balanced_startNewPayload (rc₀ : Receiver) (seed : Slot) :
    (rc₀.startNewPayload seed.val).Balanced seed := by
  constructor
  · rfl
  · simp [startNewPayload,buffered]

theorem balanced_of_reachable (h : (reception rc₀ seed).Reachable rc) : rc.Balanced seed :=
  (reception rc₀ seed).reachable_invariant (I := Balanced seed)
    (fun _ hs => hs ▸ balanced_startNewPayload rc₀ seed)
    (fun _ _ _ hi hs => (hi.gapFree_step_iff hs).2) h

theorem complete_payload_gap_free_iff (rc₀ : Receiver) (seed : Slot)
    (msgs : List {msg : Msg // msg.Fits}) :
    (∀ rc, (reception rc₀ seed).Reachable rc → rc.isPayloadComplete = false →
      ∀ msg, ∃ rc', rc.step msg = some rc') ∧
    ((reception rc₀ seed).Along (fun _ _ rc => rc.isPayloadComplete = true → rc.GapFree)
        (rc₀.startNewPayload seed.val) msgs ↔
      (reception rc₀ seed).Along (fun rc msg _ => rc.EofFindsNoGap msg.val)
        (rc₀.startNewPayload seed.val) msgs) := by
  constructor
  · intro rc hreach hopen msg
    obtain ⟨rc',hs,-⟩ := (balanced_of_reachable hreach).step_defined hopen msg
    exact ⟨rc',hs⟩
  · exact System.along_iff_of_step _ (I := Balanced seed)
      (fun _ _ _ hi hs => (hi.gapFree_step_iff hs).imp id fun hb _ => hb)
      (balanced_startNewPayload rc₀ seed) msgs

-- packet 1 of a payload is accepted, packet 0 is missing, and an EOF for one byte arrives
def laterPacket : {msg : Msg // msg.Fits} :=
  ⟨⟨9,5,.resp,1,1,Buffer.copyIn [7]⟩,by decide,by decide⟩

def oneByteEof : {msg : Msg // msg.Fits} :=
  ⟨⟨9,5,.respErr,8,1,Buffer.copyIn (eofText ++ [0] ++ encodeInt 1)⟩,by decide,by decide⟩

theorem eof_completes_payload_with_gap : ∃ rc : Receiver,
    (reception (Receiver.create 5 9) 0).Reachable rc ∧ rc.isPayloadComplete = true ∧
      rc.currentWindow 1 = some [7] ∧
      ∃ payload drained, rc.getPayload = some (payload,drained) ∧
        payload.length = 1 ∧ payload.data = [] := by
  have hrun : ((reception (Receiver.create 5 9) 0).run
      ((Receiver.create 5 9).startNewPayload 0) [laterPacket,oneByteEof]).any (fun rc =>
        decide (rc.isPayloadComplete = true ∧ rc.currentWindow 1 = some [7] ∧
          rc.totalPayloadSize = 1 ∧ rc.completedSet = [])) = true := by
    decide +kernel
  obtain ⟨rc,hrc,hend⟩ := (Option.any_eq_true _ _).mp hrun
  obtain ⟨hcomplete,hwindow,htotal,hset⟩ := of_decide_eq_true hend
  refine ⟨rc,System.reachable_of_run _ rfl hrc,hcomplete,hwindow,
    ⟨rc.totalPayloadSize,rc.completedSet.flatten⟩,_,if_pos hcomplete,htotal,?_⟩
  rw [hset]
  rfl

end Receiver
end FtpOverUdp
