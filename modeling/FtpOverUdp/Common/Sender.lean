import FtpOverUdp.Common.Msg
import Mathlib.Algebra.GroupWithZero.Nat
import Mathlib.Logic.Function.Basic

namespace FtpOverUdp

theorem sequenceRange_ne_zero : sequenceRange ≠ 0 := by decide

instance : NeZero sequenceRange := ⟨sequenceRange_ne_zero⟩

abbrev Slot := Fin sequenceRange

def wrap (i : ℤ) : ℤ := i.tmod sequenceRange

def slotOf (i : ℤ) : Option Slot :=
  if h : 0 ≤ i ∧ i < sequenceRange then some ⟨i.toNat,by omega⟩ else none

def residue (seed : Slot) (i : ℕ) : Slot := ⟨(seed + i) % sequenceRange,Nat.mod_lt _ (by decide)⟩

theorem wrap_add (seed : Slot) (i : ℕ) : wrap (i + seed.val) = ((seed.val + i) % 7 : ℕ) := by
  have h : ((i : ℤ) + seed.val) = ((seed.val + i : ℕ) : ℤ) := by omega
  rw [wrap,h,Int.tmod_eq_emod_of_nonneg (Int.natCast_nonneg _)]
  rfl

@[simp] theorem slotOf_slot (k : Slot) : slotOf (k.val : ℤ) = some k := by
  have := k.isLt
  simp only [slotOf,sequenceRange] at this ⊢
  rw [dif_pos (by omega)]
  simp

theorem slotOf_wrap (seed : Slot) (i : ℕ) : slotOf (wrap (i + seed.val)) = some (residue seed i) := by
  rw [wrap_add]
  exact slotOf_slot (residue seed i)

theorem residue_zero (seed : Slot) : residue seed 0 = seed := by
  simp only [residue,Nat.add_zero,Nat.mod_eq_of_lt seed.isLt]

theorem residue_inj {seed : Slot} {i j : ℕ} (h : residue seed i = residue seed j) (hij : i ≤ j)
    (hlt : j < i + sequenceRange) : i = j := by
  have := congrArg Fin.val h
  simp only [residue,sequenceRange] at this hlt
  omega

theorem residue_eq_iff {seed : Slot} {i j : ℕ} :
    residue seed i = residue seed j ↔ i % sequenceRange = j % sequenceRange := by
  simp only [residue,Fin.mk.injEq,sequenceRange]
  omega

structure SenderThread where
  msg : Msg
  isAcked : Bool
  running : Bool
  deriving DecidableEq

def SenderThread.create (serverId clientId : ℤ) (messageType : MsgType) (sequenceNumber : ℤ)
    (packetContents : List UInt8) : SenderThread where
  msg := ⟨clientId,serverId,messageType,packetContents.length,sequenceNumber,
    Buffer.copyIn packetContents⟩
  isAcked := false
  running := true

structure Sender where
  serverId : ℤ
  clientId : ℤ
  isComplete : Bool
  threads : List SenderThread
  currentWindow : Slot → Option ℕ
  windowState : Slot → Option ℕ
  completePayload : List UInt8
  numberOfPackets : ℕ
  payloadSize : ℕ
  currentWindowOrigin : ℕ
  sequenceSeed : ℤ

namespace Sender

def create (serverId clientId : ℤ) : Sender where
  serverId := serverId
  clientId := clientId
  isComplete := false
  threads := []
  currentWindow := fun _ => none
  windowState := fun _ => none
  completePayload := []
  numberOfPackets := 0
  payloadSize := 0
  currentWindowOrigin := 0
  sequenceSeed := 0

def packetCount (messageLength : ℕ) : ℕ :=
  messageLength / bufferLength + if messageLength % bufferLength > 0 then 1 else 0

def initializePayload (self : Sender) (messageContents : Option (List UInt8))
    (firstSequenceNumber : ℤ) : Option Sender :=
  messageContents.bind fun contents =>
    -- `new char[numberOfPackets * BUFFER_LENGTH]`: the product is an `int`
    if packetCount contents.length * bufferLength < 2 ^ 31 then
      some { self with
        numberOfPackets := packetCount contents.length
        payloadSize := contents.length
        completePayload := contents
        currentWindow := fun _ => none
        windowState := fun _ => none
        currentWindowOrigin := 0
        isComplete := false
        sequenceSeed := firstSequenceNumber }
    else none

def startThread (self : Sender) (slot : Slot) (messageType : MsgType) (contents : List UInt8) :
    Sender :=
  { self with
    threads := self.threads ++
      [SenderThread.create self.serverId self.clientId messageType slot.val contents]
    windowState := Function.update self.windowState slot (some self.threads.length)
    currentWindow := Function.update self.currentWindow slot (some self.threads.length) }

def packet (self : Sender) (currentPayloadIndex : ℕ) : List UInt8 :=
  let currentChar := currentPayloadIndex * bufferLength
  let currentSize := if currentPayloadIndex = self.numberOfPackets - 1
    then self.payloadSize - currentChar else bufferLength
  (self.completePayload.drop currentChar).take currentSize

def populateSlot (self : Sender) (i : ℕ) : Option Sender :=
  if self.currentWindowOrigin + i < self.numberOfPackets then
    (slotOf (wrap (self.currentWindowOrigin + self.sequenceSeed + i))).map fun currentIndex =>
      if self.windowState currentIndex = none then
        self.startThread currentIndex .resp (self.packet (self.currentWindowOrigin + i))
      else self
  else some self

def normalizeCurrentWindow (self : Sender) : Option Sender :=
  (List.range windowSize).foldlM populateSlot self

def send (self : Sender) : Option Sender := self.normalizeCurrentWindow

def eofMessage (self : Sender) : List UInt8 := eofText ++ [0] ++ encodeInt self.payloadSize

def finalizePayload (self : Sender) : Option Sender :=
  (slotOf (wrap (self.numberOfPackets + self.sequenceSeed))).map fun index =>
    self.startThread index .respErr self.eofMessage

def setFlag (self : Sender) (flag : ℕ) : Sender :=
  { self with threads := self.threads.modify flag fun t => { t with isAcked := true } }

def acknowledgeSlot (self : Sender) (index : Slot) : Sender :=
  let flagged := match self.windowState index with
    | some flag => self.setFlag flag
    | none => self
  { flagged with currentWindow := Function.update self.currentWindow index none }

def slideHead (self : Sender) (head : Slot) : Sender :=
  { self with
    windowState := Function.update self.windowState head none
    currentWindowOrigin := self.currentWindowOrigin + 1 }

def slide : ℕ → Sender → Option Sender
  | 0, self => some self
  | n + 1, self =>
    if self.currentWindowOrigin < self.numberOfPackets then
      (slotOf (wrap (self.currentWindowOrigin + self.sequenceSeed))).bind fun head =>
        if self.currentWindow head = none then slide n (self.slideHead head) else some self
    else some self

def checkEofAck (self : Sender) (sequenceNumber : ℤ) : Sender :=
  { self with
    isComplete := decide
      (sequenceNumber = wrap (self.currentWindowOrigin + self.sequenceSeed)) }

def processAck (self : Sender) (sequenceNumber : ℤ) : Option Sender :=
  (slotOf sequenceNumber).bind fun index =>
    let acked := self.acknowledgeSlot index
    if acked.currentWindowOrigin = acked.numberOfPackets then
      some (acked.checkEofAck sequenceNumber)
    else
      (slide windowSize acked).bind fun slid =>
        if slid.currentWindowOrigin = slid.numberOfPackets then slid.finalizePayload
        else slid.normalizeCurrentWindow

def isPayloadSent (self : Sender) : Bool := self.isComplete

def finalSequenceNumber (self : Sender) : ℤ := wrap (self.sequenceSeed + self.numberOfPackets + 1)

def terminateCurrentTransmission (self : Sender) : Sender :=
  (List.finRange windowSize).foldl (fun s i =>
    let slot : Slot := i.castLE (by decide)
    match s.windowState slot with
    | some flag => { s.setFlag flag with
        windowState := Function.update s.windowState slot none
        currentWindow := Function.update s.currentWindow slot none }
    | none => s) { self with isComplete := true }

inductive Attempt
  | sent (msg : Msg)
  | failed
  | left

def stopThread (self : Sender) (k : ℕ) : Sender :=
  { self with threads := self.threads.modify k fun t => { t with running := false } }

def attempt (self : Sender) (k : ℕ) (sendtoFails : Bool) : Option (Sender × Attempt) :=
  (self.threads[k]?).bind fun t =>
    if t.running then
      if t.isAcked then some (self.stopThread k,.left)
      else if sendtoFails then some (self.stopThread k,.failed)
      else some (self,.sent t.msg)
    else none

end Sender
end FtpOverUdp
