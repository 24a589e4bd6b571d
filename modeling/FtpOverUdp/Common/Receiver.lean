import FtpOverUdp.Common.Sender

namespace FtpOverUdp

structure Receiver where
  serverId : ℤ
  clientId : ℤ
  completedSet : List (List UInt8)
  totalPayloadSize : ℕ
  currentWindow : Slot → Option (List UInt8)
  sequenceSeed : ℤ
  windowOrigin : ℕ
  isComplete : Bool

namespace Receiver

def create (serverId clientId : ℤ) : Receiver where
  serverId := serverId
  clientId := clientId
  completedSet := []
  totalPayloadSize := 0
  currentWindow := fun _ => none
  sequenceSeed := 0
  windowOrigin := 0
  isComplete := false

def startNewPayload (self : Receiver) (sequenceSeed : ℤ) : Receiver :=
  { self with
    isComplete := false
    sequenceSeed := sequenceSeed
    windowOrigin := 0
    totalPayloadSize := 0
    completedSet := []
    currentWindow := fun _ => none }

def ackMsg (self : Receiver) (sequenceNumber : ℤ) : Msg :=
  ⟨self.clientId,self.serverId,.ack,0,sequenceNumber,Buffer.copyIn []⟩

def isEofMsg (msg : Msg) : Bool := msg.isText eofText

def isSequenceNumberInWindow (self : Receiver) (sequenceNumber : ℤ) : Bool :=
  let currentHead := wrap (self.windowOrigin + self.sequenceSeed)
  let currentTail := currentHead + windowSize - 1
  let shifted := if sequenceNumber < currentHead then sequenceNumber + sequenceRange
    else sequenceNumber
  decide (currentHead ≤ shifted) && decide (shifted ≤ currentTail)

structure Handled where
  receiver : Receiver
  sent : List Msg
  thrown : Option String

def register (self : Receiver) (slot : Slot) (data : List UInt8) : Receiver :=
  { self with
    currentWindow := Function.update self.currentWindow slot (some data)
    totalPayloadSize := self.totalPayloadSize + data.length }

def completeHead (self : Receiver) (slot : Slot) (data : List UInt8) : Receiver :=
  { self with
    completedSet := self.completedSet ++ [data]
    currentWindow := Function.update self.currentWindow slot none
    windowOrigin := self.windowOrigin + 1 }

-- the source's `while` empties a slot at each turn, so `SEQUENCE_RANGE` turns exhaust it
def normalizeBuffer : ℕ → Receiver → Option Receiver
  | 0, self => some self
  | n + 1, self =>
    (slotOf (wrap (self.windowOrigin + self.sequenceSeed))).bind fun currentSequence =>
      match self.currentWindow currentSequence with
      | some data => normalizeBuffer n (self.completeHead currentSequence data)
      | none => some self

def handleEof (self : Receiver) (msg : Msg) : Handled :=
  if decodeInt (msg.buffer.val.drop 4) = self.totalPayloadSize then
    ⟨{ self with windowOrigin := self.windowOrigin + 1,isComplete := true },
      [self.ackMsg msg.sequenceNumber],none⟩
  else ⟨self,[],none⟩

def handleData (self : Receiver) (msg : Msg) : Option Handled :=
  let sent := [self.ackMsg msg.sequenceNumber]
  if self.isSequenceNumberInWindow msg.sequenceNumber then
    (slotOf msg.sequenceNumber).bind fun slot =>
      if (self.currentWindow slot).isSome then some ⟨self,sent,none⟩
      else if 0 ≤ msg.length ∧ msg.length ≤ bufferLength then
        (normalizeBuffer sequenceRange
          (self.register slot (msg.buffer.copyOut msg.length.toNat))).map (⟨·,sent,none⟩)
      else none
  else some ⟨self,sent,none⟩

-- `none` is an access outside an array
def handleMsg (self : Receiver) (msg : Msg) : Option Handled :=
  if msg.sequenceNumber = wrap (self.sequenceSeed + 1) ∧ msg.isText nsfText then
    some ⟨self,[self.ackMsg msg.sequenceNumber],some "No such file."⟩
  else if isEofMsg msg then some (self.handleEof msg)
  else self.handleData msg

def isPayloadComplete (self : Receiver) : Bool := self.isComplete

def finalSequenceNumber (self : Receiver) : ℤ := wrap (self.sequenceSeed + self.windowOrigin)

def getPayload (self : Receiver) : Option (Payload × Receiver) :=
  if self.isComplete then
    some (⟨self.totalPayloadSize,self.completedSet.flatten⟩,{ self with completedSet := [] })
  else none

end Receiver
end FtpOverUdp
