import FtpOverUdp.Common.SenderFrame
import FtpOverUdp.UdpServer.ServerThread
import FtpOverUdp.Wire.Datagram

namespace FtpOverUdp

-- a copy of `length` bytes between arrays that both hold `available`, or an index into an array of
-- `SEQUENCE_RANGE` entries
inductive Access
  | copy (length : ℤ) (available : ℕ)
  | slot (index : ℤ)
  deriving DecidableEq

def Access.InBounds : Access → Prop
  | .copy length available => 0 ≤ length ∧ length ≤ available
  | .slot index => 0 ≤ index ∧ index < sequenceRange

def slotAccess (n : ℤ) : Access := .slot (wrap (int32 n))

theorem slotAccess_inBounds {n : ℤ} (hlo : 0 ≤ n) (hhi : n < 2 ^ 31) :
    (slotAccess n).InBounds := by
  rw [slotAccess,int32_of_bounds hlo hhi]
  exact slotted_wrap hlo

namespace FtpServer

-- the copies of `getMessage` against the bytes received and against `Msg`
def getMessageAccesses (d : ReceiveBuffer) : List Access :=
  [.copy msgHdrSize d.received.length,.copy d.length (d.received.length - msgHdrSize),
    .copy d.length bufferLength]

end FtpServer

namespace Sender

variable (self : Sender)

def normalizeAccesses : List Access :=
  ((List.range windowSize).filter fun i => self.currentWindowOrigin + i < self.numberOfPackets).map
    fun (i : ℕ) => slotAccess (self.currentWindowOrigin + self.sequenceSeed + i)

def slideAccesses : ℕ → Sender → List Access
  | 0, _ => []
  | n + 1, self =>
    if self.currentWindowOrigin < self.numberOfPackets then
      slotAccess (self.currentWindowOrigin + self.sequenceSeed) ::
        match slotOf (wrap (self.currentWindowOrigin + self.sequenceSeed)) with
        | some head =>
          if self.currentWindow head = none then slideAccesses n (self.slideHead head) else []
        | none => []
    else []

def finalizeAccesses : List Access := [slotAccess (self.numberOfPackets + self.sequenceSeed)]

def processAckAccesses (sequenceNumber : ℤ) : List Access :=
  .slot sequenceNumber :: match slotOf sequenceNumber with
    | some index =>
      let acked := self.acknowledgeSlot index
      if acked.currentWindowOrigin = acked.numberOfPackets then []
      else slideAccesses windowSize acked ++ match slide windowSize acked with
        | some slid =>
          if slid.currentWindowOrigin = slid.numberOfPackets then slid.finalizeAccesses
          else slid.normalizeAccesses
        | none => []
    | none => []

end Sender

namespace Receiver

variable (self : Receiver) (msg : Msg)

def normalizeAccesses : ℕ → Receiver → List Access
  | 0, _ => []
  | n + 1, self =>
    slotAccess (self.windowOrigin + self.sequenceSeed) ::
      match slotOf (wrap (self.windowOrigin + self.sequenceSeed)) with
      | some currentSequence =>
        match self.currentWindow currentSequence with
        | some data => normalizeAccesses n (self.completeHead currentSequence data)
        | none => []
      | none => []

def handleMsgAccesses : List Access :=
  if msg.sequenceNumber = wrap (self.sequenceSeed + 1) ∧ msg.isText nsfText then []
  else if isEofMsg msg then []
  else if self.isSequenceNumberInWindow msg.sequenceNumber then
    .slot msg.sequenceNumber :: match slotOf msg.sequenceNumber with
      | some slot =>
        if (self.currentWindow slot).isSome then []
        else .copy msg.length bufferLength :: normalizeAccesses sequenceRange
          (self.register slot (msg.buffer.copyOut msg.length.toNat))
      | none => []
  else []

end Receiver

namespace ServerThread

variable (self : ServerThread) (currentMsg : Msg) (disk : Disk)

def startSenderAccesses (payloadData : List UInt8) : List Access :=
  match self.sender.bind (·.initializePayload (some payloadData) currentMsg.sequenceNumber) with
  | some loaded => loaded.normalizeAccesses
  | none => []

def requestAccesses : List Access :=
  match currentMsg.type with
  | .handshake | .post => [.copy currentMsg.length bufferLength]
  | .getList =>
    match getDirectoryContents disk with
    | some contents => self.startSenderAccesses currentMsg contents
    | none => []
  | .getFile => .copy currentMsg.length bufferLength ::
      match getFileContents currentMsg disk with
      | some contents => self.startSenderAccesses currentMsg contents
      | none => []
  | _ => []

-- what a turn of `run` touches through fields of the header
def accesses : List Access :=
  match self.currentState with
  | .initializing | .renaming => []
  | .startingHandshake => [.copy currentMsg.length bufferLength]
  | .waitingForRequest => self.requestAccesses currentMsg disk
  | .sending =>
    match currentMsg.type,self.sender with
    | .ack,some sender => sender.processAckAccesses currentMsg.sequenceNumber
    | _,_ => []
  | .receiving =>
    match self.receiver with
    | some receiver =>
      if currentMsg.type = .resp ∨ currentMsg.isText eofText then
        receiver.handleMsgAccesses currentMsg
      else []
    | none => []

end ServerThread
end FtpOverUdp
