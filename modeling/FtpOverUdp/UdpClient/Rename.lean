import FtpOverUdp.Common.Sender
import FtpOverUdp.Library.System
import FtpOverUdp.UdpServer.ServerThread

namespace FtpOverUdp

open Library

inductive RenameStage
  | askingOriginal
  | waitingOriginal
  | askingNew
  | waitingNew
  | returned
  deriving DecidableEq

structure Announcement where
  sequenceNumber : ℤ
  newFilename : List UInt8
  renamed : Bool

-- `executed`, `lostAcks` and `announced` record the renames of the server, the numbers of the ACKs
-- that the path lost and what the user was told; each request has a number of its own
structure Rename where
  stage : RenameStage
  sequenceNumber : ℤ
  requestSender : Option SenderThread
  serverResponse : Msg
  server : ServerThread
  toServer : List Msg
  toClient : List Msg
  executed : List (ℤ × List UInt8)
  lostAcks : List ℤ
  announced : List Announcement

structure Session where
  serverIdentifier : ℤ
  clientIdentifier : ℤ
  adopted : serverIdentifier ≠ nullServerId

namespace Rename

inductive Event
  | enterOriginal (originalFilename : List UInt8)
  | enterNew (newFilename : List UInt8)
  | resend
  | receive
  | settle (retries : Bool)
  | serve (disk : Disk)
  | loseToServer
  | loseToClient

variable (x : Session) (st : Rename)

def Answered : Prop :=
  st.serverResponse.serverId = x.serverIdentifier ∧
    st.serverResponse.sequenceNumber = st.sequenceNumber

instance : Decidable (st.Answered x) := inferInstanceAs (Decidable (_ ∧ _))

def startRequest (messageType : MsgType) (filename : List UInt8) (stage : RenameStage) : Rename :=
  { st with
    stage := stage
    requestSender := some (SenderThread.create x.serverIdentifier x.clientIdentifier messageType
      st.sequenceNumber filename) }

def resend : Option Rename :=
  st.requestSender.bind fun sender =>
    if sender.isAcked then none else some { st with toServer := st.toServer ++ [sender.msg] }

def receive : Option Rename :=
  if (st.stage = .waitingOriginal ∨ st.stage = .waitingNew) ∧ ¬st.Answered x then
    match st.toClient with
    | [] => none
    | msg :: rest => some { st with
        serverResponse := msg
        toClient := rest }
  else none

def acknowledge : Rename :=
  { st with requestSender := st.requestSender.map fun sender => { sender with isAcked := true } }

def settleOriginal (retries : Bool) : Rename :=
  let answered := { st.acknowledge with sequenceNumber := st.sequenceNumber + 1 }
  if st.serverResponse.type = .ack then { answered with stage := .askingNew }
  else if st.serverResponse.isText faeText then
    { answered with stage := if retries then .askingOriginal else .returned }
  -- `*isFilenameAccepted` is true by now, so the loop ends as if the name had been accepted
  else { answered with stage := .askingNew }

def serverPath (msg : Msg) : List UInt8 := ServerThread.filesDirectory ++ msg.buffer.cString

def announce (renamed : Bool) : Rename :=
  { st.acknowledge with announced := st.announced ++ st.requestSender.toList.map fun sender =>
      ⟨st.sequenceNumber,serverPath sender.msg,renamed⟩ }

def settleNew (retries : Bool) : Rename :=
  if st.serverResponse.type = .ack then { st.announce true with stage := .returned }
  else if retries then
    { st.announce false with
      stage := .askingNew
      sequenceNumber := st.sequenceNumber + 1 }
  else { st.announce false with stage := .returned }

def sentBy (effects : List Effect) : List Msg :=
  effects.filterMap fun e =>
    match e with
    | .send msg => some msg
    | _ => none

def renamesOf (msg : Msg) (effects : List Effect) : List (ℤ × List UInt8) :=
  effects.filterMap fun e =>
    match e with
    | .rename _ newFilename => some (msg.sequenceNumber,newFilename)
    | _ => none

def serve (disk : Disk) : Option Rename :=
  match st.toServer with
  | [] => none
  | msg :: rest => (st.server.run msg disk).map fun r =>
      { st with
        server := r.1
        toServer := rest
        toClient := st.toClient ++ sentBy r.2
        executed := st.executed ++ renamesOf msg r.2 }

def loseToClient : Option Rename :=
  match st.toClient with
  | [] => none
  | msg :: rest => some { st with
      toClient := rest
      lostAcks := if msg.type = .ack then st.lostAcks ++ [msg.sequenceNumber] else st.lostAcks }

def step : Event → Option Rename
  | .enterOriginal originalFilename =>
    if st.stage = .askingOriginal then
      some (st.startRequest x .put originalFilename .waitingOriginal)
    else none
  | .enterNew newFilename =>
    if st.stage = .askingNew then some (st.startRequest x .resp newFilename .waitingNew) else none
  | .resend => st.resend
  | .receive => st.receive x
  | .settle retries =>
    if st.Answered x then
      match st.stage with
      | .waitingOriginal => some (st.settleOriginal retries)
      | .waitingNew => some (st.settleNew retries)
      | _ => none
    else none
  | .serve disk => st.serve disk
  | .loseToServer => some { st with toServer := st.toServer.tail }
  | .loseToClient => st.loseToClient

structure Init (st : Rename) : Prop where
  stage : st.stage = .askingOriginal
  requestSender : st.requestSender = none
  serverResponse : st.serverResponse.serverId = nullServerId
  state : st.server.currentState = .waitingForRequest
  serverId : st.server.serverId = x.serverIdentifier
  toServer : ∀ msg ∈ st.toServer, msg.type = .handshake
  toClient : ∀ msg ∈ st.toClient, msg.type = .handshake
  executed : st.executed = []
  lostAcks : st.lostAcks = []
  announced : st.announced = []

def system : System Rename Event where
  init := Init x
  step st e := st.step x e

end Rename
end FtpOverUdp
