import FtpOverUdp.UdpClient.Rename
import FtpOverUdp.UdpServer.FtpServer

namespace FtpOverUdp

open Library

inductive MenuStage
  | choosing
  | syncing (optionVal : ℤ)
  | entering (optionVal : ℤ)
  | getting
  | listing
  | acknowledging
  | requesting (contents : List UInt8)
  | uploading
  | changing (stage : RenameStage)
  | terminating
  | exited
  deriving DecidableEq

-- `accepted` is the number under which performRename's last request was answered, `followUp` the
-- request sent after it; what is in `toServer` or `toClient` may arrive any number of times
structure Menu where
  stage : MenuStage
  clientIdentifier : ℤ
  serverIdentifier : ℤ
  syncCount : ℤ
  sequenceNumber : ℤ
  receiver : Receiver
  sender : Sender
  serverMsg : Msg
  accepted : Option ℤ
  followUp : Option (ℤ × Msg)
  threads : Table ℤ ServerThread
  toServer : List Msg
  toClient : List Msg

namespace Menu

inductive Event
  | choose (optionVal : ℤ)
  | read (msg : Msg)
  | perform (filename : List UInt8) (file : Option (List UInt8))
  | timeOut
  | enterName (filename : List UInt8)
  | settle (retries : Bool)
  | spawn (serverId : ℤ)
  | serve (serverId : ℤ) (msg : Msg) (disk : Disk)

def start (clientIdentifier sequenceNumber : ℤ) : Menu where
  stage := .choosing
  clientIdentifier := clientIdentifier
  serverIdentifier := nullServerId
  syncCount := 0
  sequenceNumber := sequenceNumber
  receiver := Receiver.create nullServerId clientIdentifier
  sender := Sender.create nullServerId clientIdentifier
  serverMsg := FtpServer.emptyMsg
  accepted := none
  followUp := none
  threads := fun _ => none
  toServer := []
  toClient := []

variable (st : Menu)

def emit (msgs : List Msg) : Menu := { st with toServer := st.toServer ++ msgs }

def request (messageType : MsgType) (contents : List UInt8) : Msg :=
  (SenderThread.create st.serverIdentifier st.clientIdentifier messageType st.sequenceNumber
    contents).msg

def ackMsg (sequenceNumber : ℤ) : Msg :=
  ⟨st.clientIdentifier,st.serverIdentifier,.ack,0,sequenceNumber,Buffer.copyIn []⟩

def packets (sender : Sender) : List Msg := sender.threads.map SenderThread.msg

-- the part of `showMenu` and `syncServer` up to the first reply
def showMenu (optionVal : ℤ) : Menu :=
  let numbered := { st with
    sequenceNumber := wrap (st.sequenceNumber + 1)
    syncCount := st.syncCount + 1
    stage := .syncing optionVal }
  numbered.emit [numbered.request .handshake (encodeInt numbered.syncCount)]

def readSync (optionVal : ℤ) (msg : Msg) : Menu :=
  let read := { st with serverMsg := msg }
  if msg.type = .handshake ∧ msg.serverId ≠ st.serverIdentifier ∧
      decodeInt msg.buffer.val = st.syncCount then
    { read with
      serverIdentifier := msg.serverId
      sequenceNumber := wrap (st.sequenceNumber + 1)
      stage := .entering optionVal }
  else read

def performGet (filename : List UInt8) : Menu :=
  let started := { st with
    receiver := st.receiver.startNewPayload st.sequenceNumber
    stage := .getting }
  started.emit [started.request .getFile filename]

def performList : Menu :=
  let started := { st with
    receiver := st.receiver.startNewPayload st.sequenceNumber
    stage := .listing }
  started.emit [started.request .getList []]

def performUpload (filename : List UInt8) (file : Option (List UInt8)) : Menu :=
  match file with
  -- the exception leaves `main`
  | none => { st with stage := .exited }
  | some contents => { st with stage := .requesting contents }.emit [st.request .post filename]

def performRename : Menu :=
  { st with
    stage := .changing .askingOriginal
    serverMsg := { st.serverMsg with serverId := nullServerId }
    accepted := none }

def terminate : Menu := { st with stage := .terminating }.emit [st.request .terminate []]

def perform (optionVal : ℤ) (filename : List UInt8) (file : Option (List UInt8)) : Menu :=
  if optionVal = 1 then st.performGet filename
  else if optionVal = 2 then st.performList
  else if optionVal = 3 then st.performUpload filename file
  else if optionVal = 4 then st.performRename
  else if optionVal = 5 then st.terminate
  else { st with stage := .choosing }

-- the loop that `performGet` and `performList` share up to the number they leave with
def readPayload (final : ℤ → ℤ) (noSuchFile : Msg → MenuStage) (msg : Msg) : Option Menu :=
  let read := { st with serverMsg := msg }
  if msg.serverId = st.serverIdentifier ∧ (msg.type = .resp ∨ msg.type = .respErr) then
    (st.receiver.handleMsg msg).map fun handled =>
      let heard := { read with receiver := handled.receiver }.emit handled.sent
      if handled.thrown.isSome then { heard with stage := noSuchFile msg }
      else if handled.receiver.isPayloadComplete then
        { heard with
          sequenceNumber := final msg.sequenceNumber
          stage := .acknowledging }
      else heard
  else some read

def readGet (msg : Msg) : Option Menu :=
  st.readPayload (fun number => wrap (number + 1))
    (fun msg => if msg.sequenceNumber = wrap (st.sequenceNumber + 1) then .choosing else .exited) msg

-- `serverMsg.sequenceNumber + 1 % SEQUENCE_RANGE`
def readList (msg : Msg) : Option Menu :=
  st.readPayload (fun number => number + wrap 1) (fun _ => .exited) msg

def readEof (msg : Msg) : Menu :=
  let read := { st with serverMsg := msg }
  if msg.isText eofText then read.emit [st.ackMsg msg.sequenceNumber] else read

def readRequestAck (contents : List UInt8) (msg : Msg) : Option Menu :=
  let read := { st with serverMsg := msg }
  if msg.type = .ack ∧ msg.sequenceNumber = st.sequenceNumber ∧
      msg.serverId = st.serverIdentifier then
    ((st.sender.initializePayload (some contents) st.sequenceNumber).bind Sender.send).map
      fun sender => { read with
        sender := sender
        stage := .uploading }.emit (packets sender)
  else some read

def readPacketAck (msg : Msg) : Option Menu :=
  let read := { st with serverMsg := msg }
  if msg.serverId = st.serverIdentifier ∧ msg.type = .ack then
    (st.sender.processAck msg.sequenceNumber).map fun sender =>
      let acked := { read with sender := sender }.emit (packets sender)
      if sender.isPayloadSent then
        { acked with
          sequenceNumber := sender.finalSequenceNumber
          stage := .choosing }
      else acked
  else some read

def Answered : Prop :=
  st.serverMsg.serverId = st.serverIdentifier ∧ st.serverMsg.sequenceNumber = st.sequenceNumber

instance : Decidable st.Answered := inferInstanceAs (Decidable (_ ∧ _))

def readAnswer (msg : Msg) : Option Menu :=
  if st.Answered then none else some { st with serverMsg := msg }

def readTermination (msg : Msg) : Menu :=
  let read := { st with serverMsg := msg }
  if msg.sequenceNumber = st.sequenceNumber ∧ msg.type = .ack then
    { read with stage := .exited }.emit [st.ackMsg st.sequenceNumber]
  else read

def read (msg : Msg) : Option Menu :=
  match st.stage with
  | .syncing optionVal => some (st.readSync optionVal msg)
  | .getting => st.readGet msg
  | .listing => st.readList msg
  | .acknowledging => some (st.readEof msg)
  | .requesting contents => st.readRequestAck contents msg
  | .uploading => st.readPacketAck msg
  | .changing .waitingOriginal | .changing .waitingNew => st.readAnswer msg
  | .terminating => some (st.readTermination msg)
  | .choosing | .entering _ | .exited | .changing _ => none

def startRequest (messageType : MsgType) (filename : List UInt8) (stage : RenameStage) : Menu :=
  let request := st.request messageType filename
  { st with
    stage := .changing stage
    followUp := st.accepted.map fun number => (number,request) }.emit [request]

def enterName (filename : List UInt8) : Option Menu :=
  match st.stage with
  | .changing .askingOriginal => some (st.startRequest .put filename .waitingOriginal)
  | .changing .askingNew => some (st.startRequest .resp filename .waitingNew)
  | _ => none

def accept (stage : MenuStage) (sequenceNumber : ℤ) : Menu :=
  { st with
    stage := stage
    sequenceNumber := sequenceNumber
    accepted := some st.sequenceNumber }

def settleOriginal (retries : Bool) : Menu :=
  st.accept (if st.serverMsg.type = .ack then .changing .askingNew
    else if st.serverMsg.isText faeText then
      if retries then .changing .askingOriginal else .choosing
    else .changing .askingNew) (st.sequenceNumber + 1)

def settleNew (retries : Bool) : Menu :=
  if st.serverMsg.type = .ack then st.accept .choosing st.sequenceNumber
  else if retries then st.accept (.changing .askingNew) (st.sequenceNumber + 1)
  else st.accept .choosing st.sequenceNumber

def settle (retries : Bool) : Option Menu :=
  if st.Answered then
    match st.stage with
    | .changing .waitingOriginal => some (st.settleOriginal retries)
    | .changing .waitingNew => some (st.settleNew retries)
    | _ => none
  else none

def serve (serverId : ℤ) (msg : Msg) (disk : Disk) : Option Menu :=
  if msg ∈ st.toServer then
    (st.threads serverId).bind fun thread =>
      (thread.run { msg with serverId := serverId } disk).map fun out =>
        { st with
          threads := st.threads.assign serverId out.1
          toClient := st.toClient ++ Rename.sentBy out.2 ++
            out.1.sender.toList.flatMap packets }
  else none

def step : Event → Option Menu
  | .choose optionVal => if st.stage = .choosing then some (st.showMenu optionVal) else none
  | .read msg => if msg ∈ st.toClient then st.read msg else none
  | .perform filename file =>
    match st.stage with
    | .entering optionVal => some (st.perform optionVal filename file)
    | _ => none
  | .timeOut =>
    if st.stage = .acknowledging then some { st with stage := .choosing } else none
  | .enterName filename => st.enterName filename
  | .settle retries => st.settle retries
  | .spawn serverId =>
    if 0 ≤ serverId ∧ serverId < 256 then
      some { st with threads := st.threads.assign serverId (ServerThread.create serverId) }
    else none
  | .serve serverId msg disk => st.serve serverId msg disk

def system : System Menu Event where
  init st := ∃ clientIdentifier sequenceNumber, 0 ≤ sequenceNumber ∧
    sequenceNumber < sequenceRange ∧ st = start clientIdentifier sequenceNumber
  step := step

end Menu
end FtpOverUdp
