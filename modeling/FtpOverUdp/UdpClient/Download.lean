import FtpOverUdp.Library.System
import FtpOverUdp.Router.Path
import FtpOverUdp.UdpServer.ServerThread

namespace FtpOverUdp

open Library

inductive DownloadOperation
  | get (filename : List UInt8)
  | list

structure DownloadRequest where
  operation : DownloadOperation
  serverIdentifier : ℤ
  clientIdentifier : ℤ
  sequenceNumber : Slot

inductive DownloadPhase
  | receiving
  | flushing (sequenceNumber : ℤ)
  | catching (sequenceNumber : ℤ) (what : String)
  | noSuchFile
  | uncaught
  | finished (sequenceNumber : ℤ) (payload : Payload)
  deriving DecidableEq

-- no step reads `thread`, the SenderThread whose copy this is, or `acked`, what `*isAcked` was then
structure DownloadParcel where
  msg : Msg
  thread : Option ℕ
  acked : Bool

-- `readings` and `refusals` record what the requests made the server do; no step reads them
structure Download where
  phase : DownloadPhase
  isAcked : Bool
  receiver : Receiver
  server : ServerThread
  path : Path DownloadParcel
  readings : List (List UInt8)
  refusals : ℕ

namespace Download

-- the client sends from `.one` and the server from `.two`
inductive Event
  | request
  | attempt (thread : ℕ) (sendtoFails : Bool)
  | route (source : Peer) (isDelayed isDamage : Bool)
  | idle
  | serve (disk : Disk)
  | receive
  | handle
  | timeOut

variable (q : DownloadRequest)

def requestType : MsgType :=
  match q.operation with
  | .get _ => .getFile
  | .list => .getList

def requestText : List UInt8 :=
  match q.operation with
  | .get filename => filename
  | .list => []

def requestMsg : Msg :=
  (SenderThread.create q.serverIdentifier q.clientIdentifier (requestType q)
    q.sequenceNumber.val (requestText q)).msg

-- `performList` has `sequenceNumber + 1 % SEQUENCE_RANGE`
def nextNumber (eofNumber : ℤ) : ℤ :=
  match q.operation with
  | .get _ => wrap (eofNumber + 1)
  | .list => eofNumber + 1

-- `performGet` copies the name into `char c_filename[20]` before it starts the SenderThread
def filenameFits : Bool :=
  match q.operation with
  | .get filename => filename.length < filenameLength
  | .list => true

def request (st : Download) : Option Download :=
  if st.isAcked ∨ ¬filenameFits q then none
  else some { st with path := st.path.send .one ⟨requestMsg q,none,st.isAcked⟩ }

def attempt (st : Download) (k : ℕ) (sendtoFails : Bool) : Option Download :=
  st.server.sender.bind fun sender =>
    (sender.attempt k sendtoFails).map fun r =>
      { st with
        server := { st.server with sender := some r.1 }
        path := match r.2 with
          | .sent msg => st.path.send .two ⟨msg,some k,false⟩
          | .failed | .left => st.path }

def reply (path : Path DownloadParcel) : List Effect → Path DownloadParcel
  | [] => path
  | .send msg :: effects => reply (path.send .two ⟨msg,none,false⟩) effects
  | _ :: effects => reply path effects

def requested (msg : Msg) (disk : Disk) : Option (List UInt8) :=
  match msg.type with
  | .getList => ServerThread.getDirectoryContents disk
  | .getFile => ServerThread.getFileContents msg disk
  | _ => none

def isRefusal : Effect → Bool
  | .send msg => msg.isText nsfText
  | _ => false

def serve (st : Download) (disk : Disk) : Option Download :=
  (st.path.take .two).bind fun taken =>
    (st.server.run taken.1.msg disk).map fun r =>
      { st with
        server := r.1
        path := reply taken.2 r.2
        readings := if st.server.currentState = .waitingForRequest ∧ r.1.currentState = .sending
          then st.readings ++ (requested taken.1.msg disk).toList else st.readings
        refusals := st.refusals + r.2.countP isRefusal }

def acknowledge (st : Download) (acks : List Msg) : Path DownloadParcel :=
  acks.foldl (fun path ack => path.send .one ⟨ack,none,st.isAcked⟩) st.path

def handleMsg (st : Download) (serverMsg : Msg) : Option Download :=
  (st.receiver.handleMsg serverMsg).map fun handled =>
    let answered := { st with
      receiver := handled.receiver
      path := st.acknowledge handled.sent }
    match handled.thrown with
    | some what => { answered with phase := .catching serverMsg.sequenceNumber what }
    | none =>
      if handled.receiver.isPayloadComplete then
        { answered with phase := .flushing (nextNumber q serverMsg.sequenceNumber) }
      else answered

def finalAck (serverMsg : Msg) : Msg :=
  ⟨q.clientIdentifier,q.serverIdentifier,.ack,0,serverMsg.sequenceNumber,Buffer.copyIn []⟩

def receive (st : Download) : Option Download :=
  (st.path.take .one).bind fun taken =>
    let serverMsg := taken.1.msg
    let next := { st with path := taken.2 }
    match st.phase with
    | .receiving =>
      if serverMsg.serverId ≠ q.serverIdentifier then some next
      else match serverMsg.type with
        | .resp => handleMsg q { next with
            isAcked := next.isAcked || decide (serverMsg.sequenceNumber = q.sequenceNumber.val) }
            serverMsg
        | .respErr => handleMsg q next serverMsg
        | _ => some next
    | .flushing _ =>
      if serverMsg.isText eofText then
        some { next with path := next.acknowledge [finalAck q serverMsg] }
      else some next
    | _ => none

-- the handler of `performGet`; `performList` has none
def handle (st : Download) : Option Download :=
  match st.phase,q.operation with
  | .catching sequenceNumber what,.get _ =>
    if sequenceNumber = wrap (q.sequenceNumber.val + 1) ∧ what = "No such file." then
      some { st with
        phase := .noSuchFile
        isAcked := true }
    else some { st with phase := .uncaught }
  | .catching _ _,.list => some { st with phase := .uncaught }
  | _,_ => none

def timeOut (st : Download) : Option Download :=
  match st.phase with
  | .flushing sequenceNumber => st.receiver.getPayload.map fun got =>
      { st with
        phase := .finished sequenceNumber got.1
        receiver := got.2 }
  | _ => none

def step (st : Download) : Event → Option Download
  | .request => request q st
  | .attempt k sendtoFails => st.attempt k sendtoFails
  | .route source isDelayed isDamage =>
    (st.path.route id source isDelayed isDamage).map fun path => { st with path := path }
  | .idle => some { st with path := st.path.idle }
  | .serve disk => st.serve disk
  | .receive => st.receive q
  | .handle => st.handle q
  | .timeOut => st.timeOut

-- copies of the handshake and replies to them may still be on their way
structure Init (st : Download) : Prop where
  phase : st.phase = .receiving
  isAcked : st.isAcked = false
  receiver : ∃ rc : Receiver, st.receiver = rc.startNewPayload q.sequenceNumber.val
  state : st.server.currentState = .waitingForRequest
  serverId : st.server.serverId = q.serverIdentifier
  sender : st.server.sender = some (Sender.create q.serverIdentifier q.clientIdentifier)
  path : ∀ peer, ∀ p ∈ (st.path.line peer []).contents,
    p.msg.type = .handshake ∧ p.thread = none ∧ p.acked = false
  readings : st.readings = []
  refusals : st.refusals = 0

def system : System Download Event where
  init := Init q
  step := step q

end Download
end FtpOverUdp
