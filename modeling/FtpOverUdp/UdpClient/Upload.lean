import FtpOverUdp.Transfer.Fifo
import FtpOverUdp.UdpServer.ServerThread

namespace FtpOverUdp

open Library

-- `copyOf` is the thread whose copy this is, or whose copy it answers; `none` is the request
structure Datagram where
  msg : Msg
  copyOf : Option ℕ

inductive UploadPhase
  | requesting
  | sending
  | uploaded (sequenceNumber : ℤ)
  deriving DecidableEq

structure Upload where
  phase : UploadPhase
  sender : Sender
  server : ServerThread
  toServer : List Datagram
  toClient : List Datagram
  requestAcks : ℕ

structure UploadRequest where
  serverIdentifier : ℤ
  filename : List UInt8
  transmission : Transmission

namespace Upload

inductive Event
  | request
  | attempt (thread : ℕ) (sendtoFails : Bool)
  | loseToServer
  | loseToClient
  | serve (disk : Disk)
  | receive

variable (q : UploadRequest)

def requestMsg : Msg :=
  (SenderThread.create q.serverIdentifier q.transmission.clientId .post
    q.transmission.seed.val q.filename).msg

def attempt (st : Upload) (k : ℕ) (sendtoFails : Bool) : Option Upload :=
  (st.sender.attempt k sendtoFails).map fun r =>
    match r.2 with
    | .sent msg => { st with
        sender := r.1
        toServer := st.toServer ++ [⟨msg,some k⟩] }
    | .failed | .left => { st with sender := r.1 }

def replies (answered : Datagram) (effects : List Effect) : List Datagram :=
  effects.filterMap fun e =>
    match e with
    | .send msg => some ⟨msg,answered.copyOf⟩
    | _ => none

def serve (st : Upload) (disk : Disk) : Option Upload :=
  match st.toServer with
  | [] => none
  | d :: rest => (st.server.run d.msg disk).map fun r =>
      { st with
        server := r.1
        toServer := rest
        toClient := st.toClient ++ replies d r.2 }

def beginSending (st : Upload) : Option Upload :=
  ((st.sender.initializePayload (some q.transmission.contents) q.transmission.seed.val).bind
    Sender.send).map fun sender => { st with
      phase := .sending
      sender := sender }

def takeAck (st : Upload) (msg : Msg) : Option Upload :=
  (st.sender.processAck msg.sequenceNumber).map fun sender => { st with
    sender := sender
    phase := if sender.isPayloadSent then .uploaded sender.finalSequenceNumber else st.phase }

def isRequestAck (d : Datagram) : Bool :=
  d.msg.type = .ack && d.msg.serverId = q.serverIdentifier && d.copyOf.isNone

def receive (st : Upload) : Option Upload :=
  match st.toClient with
  | [] => none
  | d :: rest =>
    let taken := { st with
      toClient := rest
      requestAcks := st.requestAcks + (isRequestAck q d).toNat }
    match st.phase with
    | .requesting =>
      if d.msg.type ≠ .ack ∨ d.msg.sequenceNumber ≠ q.transmission.seed.val ∨
          d.msg.serverId ≠ q.serverIdentifier then some taken
      else taken.beginSending q
    | .sending =>
      if d.msg.serverId = q.serverIdentifier ∧ d.msg.type = .ack then taken.takeAck d.msg
      else some taken
    | .uploaded _ => none

def step (st : Upload) : Event → Option Upload
  | .request =>
    if st.phase = .requesting then
      some { st with toServer := st.toServer ++ [⟨requestMsg q,none⟩] }
    else none
  | .attempt k sendtoFails => st.attempt k sendtoFails
  | .loseToServer => some { st with toServer := st.toServer.tail }
  | .loseToClient => some { st with toClient := st.toClient.tail }
  | .serve disk => st.serve disk
  | .receive => st.receive q

structure Init (st : Upload) : Prop where
  phase : st.phase = .requesting
  sender : st.sender = Sender.create q.transmission.serverId q.transmission.clientId
  state : st.server.currentState = .waitingForRequest
  serverId : st.server.serverId = q.serverIdentifier
  receiver : st.server.receiver.isSome
  toServer : st.toServer = []
  toClient : st.toClient = []
  requestAcks : st.requestAcks = 0

def system : System Upload Event where
  init := Init q
  step := step q

end Upload
end FtpOverUdp
