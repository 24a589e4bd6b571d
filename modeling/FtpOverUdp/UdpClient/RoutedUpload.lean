import FtpOverUdp.Router.Path
import FtpOverUdp.UdpClient.Upload

namespace FtpOverUdp

open Library

-- what a message is a copy of, or what it answers; `past` is a reply from an earlier session of the
-- client, and `other` is what other clients and their threads send through the same router
inductive Origin
  | handshake
  | past
  | other
  | request
  | packet (thread : ℕ)
  deriving DecidableEq

structure UploadParcel where
  msg : Msg
  origin : Origin
  delayed : Bool

def UploadParcel.mark (p : UploadParcel) : UploadParcel := { p with delayed := true }

-- `base` is what earlier payloads have left in `sender.threads`, and `saves` what the server's
-- thread was told to save; no step reads them
structure RoutedUpload where
  phase : UploadPhase
  sender : Sender
  base : ℕ
  server : ServerThread
  path : Path UploadParcel
  saves : List (List UInt8 × Payload)

namespace RoutedUpload

-- the client sends from `.one` and the server from `.two`
inductive Event
  | request
  | attempt (thread : ℕ) (sendtoFails : Bool)
  | other (source : Peer) (msg : Msg)
  | route (source : Peer) (isDelayed isDamage : Bool)
  | idle
  | serve (disk : Disk)
  | receive

variable (q : UploadRequest)

def request (st : RoutedUpload) : Option RoutedUpload :=
  if st.phase = .requesting then
    some { st with path := st.path.send .one ⟨Upload.requestMsg q,.request,false⟩ }
  else none

def attempt (st : RoutedUpload) (k : ℕ) (sendtoFails : Bool) : Option RoutedUpload :=
  (st.sender.attempt k sendtoFails).map fun r =>
    { st with
      sender := r.1
      path := match r.2 with
        | .sent msg => st.path.send .one ⟨msg,.packet (k - st.base),false⟩
        | .failed | .left => st.path }

def other (st : RoutedUpload) (source : Peer) (msg : Msg) : Option RoutedUpload :=
  if msg.clientId ≠ q.transmission.clientId then
    some { st with path := st.path.send source ⟨msg,.other,false⟩ }
  else none

def replies (answered : UploadParcel) (path : Path UploadParcel) :
    List Effect → Path UploadParcel
  | [] => path
  | .send msg :: effects =>
    replies answered (path.send .two ⟨msg,answered.origin,answered.delayed⟩) effects
  | _ :: effects => replies answered path effects

def saved (effects : List Effect) : List (List UInt8 × Payload) :=
  effects.filterMap fun effect =>
    match effect with
    | .save filename fileContents => some (filename,fileContents)
    | _ => none

def serve (st : RoutedUpload) (disk : Disk) : Option RoutedUpload :=
  (st.path.take .two).bind fun taken =>
    -- what another client sends goes to the thread of that client
    if taken.1.msg.clientId ≠ q.transmission.clientId then some { st with path := taken.2 }
    else (st.server.run taken.1.msg disk).map fun r =>
      { st with
        server := r.1
        path := replies taken.1 taken.2 r.2
        saves := st.saves ++ saved r.2 }

def beginSending (st : RoutedUpload) : Option RoutedUpload :=
  ((st.sender.initializePayload (some q.transmission.contents) q.transmission.seed.val).bind
    Sender.send).map fun sender =>
      { st with
        phase := .sending
        sender := sender }

def takeAck (st : RoutedUpload) (msg : Msg) : Option RoutedUpload :=
  (st.sender.processAck msg.sequenceNumber).map fun sender =>
    { st with
      sender := sender
      phase := if sender.isPayloadSent then .uploaded sender.finalSequenceNumber else st.phase }

def receive (st : RoutedUpload) : Option RoutedUpload :=
  (st.path.take .one).bind fun taken =>
    let msg := taken.1.msg
    let next := { st with path := taken.2 }
    -- the multiplexer hands it to the client it is for
    if msg.clientId ≠ q.transmission.clientId then some next
    else match st.phase with
    | .requesting =>
      if msg.type ≠ .ack ∨ msg.sequenceNumber ≠ q.transmission.seed.val ∨
          msg.serverId ≠ q.serverIdentifier then some next
      else next.beginSending q
    | .sending =>
      if msg.serverId = q.serverIdentifier ∧ msg.type = .ack then next.takeAck msg
      else some next
    | .uploaded _ => none

def step (st : RoutedUpload) : Event → Option RoutedUpload
  | .request => request q st
  | .attempt k sendtoFails => st.attempt k sendtoFails
  | .other source msg => other q st source msg
  | .route source isDelayed isDamage =>
    (st.path.route UploadParcel.mark source isDelayed isDamage).map fun path =>
      { st with path := path }
  | .idle => some { st with path := st.path.idle }
  | .serve disk => serve q st disk
  | .receive => st.receive q

-- what may be on its way before the request is
def Earlier (p : UploadParcel) : Prop :=
  match p.origin with
  | .handshake => p.msg.type = .handshake
  | .past => p.msg.serverId ≠ q.serverIdentifier
  | .other => p.msg.clientId ≠ q.transmission.clientId
  | .request | .packet _ => False

-- the threads of earlier payloads have ended
structure Init (st : RoutedUpload) : Prop where
  phase : st.phase = .requesting
  serverId : st.sender.serverId = q.transmission.serverId
  clientId : st.sender.clientId = q.transmission.clientId
  acked : ∀ t ∈ st.sender.threads, t.isAcked = true
  base : st.base = st.sender.threads.length
  state : st.server.currentState = .waitingForRequest
  receiver : st.server.receiver.isSome
  path : ∀ peer, (st.path.line peer []).All (Earlier q)
  greeted : (st.path.line .one []).All fun p => p.origin ≠ .past
  held : ∀ peer, ∀ p ∈ (st.path.line peer []).held, p.delayed = true
  saves : st.saves = []

def system : System RoutedUpload Event where
  init := Init q
  step := step q

end RoutedUpload
end FtpOverUdp
