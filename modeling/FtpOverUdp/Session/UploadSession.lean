import FtpOverUdp.Session.Network
import FtpOverUdp.UdpClient.RoutedUpload
import FtpOverUdp.UdpServer.Named
import FtpOverUdp.UdpServer.Rehandshake

namespace FtpOverUdp

open Library

-- where `showMenu` stands: before its call of `syncServer`, in it, after it, in `performUpload`
inductive UploadStage
  | menu
  | syncing
  | synced
  | uploading (request : UploadRequest)

-- one client that uploads one file after the other, and the server with the tables of all clients;
-- of the server's threads `upload.server` is the client's, and `finished` and `saves` are those of
-- the uploads that have returned
structure UploadSession where
  clientId : ℤ
  serverIdentifier : ℤ
  syncCount : ℕ
  sequenceNumber : ℤ
  stage : UploadStage
  tables : FtpServer
  upload : RoutedUpload
  finished : List UploadRequest
  saves : List (List UInt8 × Payload)

namespace UploadParcel

-- as the next session sees what an upload has left on its way
def outdated (p : UploadParcel) : UploadParcel :=
  if p.origin = .other then p else { p with origin := .past }

-- as an upload sees what `syncServer` has left on its way
def arrived (serverIdentifier : ℤ) : Peer → UploadParcel → UploadParcel
  | .one,p => p
  | .two,p =>
    if p.origin = .other then p
    else if p.msg.serverId = serverIdentifier then { p with origin := .handshake }
    else { p with origin := .past }

end UploadParcel

namespace UploadSession

inductive Event
  | showMenu
  | handshake
  | read
  | performUpload (filename contents : List UInt8)
  | request
  | attempt (thread : ℕ) (sendtoFails : Bool)
  | receive
  | returned
  | other (source : Peer) (msg : Msg)
  | route (source : Peer) (isDelayed isDamage : Bool)
  | idle
  | serve (drawn : ℤ) (disk : Disk)

variable (st : UploadSession)

def via (path : Path UploadParcel) : UploadSession :=
  { st with upload := { st.upload with path := path } }

def showMenu : Option UploadSession :=
  match st.stage with
  | .menu =>
    if st.syncCount + 1 < 2 ^ 31 then
      some { st with
        stage := .syncing
        sequenceNumber := wrap (st.sequenceNumber + 1)
        syncCount := st.syncCount + 1 }
    else none
  | _ => none

def handshakeMsg : Msg :=
  (SenderThread.create st.serverIdentifier st.clientId .handshake st.sequenceNumber
    (encodeInt st.syncCount)).msg

def handshake : Option UploadSession :=
  match st.stage with
  | .syncing => some (st.via (st.upload.path.send .one ⟨st.handshakeMsg,.handshake,false⟩))
  | _ => none

def read : Option UploadSession :=
  match st.stage with
  | .syncing => (st.upload.path.take .one).map fun taken =>
      let msg := taken.1.msg
      if msg.clientId = st.clientId ∧ msg.type = .handshake ∧
          msg.serverId ≠ st.serverIdentifier ∧ msg.count = (st.syncCount : ℤ) then
        { st.via taken.2 with
          stage := .synced
          serverIdentifier := msg.serverId
          sequenceNumber := wrap (st.sequenceNumber + 1) }
      else st.via taken.2
  | _ => none

def nextRequest (filename contents : List UInt8) (seed : Slot) : UploadRequest :=
  ⟨st.serverIdentifier,filename,⟨st.upload.sender.serverId,st.clientId,contents,seed⟩⟩

def nextUpload : RoutedUpload :=
  { st.upload with
    phase := .requesting
    base := st.upload.sender.threads.length
    path := st.upload.path.map (UploadParcel.arrived st.serverIdentifier) }

def performUpload (filename contents : List UInt8) : Option UploadSession :=
  match st.stage with
  | .synced => (slotOf st.sequenceNumber).map fun seed => { st with
      stage := .uploading (st.nextRequest filename contents seed)
      upload := st.nextUpload }
  | _ => none

def uploads (f : UploadRequest → Option RoutedUpload) : Option UploadSession :=
  match st.stage with
  | .uploading q => (f q).map fun upload => { st with upload := upload }
  | _ => none

def returned : Option UploadSession :=
  match st.stage,st.upload.phase with
  | .uploading q,.uploaded sequenceNumber => some { st with
      stage := .menu
      sequenceNumber := sequenceNumber
      upload := { st.upload with
        path := st.upload.path.map fun _ => UploadParcel.outdated
        saves := [] }
      finished := st.finished ++ [q]
      saves := st.saves ++ st.upload.saves }
  | _,_ => none

def other (source : Peer) (msg : Msg) : Option UploadSession :=
  if msg.clientId ≠ st.clientId then
    some (st.via (st.upload.path.send source ⟨msg,.other,false⟩))
  else none

def serve (drawn : ℤ) (disk : Disk) : Option UploadSession :=
  (st.upload.path.take .two).bind fun taken =>
    let msg := taken.1.msg
    (st.tables.turn ⟨msg,drawn⟩).bind fun r =>
      let next := { st.via taken.2 with tables := r.1.dispatchMessage r.2.target msg }
      -- the thread of another client
      if msg.clientId ≠ st.clientId then some next
      else
        let server := (r.2.created.map ServerThread.started).getD st.upload.server
        if r.2.target = nullServerId then
          some { next with upload := { next.upload with server := server } }
        else if r.1.isThreadActive r.2.target = some true then
          (server.run msg disk).map fun out => { next with upload := { next.upload with
            server := out.1
            path := RoutedUpload.replies taken.1 taken.2 out.2
            saves := st.upload.saves ++ RoutedUpload.saved out.2 } }
        -- the thread leaves, through the sender that it has not created
        else none

def step : Event → Option UploadSession
  | .showMenu => st.showMenu
  | .handshake => st.handshake
  | .read => st.read
  | .performUpload filename contents => st.performUpload filename contents
  | .request => st.uploads fun q => RoutedUpload.request q st.upload
  | .attempt k sendtoFails => st.uploads fun _ => st.upload.attempt k sendtoFails
  | .receive => st.uploads fun q => st.upload.receive q
  | .returned => st.returned
  | .other source msg => st.other source msg
  | .route source isDelayed isDamage =>
    (st.upload.path.route UploadParcel.mark source isDelayed isDamage).map st.via
  | .idle => some (st.via st.upload.path.idle)
  | .serve drawn disk => st.serve drawn disk

-- the client has its id from the multiplexer, and the server has not heard of it
structure Init (st : UploadSession) : Prop where
  stage : st.stage = .menu
  serverIdentifier : st.serverIdentifier = nullServerId
  sender : st.upload.sender = Sender.create nullServerId st.clientId
  tables : st.tables.clientIds st.clientId = none
  path : ∀ peer, (st.upload.path.line peer []).All fun p =>
    p.origin = .other ∧ p.msg.clientId ≠ st.clientId
  held : ∀ peer, ∀ p ∈ (st.upload.path.line peer []).held, p.delayed = true
  finished : st.finished = []
  saves : st.saves = [] ∧ st.upload.saves = []

def system : System UploadSession Event where
  init := Init
  step := step

end UploadSession
end FtpOverUdp
