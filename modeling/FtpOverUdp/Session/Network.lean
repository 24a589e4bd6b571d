import FtpOverUdp.Router.Path
import FtpOverUdp.UdpServer.SessionTables
import FtpOverUdp.UdpServer.Worker

namespace FtpOverUdp

open Library

def Msg.count (msg : Msg) : ℤ := decodeInt msg.buffer.val

-- of a client's parcel `session` is the id of the session whose operation emitted it, `none` when
-- the operation was over; of a server's parcel `echo` tells whether it answers a HANDSHAKE
structure Parcel where
  msg : Msg
  session : Option ℤ
  echo : Bool
  deriving DecidableEq

structure FtpClient where
  serverIdentifier : ℤ
  syncCount : ℕ
  syncing : Bool
  requests : List Msg
  inbox : List Parcel

def FtpClient.start : FtpClient := ⟨nullServerId,0,false,[],[]⟩

def FtpClient.completed (cl : FtpClient) : ℕ := if cl.syncing then cl.syncCount - 1 else cl.syncCount

inductive DispatcherStage
  | ready
  | dispatching (serverId : ℤ) (parcel : Parcel)
  | retiring (parcel : Parcel)
  | joining (parcel : Parcel)
  deriving DecidableEq

structure Network where
  tables : FtpServer
  stage : DispatcherStage
  workers : Table ℤ Worker
  clients : ℤ → FtpClient
  path : Path Parcel
  served : List Msg
  dispatched : List (ℤ × Parcel)

namespace Network

inductive Event
  | beginSync (clientId sequenceNumber : ℤ)
  | retransmit (clientId : ℤ) (request : Msg)
  | emit (msg : Msg) (outlived : Bool)
  | emitServer (msg : Msg)
  | route (source : Peer) (isDelayed isDamage : Bool)
  | idle
  | relay
  | read (clientId : ℤ)
  | receive (drawn : ℤ)
  | dispatch
  | retire
  | respawn (drawn : ℤ)
  | work (serverId : ℤ) (disk : Disk)

def start (areServerIdsReused : Bool) : Network where
  tables := FtpServer.create areServerIdsReused
  stage := .ready
  workers := fun _ => none
  clients := fun _ => FtpClient.start
  path := Path.start
  served := []
  dispatched := []

variable (st : Network)

def setClient (clientId : ℤ) (cl : FtpClient) : Network :=
  { st with clients := Function.update st.clients clientId cl }

def beginSync (clientId sequenceNumber : ℤ) : Option Network :=
  let cl := st.clients clientId
  if cl.syncing = false ∧ cl.syncCount + 1 < 2 ^ 31 then
    let request := (SenderThread.create cl.serverIdentifier clientId .handshake sequenceNumber
      (encodeInt (cl.syncCount + 1 : ℕ))).msg
    some (st.setClient clientId { cl with
      syncCount := cl.syncCount + 1
      syncing := true
      requests := cl.requests ++ [request] })
  else none

-- a SenderThread may send once more after its flag was set
def retransmit (clientId : ℤ) (request : Msg) : Option Network :=
  if request ∈ (st.clients clientId).requests then
    some { st with path := st.path.send .one ⟨request,none,false⟩ }
  else none

def knows (cl : FtpClient) (serverId : ℤ) : Bool :=
  serverId = nullServerId || serverId = cl.serverIdentifier ||
    cl.requests.any (fun request => request.serverId = serverId)

-- `outlived` is a SenderThread that sends once more when its operation is over
def emit (msg : Msg) (outlived : Bool) : Option Network :=
  let cl := st.clients msg.clientId
  let session := if cl.syncing || outlived then none else some cl.serverIdentifier
  if msg.type ≠ .handshake ∧ 1 ≤ cl.completed ∧ knows cl msg.serverId then
    some { st with path := st.path.send .one ⟨msg,session,false⟩ }
  else none

def emitServer (msg : Msg) : Option Network :=
  if msg.type ≠ .handshake then
    some { st with path := st.path.send .two ⟨msg,none,false⟩ }
  else none

def relay : Option Network :=
  (st.path.take .one).map fun (parcel,path) =>
    let cl := st.clients parcel.msg.clientId
    { st.setClient parcel.msg.clientId { cl with inbox := cl.inbox ++ [parcel] } with path := path }

def answers (cl : FtpClient) (msg : Msg) : Bool :=
  cl.syncing && decide (msg.type = .handshake) && decide (msg.serverId ≠ cl.serverIdentifier) &&
    decide (msg.count = cl.syncCount)

def read (clientId : ℤ) : Option Network :=
  let cl := st.clients clientId
  match cl.inbox with
  | [] => none
  | parcel :: rest =>
    if answers cl parcel.msg then
      some (st.setClient clientId { cl with
        inbox := rest
        serverIdentifier := parcel.msg.serverId
        syncing := false })
    else some (st.setClient clientId { cl with inbox := rest })

def next (target : ℤ) (parcel : Parcel) : DispatcherStage :=
  if target = nullServerId then .ready else .dispatching target parcel

-- the part of `getServerId` up to its first wait
def receive (drawn : ℤ) : Option Network :=
  if st.stage = .ready then
    (st.path.take .two).bind fun (parcel,path) =>
      let message := parcel.msg
      let taken := { st with
        path := path
        served := st.served ++ [message] }
      match st.tables.clientIds message.clientId with
      | none => (st.tables.registerClient message.clientId drawn).map fun tables =>
        { taken with
          tables := tables
          workers := st.workers.assign drawn (Worker.create drawn)
          stage := next (tables.resolveId message message.serverId) parcel }
      | some currentServerId =>
        if message.type = .handshake ∧ message.serverId = currentServerId then
          some { taken with
            tables := st.tables.deactivate message.clientId currentServerId
            stage := .retiring parcel }
        else
          some { taken with stage := next (st.tables.resolveId message
            (st.tables.requestedId currentServerId message)) parcel }
  else none

def handOver (serverId : ℤ) (parcel : Parcel) (stage : DispatcherStage) : Option Network :=
  (st.workers serverId).bind fun worker =>
    (worker.accept { parcel.msg with serverId := serverId }).map fun worker =>
      { st with
        tables := st.tables.dispatchMessage serverId parcel.msg
        workers := st.workers.assign serverId worker
        stage := stage
        dispatched := st.dispatched ++ [(serverId,parcel)] }

def dispatch : Option Network :=
  match st.stage with
  | .dispatching serverId parcel => st.handOver serverId parcel .ready
  | _ => none

def retire : Option Network :=
  match st.stage with
  | .retiring parcel => st.handOver parcel.msg.serverId parcel (.joining parcel)
  | _ => none

def isFree (serverId : ℤ) : Bool :=
  (st.workers serverId).any fun worker =>
    decide (worker.phase = .idle) || decide (worker.phase = .left false)

def respawn (drawn : ℤ) : Option Network :=
  match st.stage with
  | .joining parcel =>
    let message := parcel.msg
    -- without reuse of ids nobody waits for the retired thread
    if !st.tables.areServerIdsReused || st.isFree message.serverId then
      ((st.tables.releaseId message.serverId).respawn message.clientId drawn).map fun tables =>
        { st with
          tables := tables
          workers := st.workers.assign drawn (Worker.create drawn)
          stage := next (tables.resolveId message message.serverId) parcel }
    else none
  | _ => none

def replies (worker : Worker) (effects : List Effect) : List Parcel :=
  effects.filterMap fun e =>
    match e,worker.phase with
    | .send msg,.busy message => some ⟨msg,none,message.type = .handshake⟩
    | _,_ => none

def sendAll (path : Path Parcel) (parcels : List Parcel) : Path Parcel :=
  parcels.foldl (fun path parcel => path.send .two parcel) path

def releases (worker : Worker) : Bool :=
  decide (worker.phase = .resting) || decide (worker.phase = .terminating)

def work (serverId : ℤ) (disk : Disk) : Option Network :=
  (st.workers serverId).bind fun worker =>
    (worker.step (st.tables.isThreadActive serverId = some true) disk).map fun (stepped,effects) =>
      { st with
        tables := if releases worker then { st.tables with
            threadLocks := st.tables.threadLocks.modify serverId AsyncLock.finalizeConsumption }
          else st.tables
        workers := st.workers.assign serverId stepped
        path := sendAll st.path (replies worker effects) }

def step (st : Network) : Event → Option Network
  | .beginSync clientId sequenceNumber => st.beginSync clientId sequenceNumber
  | .retransmit clientId request => st.retransmit clientId request
  | .emit msg outlived => st.emit msg outlived
  | .emitServer msg => st.emitServer msg
  | .route source isDelayed isDamage =>
    (st.path.route id source isDelayed isDamage).map fun path => { st with path := path }
  | .idle => some { st with path := st.path.idle }
  | .relay => st.relay
  | .read clientId => st.read clientId
  | .receive drawn => st.receive drawn
  | .dispatch => st.dispatch
  | .retire => st.retire
  | .respawn drawn => st.respawn drawn
  | .work serverId disk => st.work serverId disk

def system : System Network Event where
  init st := ∃ areServerIdsReused, st = start areServerIdsReused
  step := step

end Network
end FtpOverUdp
