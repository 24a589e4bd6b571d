import FtpOverUdp.Common.File
import FtpOverUdp.Common.Receiver

namespace FtpOverUdp

inductive ServerState
  | initializing
  | startingHandshake
  | waitingForRequest
  | sending
  | receiving
  | renaming
  deriving DecidableEq

-- what the file system and the heap answer while one message is processed
structure Disk where
  pathFileExists : List UInt8 → Bool
  findFirstFile : List UInt8 → Option (List UInt8)
  directory : List (List UInt8)
  heap : Heap

def Disk.empty : Disk := ⟨fun _ => false,fun _ => none,[],.exact⟩

inductive Effect
  | send (msg : Msg)
  | rename (filename newFilename : List UInt8)
  | save (filename : List UInt8) (fileContents : Payload)
  deriving DecidableEq

structure ServerThread where
  serverId : ℤ
  currentState : ServerState
  sender : Option Sender
  receiver : Option Receiver
  filename : List UInt8
  sequenceNumber : ℤ

namespace ServerThread

def filesDirectory : List UInt8 :=
  ascii ['s','e','r','v','e','r','F','i','l','e','s',Char.ofNat 92]

def create (serverId : ℤ) : ServerThread where
  serverId := serverId
  currentState := .initializing
  sender := none
  receiver := none
  filename := []
  sequenceNumber := 0

abbrev Outcome := ServerThread × List Effect

variable (self : ServerThread) (currentMsg : Msg)

def sendMsg (type : MsgType) (sequenceNumber : ℤ) (data : List UInt8) : Effect :=
  .send ⟨currentMsg.clientId,self.serverId,type,data.length,sequenceNumber,Buffer.copyIn data⟩

def sendAck : Effect := self.sendMsg currentMsg .ack currentMsg.sequenceNumber []

def initServerWithClientData : ServerThread :=
  { self with
    sender := some (Sender.create self.serverId currentMsg.clientId)
    receiver := some (Receiver.create self.serverId currentMsg.clientId)
    currentState := .waitingForRequest }

-- `none` is a copy past the end of a buffer, here and below
def startHandshake : Option Effect :=
  if 0 ≤ currentMsg.length ∧ currentMsg.length ≤ bufferLength then
    some (self.sendMsg currentMsg .handshake (wrap self.serverId)
      (currentMsg.buffer.copyOut currentMsg.length.toNat))
  else none

-- `none` also where the `int` does not hold the sum of the lengths
def getDirectoryContents (disk : Disk) : Option (List UInt8) :=
  (disk.directory.mapM (disk.heap.strcpy filenameLength)).bind fun payloadData =>
    let payload := payloadData.flatMap (· ++ [0])
    if payload.length < 2 ^ 31 then some payload else none

def getFileContents (disk : Disk) : Option (List UInt8) :=
  let c_filename := (currentMsg.buffer.copyOut currentMsg.length.toNat).takeWhile (· ≠ 0)
  (disk.findFirstFile (filesDirectory ++ c_filename)).bind readFile

def startSender (payloadData : List UInt8) : Option ServerThread :=
  self.sender.bind fun sender =>
    (sender.initializePayload (some payloadData) currentMsg.sequenceNumber).bind fun loaded =>
      loaded.send.map fun started => { self with sender := some started }

def sendList (disk : Disk) : Option Outcome :=
  let sending := { self with
    currentState := .sending
    sequenceNumber := currentMsg.sequenceNumber }
  ((getDirectoryContents disk).bind (sending.startSender currentMsg)).map (·,[])

def sendFile (disk : Disk) : Option Outcome :=
  let sending := { self with
    currentState := .sending
    sequenceNumber := currentMsg.sequenceNumber }
  match (getFileContents currentMsg disk).bind (sending.startSender currentMsg) with
  | some started => some (started,[])
  | none =>
    let sequenceNumber := wrap (currentMsg.sequenceNumber + 1)
    let waiting := { self with
      currentState := .waitingForRequest
      sequenceNumber := sequenceNumber }
    some (waiting,[self.sendMsg currentMsg .respErr sequenceNumber (nsfText ++ [0])])

def getFile : Option Outcome :=
  self.receiver.map fun receiver =>
    ({ self with
        currentState := .receiving
        sequenceNumber := currentMsg.sequenceNumber
        receiver := some (receiver.startNewPayload currentMsg.sequenceNumber)
        filename := currentMsg.buffer.copyOut currentMsg.length.toNat },
      [self.sendAck currentMsg])

def notifyFileError (sequenceNumber : ℤ) : Effect :=
  self.sendMsg currentMsg .respErr sequenceNumber (faeText ++ [0])

def startRename (disk : Disk) : Outcome :=
  let filename := filesDirectory ++ currentMsg.buffer.cString
  let named := { self with
    filename := filename
    sequenceNumber := currentMsg.sequenceNumber }
  if disk.pathFileExists filename then
    ({ named with currentState := .renaming },[self.sendAck currentMsg])
  else (named,[self.notifyFileError currentMsg currentMsg.sequenceNumber])

def performRename (disk : Disk) : Outcome :=
  let newFilename := filesDirectory ++ currentMsg.buffer.cString
  let numbered := { self with sequenceNumber := currentMsg.sequenceNumber }
  if disk.pathFileExists newFilename then
    (numbered,[self.notifyFileError currentMsg currentMsg.sequenceNumber])
  else (numbered,[self.sendAck currentMsg,.rename self.filename newFilename])

def dispatchToSender : Option Outcome :=
  self.sender.bind fun sender =>
    (sender.processAck currentMsg.sequenceNumber).map fun acked =>
      if acked.isPayloadSent then
        ({ self with
            sender := some acked
            sequenceNumber := acked.finalSequenceNumber
            currentState := .waitingForRequest },[])
      else ({ self with sender := some acked },[])

def dispatchToReceiver : Option Outcome :=
  self.receiver.bind fun receiver =>
    (receiver.handleMsg currentMsg).bind fun handled =>
      let sent := handled.sent.map Effect.send
      match handled.thrown,handled.receiver.getPayload with
      | some _,_ => none
      | none,some (payload,drained) =>
        some ({ self with
            receiver := some drained
            sequenceNumber := handled.receiver.finalSequenceNumber
            currentState := .waitingForRequest },sent ++ [.save self.filename payload])
      | none,none => some ({ self with receiver := some handled.receiver },sent)

def handleRequest (disk : Disk) : Option Outcome :=
  match currentMsg.type with
  | .handshake => (self.startHandshake currentMsg).map fun reply => (self,[reply])
  | .getList => self.sendList currentMsg disk
  | .getFile => self.sendFile currentMsg disk
  | .post => self.getFile currentMsg
  | .put => some (self.startRename currentMsg disk)
  | .resp | .respErr => some (self,[self.sendAck currentMsg])
  | _ => some (self,[])

def handleUpload : Option Outcome :=
  if currentMsg.type = .resp ∨ currentMsg.isText eofText then self.dispatchToReceiver currentMsg
  else if currentMsg.type = .post then some (self,[self.sendAck currentMsg])
  else some (self,[])

def handleRename (disk : Disk) : Outcome :=
  if currentMsg.sequenceNumber = self.sequenceNumber then
    match currentMsg.type with
    | .put => (self,[self.sendAck currentMsg])
    | .resp => (self,[self.notifyFileError currentMsg self.sequenceNumber])
    | _ => (self,[])
  else if currentMsg.sequenceNumber = wrap (self.sequenceNumber + 1) ∧ currentMsg.type = .resp then
    self.performRename currentMsg disk
  else (self,[])

-- one turn of the loop of `run`, between two calls of `outerSync`
def run (disk : Disk) : Option Outcome :=
  match self.currentState with
  | .initializing => some ({ self with currentState := .startingHandshake },[])
  | .startingHandshake =>
    let ready := self.initServerWithClientData currentMsg
    (ready.startHandshake currentMsg).map fun reply => (ready,[reply])
  | .waitingForRequest => self.handleRequest currentMsg disk
  | .sending => if currentMsg.type = .ack then self.dispatchToSender currentMsg else some (self,[])
  | .receiving => self.handleUpload currentMsg
  | .renaming => some (self.handleRename currentMsg disk)

variable {self : ServerThread} {currentMsg : Msg}

theorem getDirectoryContents_eq_some {disk : Disk} {payload : List UInt8} :
    getDirectoryContents disk = some payload ↔
      (∀ name ∈ disk.directory, name.length + 1 ≤ disk.heap.block filenameLength) ∧
        payload.length < 2 ^ 31 ∧ disk.directory.flatMap (· ++ [0]) = payload := by
  rw [getDirectoryContents,Heap.mapM_strcpy]
  split_ifs with hfits
  · rw [Option.bind_some]
    dsimp only
    split_ifs with hsmall
    · rw [Option.some.injEq]
      exact ⟨fun h => ⟨hfits,h ▸ hsmall,h⟩,fun h => h.2.2⟩
    · refine ⟨(nomatch ·),fun h => absurd ?_ hsmall⟩
      rw [h.2.2]
      exact h.2.1
  · exact ⟨(nomatch ·),fun h => absurd h.1 hfits⟩

theorem run_post (disk : Disk) (htype : currentMsg.type = .post)
    (hstate : self.currentState = .waitingForRequest ∨ self.currentState = .receiving)
    (hrc : self.receiver.isSome) :
    ∃ self', self.run currentMsg disk = some (self',[self.sendAck currentMsg]) ∧
      self'.currentState = .receiving ∧ self'.serverId = self.serverId ∧
      self'.receiver = if self.currentState = .receiving then self.receiver
        else self.receiver.map (·.startNewPayload currentMsg.sequenceNumber) := by
  obtain ⟨rc,hrc⟩ := Option.isSome_iff_exists.mp hrc
  rcases hstate with hs | hs
  · simp only [run,hs,handleRequest,htype,getFile,hrc,Option.map_some]
    exact ⟨_,rfl,rfl,rfl,by simp⟩
  · refine ⟨self,?_,hs,rfl,(if_pos hs).symm⟩
    simp [run,hs,handleUpload,htype,Msg.isText]

theorem run_receiving (disk : Disk) (hstate : self.currentState = .receiving)
    (hmsg : currentMsg.type = .resp ∨ currentMsg.isText eofText) :
    self.run currentMsg disk = self.dispatchToReceiver currentMsg := by
  simp only [run,hstate,handleUpload]
  exact if_pos hmsg

theorem run_waiting_resp (disk : Disk) (hstate : self.currentState = .waitingForRequest)
    (hmsg : currentMsg.type = .resp ∨ currentMsg.type = .respErr) :
    self.run currentMsg disk = some (self,[self.sendAck currentMsg]) := by
  rcases hmsg with h | h <;> simp only [run,hstate,handleRequest,h]

theorem run_renaming (disk : Disk) (hstate : self.currentState = .renaming) :
    self.run currentMsg disk = some (self.handleRename currentMsg disk) := by
  simp only [run,hstate]

-- a copy of the number just served is answered by its type alone, the next number is executed
inductive RenameReply (self : ServerThread) (currentMsg : Msg) : Outcome → Prop
  | ignored : RenameReply self currentMsg (self,[])
  | repeated (htype : currentMsg.type = .put)
      (hnum : currentMsg.sequenceNumber = self.sequenceNumber) :
      RenameReply self currentMsg (self,[self.sendAck currentMsg])
  | refused (htype : currentMsg.type = .resp)
      (hnum : currentMsg.sequenceNumber = self.sequenceNumber) :
      RenameReply self currentMsg (self,[self.notifyFileError currentMsg currentMsg.sequenceNumber])
  | existing (htype : currentMsg.type = .resp)
      (hnum : currentMsg.sequenceNumber ≠ self.sequenceNumber) :
      RenameReply self currentMsg ({ self with sequenceNumber := currentMsg.sequenceNumber },
        [self.notifyFileError currentMsg currentMsg.sequenceNumber])
  | executed (htype : currentMsg.type = .resp)
      (hnum : currentMsg.sequenceNumber ≠ self.sequenceNumber) :
      RenameReply self currentMsg ({ self with sequenceNumber := currentMsg.sequenceNumber },
        [self.sendAck currentMsg,
          .rename self.filename (filesDirectory ++ currentMsg.buffer.cString)])

theorem handleRename_reply (disk : Disk) :
    RenameReply self currentMsg (self.handleRename currentMsg disk) := by
  unfold handleRename
  split_ifs with hnum hnext
  · split
    · rename_i htype
      exact .repeated htype hnum
    · rename_i htype
      exact hnum ▸ .refused htype hnum
    · exact .ignored
  · dsimp only [performRename]
    split_ifs
    · exact .existing hnext.2 hnum
    · exact .executed hnext.2 hnum
  · exact .ignored

end ServerThread
end FtpOverUdp
