import FtpOverUdp.Common.AsyncLock
import FtpOverUdp.Common.Msg
import FtpOverUdp.Library.Table

namespace FtpOverUdp

open Library

structure FtpServer where
  areServerIdsReused : Bool
  clientIds : Table ℤ ℤ
  pastServerIds : Table ℤ ℤ
  messages : Table ℤ Msg
  isThreadActive : Table ℤ Bool
  threadLocks : Table ℤ AsyncLock

namespace FtpServer

def create (areServerIdsReused : Bool) : FtpServer where
  areServerIdsReused := areServerIdsReused
  clientIds := fun _ => none
  pastServerIds := fun _ => none
  messages := fun _ => none
  isThreadActive := fun _ => none
  threadLocks := fun _ => none

def emptyMsg : Msg := ⟨0,0,.other 0 (by decide),0,0,Buffer.copyIn []⟩

variable (self : FtpServer)

-- `drawn` is the last value of `rand() % 256`; an id that is taken makes the loop draw again
def createServerThread (drawn : ℤ) : Option FtpServer :=
  if 0 ≤ drawn ∧ drawn < 256 ∧ self.threadLocks drawn = none then
    some { self with
      messages := self.messages.insert drawn emptyMsg
      isThreadActive := self.isThreadActive.insert drawn true
      threadLocks := self.threadLocks.insert drawn (AsyncLock.create true drawn) }
  else none

-- the state after `waitForSignalling` has returned and the message is in the thread's slot
def dispatchMessage (serverId : ℤ) (message : Msg) : FtpServer :=
  if serverId = nullServerId then self
  else { self with
    messages := self.messages.assign serverId { message with serverId := serverId }
    threadLocks := self.threadLocks.modify serverId AsyncLock.finalizeSignalling }

def registerClient (clientId drawn : ℤ) : Option FtpServer :=
  (self.createServerThread drawn).map fun created => { created with
    clientIds := created.clientIds.insert clientId drawn
    pastServerIds := created.pastServerIds.insert clientId drawn }

def deactivate (clientId currentServerId : ℤ) : FtpServer :=
  { self with
    pastServerIds := self.pastServerIds.assign clientId currentServerId
    isThreadActive := self.isThreadActive.assign currentServerId false }

def releaseId (currentServerId : ℤ) : FtpServer :=
  if self.areServerIdsReused then
    { self with
      messages := self.messages.erase currentServerId
      threadLocks := self.threadLocks.erase currentServerId }
  else self

def respawn (clientId drawn : ℤ) : Option FtpServer :=
  (self.createServerThread drawn).map fun created => { created with
    clientIds := created.clientIds.assign clientId drawn }

def restartSession (currentServerId drawn : ℤ) (message : Msg) : Option FtpServer :=
  (((self.deactivate message.clientId currentServerId).dispatchMessage currentServerId
    message).releaseId currentServerId).respawn message.clientId drawn

def requestedId (currentServerId : ℤ) (message : Msg) : ℤ :=
  if message.type = .handshake ∧ message.serverId ≠ currentServerId ∧
      self.pastServerIds message.clientId = some message.serverId then currentServerId
  else message.serverId

def resolveId (message : Msg) (requestServerId : ℤ) : ℤ :=
  match self.clientIds message.clientId with
  | some currentServerId =>
    if requestServerId = nullServerId ∨ requestServerId = currentServerId then currentServerId
    else nullServerId
  | none => nullServerId

def getServerId (drawn : ℤ) (message : Msg) : Option (FtpServer × ℤ) :=
  match self.clientIds message.clientId with
  | none => (self.registerClient message.clientId drawn).map fun s =>
      (s,s.resolveId message message.serverId)
  | some currentServerId =>
    if message.type = .handshake ∧ message.serverId = currentServerId then
      (self.restartSession currentServerId drawn message).map fun s =>
        (s,s.resolveId message message.serverId)
    else some (self,self.resolveId message (self.requestedId currentServerId message))

def handle (drawn : ℤ) (message : Msg) : Option FtpServer :=
  (self.getServerId drawn message).map fun r => r.1.dispatchMessage r.2 message

end FtpServer
end FtpOverUdp
