import FtpOverUdp.Library.System
import FtpOverUdp.Library.Table
import FtpOverUdp.Wire.RoundTrip

namespace FtpOverUdp

open Library

abbrev nullClientId : ℤ := -1

-- `sockaddr_in`; the default is what `map::operator[]` inserts
structure Address where
  family : UInt16 := 0
  port : UInt16 := 0
  addr : UInt32 := 0
  deriving DecidableEq

namespace ReceiveBuffer

variable (d : ReceiveBuffer) {bytes : List UInt8}

theorem fits_drop (h : bytes.length ≤ rcvBufferSize) :
    bytes.length + (d.buffer.drop bytes.length).length = rcvBufferSize := by
  have hfits := d.fits
  rw [buffer,List.length_drop,List.length_append]
  omega

-- `none` is a datagram that `recvfrom` refuses, after which the process exits
def receive (bytes : List UInt8) : Option ReceiveBuffer :=
  if h : bytes.length ≤ rcvBufferSize then
    some ⟨bytes,d.buffer.drop bytes.length,d.fits_drop h⟩
  else none

end ReceiveBuffer

namespace ClientListener

inductive Stage
  | receiving
  | drawing
  | registering (clientId : ℤ)
  | replying (clientId : ℤ)
  | relaying
  deriving DecidableEq

end ClientListener

structure ClientListener where
  stage : ClientListener.Stage
  buffer : ReceiveBuffer
  currentClient : Address

namespace RouterListener

inductive Stage
  | receiving
  | lookingUp
  | sending
  deriving DecidableEq

end RouterListener

structure RouterListener where
  stage : RouterListener.Stage
  buffer : ReceiveBuffer
  msg : MsgImage
  currentClient : Address

structure Delivery where
  clientId : ℤ
  address : Address
  bytes : List UInt8

structure Muxer where
  clientMap : Table ℤ Address
  client : ClientListener
  router : RouterListener
  handedOut : List (ℤ × Address)
  replies : List (ℤ × Address)
  toRouter : List (List UInt8)
  delivered : List Delivery

namespace Muxer

-- a `sendto` that fails ends the process, so only those that succeed are steps
inductive Event
  | clientDatagram (bytes : List UInt8) (currentClient : Address)
  | draw (clientId : ℤ)
  | register
  | reply
  | relay
  | routerDatagram (bytes : List UInt8)
  | lookUp
  | deliver

variable (s : Muxer)

def receiveFromClient (bytes : List UInt8) (currentClient : Address) : Option Muxer :=
  (s.client.buffer.receive bytes).bind fun buffer =>
    if ClientListener.clientId buffer = nullClientId then
      some { s with client := ⟨.drawing,buffer,currentClient⟩ }
    else if bytes.length ≤ msgHdrSize + bufferLength then
      some { s with client := ⟨.relaying,buffer,currentClient⟩ }
    else none

def draw (clientId : ℤ) : Muxer :=
  if (s.clientMap clientId).isSome then s
  else { s with client.stage := .registering clientId }

def register (clientId : ℤ) : Muxer :=
  { s with
    clientMap := s.clientMap.insert clientId s.client.currentClient
    handedOut := s.handedOut ++ [(clientId,s.client.currentClient)]
    client.stage := .replying clientId }

def reply (clientId : ℤ) : Muxer :=
  { s with
    replies := s.replies ++ [(clientId,s.client.currentClient)]
    client.stage := .receiving }

def relay : Muxer :=
  { s with
    toRouter := s.toRouter ++ [s.client.buffer.received]
    client.stage := .receiving }

def receiveFromRouter (bytes : List UInt8) : Option Muxer :=
  (s.router.buffer.receive bytes).bind fun buffer =>
    (s.router.msg.memcpy bytes).map fun msg =>
      { s with router := ⟨.lookingUp,buffer,msg,s.router.currentClient⟩ }

-- `currentClient = (*clients)[msg.clientId]`
def lookUp : Muxer :=
  let clientMap := s.clientMap.insert (s.router.msg.int 0) {}
  { s with
    clientMap := clientMap
    router.stage := .sending
    router.currentClient := (clientMap (s.router.msg.int 0)).getD {} }

def current : Delivery :=
  ⟨s.router.msg.int 0,s.router.currentClient,s.router.buffer.received⟩

def deliver : Muxer :=
  { s with
    delivered := s.delivered ++ [s.current]
    router.stage := .receiving }

def step (s : Muxer) : Event → Option Muxer
  | .clientDatagram bytes currentClient =>
    if s.client.stage = .receiving then s.receiveFromClient bytes currentClient else none
  | .draw clientId =>
    if s.client.stage = .drawing ∧ 0 ≤ clientId ∧ clientId < 256 then some (s.draw clientId) else none
  | .register => match s.client.stage with
    | .registering clientId => some (s.register clientId)
    | _ => none
  | .reply => match s.client.stage with
    | .replying clientId => some (s.reply clientId)
    | _ => none
  | .relay => if s.client.stage = .relaying then some s.relay else none
  | .routerDatagram bytes =>
    if s.router.stage = .receiving then s.receiveFromRouter bytes else none
  | .lookUp => if s.router.stage = .lookingUp then some s.lookUp else none
  | .deliver => if s.router.stage = .sending then some s.deliver else none

-- the buffers, `msg` and the address of each loop start with whatever memory held
def start (client router : ReceiveBuffer) (msg : MsgImage) (from' to' : Address) : Muxer where
  clientMap := fun _ => none
  client := ⟨.receiving,client,from'⟩
  router := ⟨.receiving,router,msg,to'⟩
  handedOut := []
  replies := []
  toRouter := []
  delivered := []

def system : System Muxer Event where
  init s := ∃ client router msg from' to', s = start client router msg from' to'
  step := step

end Muxer
end FtpOverUdp
