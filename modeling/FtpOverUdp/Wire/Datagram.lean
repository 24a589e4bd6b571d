import FtpOverUdp.Common.Msg

namespace FtpOverUdp

abbrev rcvBufferSize : ℕ := 512
abbrev msgHdrSize : ℕ := 20

def MsgType.ofCode (code : ℤ) : MsgType :=
  if h : code ∈ [(1 : ℤ),5,6,15,16,10,12,14,20] then
    if code = 1 then .handshake
    else if code = 5 then .getList
    else if code = 6 then .getFile
    else if code = 15 then .put
    else if code = 16 then .post
    else if code = 10 then .resp
    else if code = 12 then .respErr
    else if code = 14 then .ack
    else .terminate
  else .other code h

theorem MsgType.code_ofCode (code : ℤ) : (ofCode code).code = code := by
  by_cases h : code ∈ [(1 : ℤ),5,6,15,16,10,12,14,20]
  · simp only [List.mem_cons,List.not_mem_nil,or_false] at h
    rcases h with rfl | rfl | rfl | rfl | rfl | rfl | rfl | rfl | rfl
    all_goals rfl
  · rw [ofCode,dif_neg h]
    rfl

-- the bytes of the datagram, then what the heap left there
structure ReceiveBuffer where
  received : List UInt8
  stale : List UInt8
  fits : received.length + stale.length = rcvBufferSize

namespace ReceiveBuffer

variable (d : ReceiveBuffer)

def buffer : List UInt8 := d.received ++ d.stale

def int (offset : ℕ) : ℤ := decodeInt (d.buffer.drop offset)

def clientId : ℤ := d.int 0
def serverId : ℤ := d.int 4
def type : MsgType := MsgType.ofCode (d.int 8)
def length : ℤ := d.int 12
def sequenceNumber : ℤ := d.int 16

end ReceiveBuffer

namespace FtpServer

-- `none` is a copy past the end of the message's buffer
def getMessage (d : ReceiveBuffer) : Option Msg :=
  if 0 ≤ d.length ∧ d.length ≤ bufferLength then
    some ⟨d.clientId,d.serverId,d.type,d.length,d.sequenceNumber,
      Buffer.copyIn ((d.buffer.drop msgHdrSize).take d.length.toNat)⟩
  else none

theorem getMessage_length {d : ReceiveBuffer} {message : Msg} (h : getMessage d = some message) :
    0 ≤ message.length ∧ message.length ≤ bufferLength := by
  unfold getMessage at h
  split_ifs at h with hlength
  obtain rfl := Option.some.inj h
  exact hlength

end FtpServer
end FtpOverUdp
