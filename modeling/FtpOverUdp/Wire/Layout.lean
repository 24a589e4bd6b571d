import FtpOverUdp.Wire.Datagram

namespace FtpOverUdp

def IsInt (n : ℤ) : Prop := -2 ^ 31 ≤ n ∧ n < 2 ^ 31

theorem encodeInt_length (n : ℤ) : (encodeInt n).length = 4 := rfl

theorem drop_encodeInt (n : ℤ) (k : ℕ) (rest : List UInt8) :
    (encodeInt n ++ rest).drop (4 * (k + 1)) = rest.drop (4 * k) := by
  have hlength : 4 * (k + 1) = (encodeInt n).length + 4 * k := by
    rw [encodeInt_length]
    omega
  rw [hlength,List.drop_length_add_append]

theorem MsgType.ofCode_code (type : MsgType) : ofCode type.code = type := by
  cases type with
  | other code unnamed => exact dif_neg unnamed
  | _ => rfl

attribute [ext] Msg

-- what `Msg` is in memory
abbrev MsgImage := {bytes : List UInt8 // bytes.length = msgHdrSize + bufferLength}

namespace MsgImage

variable (old : MsgImage)

def int (offset : ℕ) : ℤ := decodeInt (old.val.drop offset)

def toMsg : Msg where
  clientId := old.int 0
  serverId := old.int 4
  type := MsgType.ofCode (old.int 8)
  length := old.int 12
  sequenceNumber := old.int 16
  buffer := ⟨old.val.drop msgHdrSize,by
    rw [List.length_drop,old.property]
    rfl⟩

-- `none` is a copy past the end of the struct
def memcpy (bytes : List UInt8) : Option MsgImage :=
  if h : bytes.length ≤ msgHdrSize + bufferLength then
    some ⟨bytes ++ old.val.drop bytes.length,by
      rw [List.length_append,List.length_drop,old.property]
      omega⟩
  else none

def clearBuffer : MsgImage :=
  ⟨old.val.take msgHdrSize ++ List.replicate bufferLength 0,by
    rw [List.length_append,List.length_take,old.property,List.length_replicate]
    rfl⟩

end MsgImage

namespace Msg

variable (msg : Msg)

def header : List ℤ := [msg.clientId,msg.serverId,msg.type.code,msg.length,msg.sequenceNumber]

def image : MsgImage :=
  ⟨msg.header.flatMap encodeInt ++ msg.buffer.val,by
    rw [List.length_append,msg.buffer.property]
    rfl⟩

-- the bytes that `SenderThread::run` and `msgSend` hand to `sendto`
def datagram : List UInt8 := msg.image.val.take (msgHdrSize + msg.length).toNat

end Msg

theorem decodeInt_header {ints : List ℤ} (hints : ∀ n ∈ ints, IsInt n) (rest : List UInt8)
    {i : ℕ} (hi : i < ints.length) :
    decodeInt ((ints.flatMap encodeInt ++ rest).drop (4 * i)) = ints[i] := by
  induction ints generalizing i with
  | nil => exact absurd hi (Nat.not_lt_zero _)
  | cons n ints ih =>
    obtain ⟨hn,hints⟩ := List.forall_mem_cons.mp hints
    rw [List.flatMap_cons,List.append_assoc]
    cases i with
    | zero => exact decodeInt_encodeInt hn.1 hn.2 _
    | succ i =>
      rw [drop_encodeInt]
      exact ih hints (Nat.lt_of_succ_lt_succ hi)

end FtpOverUdp
