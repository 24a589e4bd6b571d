import Mathlib.Algebra.Group.Int.Defs
import Mathlib.Algebra.Group.Nat.Defs
import Mathlib.Data.List.Basic
import Mathlib.Data.Int.Notation
import Mathlib.Data.Nat.Notation

namespace FtpOverUdp

abbrev windowSize : ℕ := 3
abbrev sequenceRange : ℕ := 7
abbrev bufferLength : ℕ := 256
abbrev nullServerId : ℤ := -1

inductive MsgType
  | handshake
  | getList
  | getFile
  | put
  | post
  | resp
  | respErr
  | ack
  | terminate
  | other (code : ℤ) (unnamed : code ∉ [(1 : ℤ),5,6,15,16,10,12,14,20])
  deriving DecidableEq

def MsgType.code : MsgType → ℤ
  | .handshake => 1
  | .getList => 5
  | .getFile => 6
  | .put => 15
  | .post => 16
  | .resp => 10
  | .respErr => 12
  | .ack => 14
  | .terminate => 20
  | .other code _ => code

abbrev Buffer := {bytes : List UInt8 // bytes.length = bufferLength}

namespace Buffer

def copyIn (bytes : List UInt8) : Buffer :=
  ⟨bytes.take bufferLength ++ List.replicate (bufferLength - bytes.length) 0,by
    simp only [List.length_append,List.length_take,List.length_replicate]
    omega⟩

def copyOut (b : Buffer) (n : ℕ) : List UInt8 := b.val.take n

def cString (b : Buffer) : List UInt8 := b.val.takeWhile (· ≠ 0)

theorem copyOut_copyIn {bytes : List UInt8} (h : bytes.length ≤ bufferLength) :
    (copyIn bytes).copyOut bytes.length = bytes := by
  simp [copyOut,copyIn,List.take_of_length_le h]

theorem copyOut_length (b : Buffer) {n : ℕ} (h : n ≤ bufferLength) : (b.copyOut n).length = n := by
  rw [copyOut,List.length_take,b.property]
  omega

end Buffer

def ascii (cs : List Char) : List UInt8 := cs.map fun c => UInt8.ofNat c.toNat

def eofText : List UInt8 := ascii ['E','O','F']
def nsfText : List UInt8 := ascii ['N','S','F']
def faeText : List UInt8 := ascii ['F','A','E']

-- what an `int` holds of a sum
def int32 (n : ℤ) : ℤ := (n + 2 ^ 31) % 2 ^ 32 - 2 ^ 31

theorem int32_of_bounds {n : ℤ} (hlo : 0 ≤ n) (hhi : n < 2 ^ 31) : int32 n = n := by
  unfold int32
  omega

def encodeInt (n : ℤ) : List UInt8 :=
  [n,n / 256,n / 65536,n / 16777216].map fun k => UInt8.ofNat (k % 256).toNat

def decodeInt (bytes : List UInt8) : ℤ :=
  let unsigned : ℤ := (bytes.take 4).foldr (fun b acc => b.toNat + 256 * acc) 0
  if unsigned < 2 ^ 31 then unsigned else unsigned - 2 ^ 32

theorem decodeInt_encodeInt {n : ℤ} (hlo : -2 ^ 31 ≤ n) (hhi : n < 2 ^ 31) (rest : List UInt8) :
    decodeInt (encodeInt n ++ rest) = n := by
  have hbyte : ∀ k : ℤ, ((UInt8.ofNat (k % 256).toNat).toNat : ℤ) = k % 256 := by
    intro k
    rw [UInt8.toNat_ofNat']
    omega
  simp only [decodeInt,encodeInt,List.map_cons,List.map_nil,List.cons_append,List.nil_append,
    List.take_succ_cons,List.take_zero,List.foldr_cons,List.foldr_nil,hbyte]
  split_ifs <;> omega

structure Msg where
  clientId : ℤ
  serverId : ℤ
  type : MsgType
  length : ℤ
  sequenceNumber : ℤ
  buffer : Buffer
  deriving DecidableEq

structure Payload where
  length : ℕ
  data : List UInt8
  deriving DecidableEq

def Msg.isText (msg : Msg) (text : List UInt8) : Bool :=
  msg.type = .respErr && msg.buffer.cString = text

end FtpOverUdp
