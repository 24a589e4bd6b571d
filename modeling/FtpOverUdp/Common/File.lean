import FtpOverUdp.Common.Msg

namespace FtpOverUdp

-- the low half of the size of a file of `n` bytes
def nFileSizeLow (n : ℕ) : ℕ := n % 2 ^ 32

def fileSize (n : ℕ) : ℤ := int32 (nFileSizeLow n)

-- `none` is the exception of `new char[size]` for a negative size
def readFile (stored : List UInt8) : Option (List UInt8) :=
  if 0 ≤ fileSize stored.length then some (stored.take (fileSize stored.length).toNat) else none

-- `char c_filename[20]` in the client, `new char[20]` in the server
abbrev filenameLength : ℕ := 20

-- how many bytes may be written to what `new char[n]` returns
structure Heap where
  block : ℕ → ℕ
  enough : ∀ n, n ≤ block n

-- the bytes asked for and no others
def Heap.exact : Heap := ⟨id,Nat.le_refl⟩

-- `strcpy` of the characters and their NUL into `new char[n]`; `none` leaves the block
def Heap.strcpy (heap : Heap) (n : ℕ) (s : List UInt8) : Option (List UInt8) :=
  if s.length + 1 ≤ heap.block n then some s else none

theorem Heap.eq_of_strcpy (heap : Heap) {n : ℕ} {s copied : List UInt8}
    (h : heap.strcpy n s = some copied) : copied = s := by
  unfold strcpy at h
  split_ifs at h
  exact (Option.some.inj h).symm

theorem Heap.mapM_strcpy (heap : Heap) (n : ℕ) (l : List (List UInt8)) :
    l.mapM (heap.strcpy n) = if ∀ s ∈ l, s.length + 1 ≤ heap.block n then some l else none := by
  induction l with
  | nil => rfl
  | cons s l ih =>
    rw [List.mapM_cons,ih,strcpy]
    simp only [List.forall_mem_cons]
    split_ifs with hs hl hboth hboth <;> simp_all

theorem fileSize_eq (n : ℕ) :
    fileSize n = if n % 2 ^ 32 < 2 ^ 31 then (n % 2 ^ 32 : ℤ) else (n % 2 ^ 32 : ℤ) - 2 ^ 32 := by
  simp only [fileSize,nFileSizeLow,int32]
  split_ifs <;> omega

theorem readFile_length {stored contents : List UInt8} (h : readFile stored = some contents) :
    contents.length = stored.length % 2 ^ 32 ∧ stored.length % 2 ^ 32 < 2 ^ 31 := by
  unfold readFile at h
  split_ifs at h with hsize
  obtain rfl := Option.some.inj h
  have hlow := Nat.mod_le stored.length (2 ^ 32)
  rw [fileSize_eq] at hsize ⊢
  rw [List.length_take]
  split_ifs at hsize ⊢ <;> omega

end FtpOverUdp
