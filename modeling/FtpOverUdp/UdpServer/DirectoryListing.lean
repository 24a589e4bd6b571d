import FtpOverUdp.UdpServer.ServerThread

namespace FtpOverUdp

-- what Windows allows in `cFileName`
structure FileName where
  chars : List UInt8
  nonempty : chars ≠ []
  noNul : 0 ∉ chars
  fits : chars.length ≤ 259

structure FindData where
  cFileName : FileName
  isDirectory : Bool

namespace DirectoryListing

inductive Fault
  | overrun
  | thrown
  deriving DecidableEq

-- the first pass, with what is in the queue and the `int` that adds up the lengths
def readEntries : List FindData → List (List UInt8) → ℤ → Except Fault (List (List UInt8) × ℤ)
  | [], payloadData, payloadLength => .ok (payloadData,payloadLength)
  | ffd :: entries, payloadData, payloadLength =>
    if ffd.isDirectory then readEntries entries payloadData payloadLength
    else
      let currentFilename := ffd.cFileName.chars
      -- `strcpy` into `new char[20]`
      if currentFilename.length + 1 ≤ filenameLength then
        readEntries entries (payloadData ++ [currentFilename])
          (int32 (payloadLength + (currentFilename.length + 1)))
      else .error .overrun

def overwrite (data : List UInt8) (index : ℕ) (bytes : List UInt8) : List UInt8 :=
  data.take index ++ bytes ++ data.drop (index + bytes.length)

-- the second pass, over a payload of `payloadLength` bytes
def writeNames (payloadLength : ℤ) :
    List (List UInt8) → List UInt8 → ℤ → Except Fault (List UInt8)
  | [], data, _ => .ok data
  | front :: payloadData, data, currentIndex =>
    if 0 ≤ currentIndex ∧ currentIndex + (front.length + 1) ≤ payloadLength then
      let written := overwrite data currentIndex.toNat (front ++ [0])
      let next := int32 (currentIndex + (front.length + 1))
      if next > payloadLength then .error .thrown
      else writeNames payloadLength payloadData written next
    else .error .overrun

-- `fresh` is what `new char[payloadLength]` finds in the heap
def getDirectoryContents (fresh : ℕ → UInt8) (entries : List FindData) :
    Except Fault (List UInt8) :=
  match readEntries entries [] 0 with
  | .error fault => .error fault
  | .ok (payloadData,payloadLength) =>
    if 0 ≤ payloadLength then
      writeNames payloadLength payloadData ((List.range payloadLength.toNat).map fresh) 0
    else .error .thrown

def listed (entries : List FindData) : List (List UInt8) :=
  (entries.filter fun ffd => !ffd.isDirectory).map fun ffd => ffd.cFileName.chars

def contents (names : List (List UInt8)) : List UInt8 := names.flatMap (· ++ [0])

theorem contents_cons (name : List UInt8) (names : List (List UInt8)) :
    contents (name :: names) = name ++ [0] ++ contents names := List.flatMap_cons

theorem length_contents_cons (name : List UInt8) (names : List (List UInt8)) :
    (contents (name :: names)).length = name.length + 1 + (contents names).length := by
  rw [contents_cons,List.length_append,List.length_append,List.length_singleton]

theorem listed_cons (ffd : FindData) (entries : List FindData) :
    listed (ffd :: entries) =
      if ffd.isDirectory then listed entries else ffd.cFileName.chars :: listed entries := by
  unfold listed
  cases h : ffd.isDirectory <;> simp [h]

theorem int32_add_int32 (a b : ℤ) : int32 (int32 a + b) = int32 (a + b) := by
  unfold int32
  omega

theorem readEntries_eq (entries : List FindData) (payloadData : List (List UInt8)) (n : ℤ) :
    readEntries entries payloadData (int32 n) =
      if ∀ name ∈ listed entries, name.length < filenameLength then
        .ok (payloadData ++ listed entries,int32 (n + (contents (listed entries)).length))
      else .error .overrun := by
  induction entries generalizing payloadData n with
  | nil =>
    simp [readEntries,listed,contents]
  | cons ffd entries ih =>
    rw [readEntries,listed_cons]
    cases ffd.isDirectory with
    | true => exact ih payloadData n
    | false =>
      simp only [Bool.false_eq_true,if_false]
      split_ifs with hfits hall hall
      · have hlength := length_contents_cons ffd.cFileName.chars (listed entries)
        rw [int32_add_int32,ih,if_pos (List.forall_mem_cons.mp hall).2,List.append_assoc,hlength]
        congr 3
        push_cast
        omega
      · rw [int32_add_int32,ih,if_neg fun h => hall (List.forall_mem_cons.mpr ⟨hfits,h⟩)]
      · exact absurd (List.forall_mem_cons.mp hall).1 hfits
      · rfl

theorem overwrite_length {data bytes : List UInt8} {index : ℕ}
    (h : index + bytes.length ≤ data.length) :
    (overwrite data index bytes).length = data.length := by
  simp only [overwrite,List.length_append,List.length_take,List.length_drop]
  omega

theorem take_overwrite {data bytes : List UInt8} {index : ℕ}
    (h : index + bytes.length ≤ data.length) :
    (overwrite data index bytes).take (index + bytes.length) = data.take index ++ bytes := by
  apply List.take_left'
  rw [List.length_append,List.length_take]
  omega

-- the names written so far, then room for exactly the others
theorem writeNames_eq {names : List (List UInt8)} {data : List UInt8} {index : ℕ}
    (hroom : index + (contents names).length = data.length) (hsmall : data.length < 2 ^ 31) :
    writeNames data.length names data index = .ok (data.take index ++ contents names) := by
  induction names generalizing data index with
  | nil =>
    have hend : index = data.length := hroom
    rw [writeNames,hend,List.take_length]
    exact congrArg Except.ok (List.append_nil data).symm
  | cons front names ih =>
    rw [length_contents_cons] at hroom
    have hfits : index + (front ++ [0]).length ≤ data.length := by
      rw [List.length_append,List.length_singleton]
      omega
    have hnext : int32 ((index : ℤ) + (front.length + 1)) = (index + (front ++ [0]).length : ℕ) := by
      rw [List.length_append,List.length_singleton,int32_of_bounds (by omega) (by omega)]
      push_cast
      omega
    have hwritten := overwrite_length hfits
    rw [writeNames,if_pos (by omega)]
    dsimp only
    rw [hnext,if_neg (by omega),Int.toNat_natCast,← hwritten,ih,take_overwrite hfits,contents_cons]
    · simp only [List.append_assoc]
    · rw [hwritten,List.length_append,List.length_singleton]
      omega
    · rw [hwritten]
      exact hsmall

-- a copy that would pass the end of the payload is a fault
theorem writeNames_room {payloadLength : ℤ} {names : List (List UInt8)} {data payload : List UInt8}
    {index : ℤ} (hlow : 0 ≤ index) (hle : index ≤ payloadLength) (hsmall : payloadLength < 2 ^ 31)
    (h : writeNames payloadLength names data index = .ok payload) :
    index + (contents names).length ≤ payloadLength := by
  induction names generalizing data index with
  | nil => simpa [contents] using hle
  | cons front names ih =>
    rw [writeNames] at h
    split_ifs at h with hfits
    have hnext : int32 (index + (front.length + 1)) = index + (front.length + 1) :=
      int32_of_bounds (by omega) (by omega)
    dsimp only at h
    rw [hnext] at h
    split_ifs at h
    have hrest := ih (by omega) hfits.2 h
    rw [length_contents_cons]
    push_cast
    omega

end DirectoryListing

namespace FtpClient

inductive Printed
  | endl
  | char (c : UInt8)
  deriving DecidableEq

def printContents (directoryContent : List UInt8) : List Printed :=
  directoryContent.map fun c => if c = 0 then .endl else .char c

theorem printContents_name {name : List UInt8} (h : 0 ∉ name) :
    printContents (name ++ [0]) = name.map .char ++ [.endl] := by
  rw [printContents,List.map_append]
  congr 1
  refine List.map_congr_left fun c hc => if_neg ?_
  rintro rfl
  exact h hc

theorem printContents_contents {names : List (List UInt8)} (h : ∀ name ∈ names, 0 ∉ name) :
    printContents (DirectoryListing.contents names) =
      names.flatMap fun name => name.map .char ++ [.endl] := by
  induction names with
  | nil => rfl
  | cons name names ih =>
    obtain ⟨hname,hnames⟩ := List.forall_mem_cons.mp h
    rw [DirectoryListing.contents_cons,printContents,List.map_append,List.flatMap_cons]
    exact congrArg₂ _ (printContents_name hname) (ih hnames)

end FtpClient

namespace DirectoryListing

variable {fresh : ℕ → UInt8} {entries : List FindData}

theorem listed_noNul (entries : List FindData) : ∀ name ∈ listed entries, 0 ∉ name := by
  intro name hname
  obtain ⟨ffd,-,rfl⟩ := List.mem_map.mp hname
  exact ffd.cFileName.noNul

theorem getDirectoryContents_eq (hfits : ∀ name ∈ listed entries, name.length < filenameLength)
    (hsmall : (contents (listed entries)).length < 2 ^ 31) :
    getDirectoryContents fresh entries = .ok (contents (listed entries)) := by
  have hread : readEntries entries [] 0 =
      .ok (listed entries,((contents (listed entries)).length : ℤ)) := by
    refine (readEntries_eq entries [] 0).trans ?_
    rw [if_pos hfits,int32_of_bounds (by omega) (by omega),Int.zero_add]
    rfl
  have hlength : ((List.range (contents (listed entries)).length).map fresh).length =
      (contents (listed entries)).length := by
    rw [List.length_map,List.length_range]
  have hroom := (Nat.zero_add (contents (listed entries)).length).trans hlength.symm
  rw [getDirectoryContents,hread]
  dsimp only
  rw [if_pos (Int.natCast_nonneg _),Int.toNat_natCast]
  nth_rewrite 1 [← hlength]
  refine (writeNames_eq hroom ?_).trans rfl
  rw [hlength]
  exact hsmall

theorem getDirectoryContents_eq_ok {payload : List UInt8} :
    getDirectoryContents fresh entries = .ok payload ↔
      (∀ name ∈ listed entries, name.length < filenameLength) ∧
        payload.length < 2 ^ 31 ∧ contents (listed entries) = payload := by
  constructor
  · intro h
    have hread := readEntries_eq entries [] 0
    have hzero : int32 0 = 0 := rfl
    rw [hzero,Int.zero_add,List.nil_append] at hread
    by_cases hfits : ∀ name ∈ listed entries, name.length < filenameLength
    · have hok := h
      rw [getDirectoryContents,hread,if_pos hfits] at h
      dsimp only at h
      split_ifs at h with hsize
      have hlow : int32 (contents (listed entries)).length < 2 ^ 31 := by
        unfold int32
        omega
      have hroom := writeNames_room (Int.le_refl 0) hsize hlow h
      have hsmall : (contents (listed entries)).length < 2 ^ 31 := by omega
      obtain rfl := Except.ok.inj ((getDirectoryContents_eq hfits hsmall).symm.trans hok)
      exact ⟨hfits,hsmall,rfl⟩
    · rw [getDirectoryContents,hread,if_neg hfits] at h
      cases h
  · rintro ⟨hfits,hsmall,rfl⟩
    exact getDirectoryContents_eq hfits hsmall

-- every `strcpy` stays in its buffer, the payload is the names each with its NUL, and the client
-- prints each of them on a line of its own
def ListedExactly (fresh : ℕ → UInt8) (entries : List FindData) : Prop :=
  ∃ payload, getDirectoryContents fresh entries = .ok payload ∧
    payload = contents (listed entries) ∧
    FtpClient.printContents payload =
      (listed entries).flatMap fun name => name.map .char ++ [.endl]

theorem listed_exactly_iff (fresh : ℕ → UInt8) (entries : List FindData) :
    ListedExactly fresh entries ↔
      (∀ name ∈ listed entries, name.length ≤ 19) ∧ (contents (listed entries)).length < 2 ^ 31 := by
  constructor
  · rintro ⟨payload,hok,rfl,-⟩
    obtain ⟨hfits,hsmall,-⟩ := getDirectoryContents_eq_ok.mp hok
    exact ⟨fun name hname => Nat.le_of_lt_succ (hfits name hname),hsmall⟩
  · rintro ⟨hfits,hsmall⟩
    have hshort : ∀ name ∈ listed entries, name.length < filenameLength :=
      fun name hname => Nat.lt_succ_of_le (hfits name hname)
    exact ⟨_,getDirectoryContents_eq hshort hsmall,rfl,
      FtpClient.printContents_contents (listed_noNul entries)⟩

def twentyCharacters : FileName :=
  ⟨List.replicate 20 97,by decide,by decide,by decide⟩

theorem long_name_overruns : ¬∀ fresh entries, ListedExactly fresh entries := by
  intro h
  obtain ⟨payload,hok,-⟩ := h (fun _ => 0) [⟨twentyCharacters,false⟩]
  cases hok

-- `sendList` sends what the two passes write, in whatever blocks they write it
theorem getDirectoryContents_refines {disk : Disk} {payload : List UInt8}
    (hdisk : disk.directory = listed entries)
    (hok : getDirectoryContents fresh entries = .ok payload) :
    ServerThread.getDirectoryContents disk = some payload := by
  obtain ⟨hfits,hsmall,hcontents⟩ := getDirectoryContents_eq_ok.mp hok
  rw [ServerThread.getDirectoryContents_eq_some,hdisk]
  exact ⟨fun name hname => Nat.le_trans (hfits name hname) (disk.heap.enough _),hsmall,hcontents⟩

theorem getDirectoryContents_exact {disk : Disk} {payload : List UInt8}
    (hdisk : disk.directory = listed entries) (hexact : disk.heap = .exact) :
    ServerThread.getDirectoryContents disk = some payload ↔
      getDirectoryContents fresh entries = .ok payload := by
  rw [ServerThread.getDirectoryContents_eq_some,getDirectoryContents_eq_ok,hdisk,hexact]
  exact Iff.rfl

end DirectoryListing
end FtpOverUdp
