import FtpOverUdp.UdpClient.Upload

namespace FtpOverUdp

namespace Sender

-- `currentSize` of the packet with this index
def packetSize (self : Sender) (i : ℕ) : ℤ :=
  if (i : ℤ) = self.numberOfPackets - 1 then self.payloadSize - i * bufferLength else bufferLength

structure Covers (loaded : Sender) (stored : List UInt8) : Prop where
  payload : loaded.completePayload = stored
  size : loaded.payloadSize = stored.length
  product : int32 (loaded.numberOfPackets * bufferLength) = loaded.numberOfPackets * bufferLength
  capacity : stored.length ≤ loaded.numberOfPackets * bufferLength
  offsets : ∀ i < loaded.numberOfPackets, int32 (i * bufferLength) = i * bufferLength
  packets : ∀ i < loaded.numberOfPackets, 0 < loaded.packetSize i ∧
    loaded.packetSize i ≤ bufferLength ∧ i * bufferLength + loaded.packetSize i ≤ stored.length

def loadFile (self : Sender) (stored : List UInt8) (sequenceNumber : ℤ) : Option Sender :=
  (readFile stored).bind fun contents => self.initializePayload (some contents) sequenceNumber

variable {self : Sender} {stored contents : List UInt8} {sequenceNumber : ℤ} {loaded : Sender}

theorem packetCount_spec (n : ℕ) :
    n ≤ packetCount n * bufferLength ∧ packetCount n * bufferLength < n + bufferLength := by
  simp only [packetCount,bufferLength]
  split_ifs <;> omega

-- the guard of the model is the sign of the `int` that `new char[..]` is given
theorem initializePayload_isSome_iff (h : contents.length < 2 ^ 31) :
    (self.initializePayload (some contents) sequenceNumber).isSome ↔
      0 ≤ int32 (packetCount contents.length * bufferLength) := by
  have hspec := packetCount_spec contents.length
  simp only [initializePayload,Option.bind_some,bufferLength] at hspec ⊢
  unfold int32
  split_ifs with hproduct
  · refine iff_of_true rfl ?_
    omega
  · refine iff_of_false (by simp) ?_
    omega

theorem product_lt_iff (n : ℕ) : packetCount n * bufferLength < 2 ^ 31 ↔ n ≤ 2 ^ 31 - 256 := by
  have hspec := packetCount_spec n
  simp only [bufferLength] at hspec ⊢
  omega

theorem int32_offset {i : ℕ} (h : i * bufferLength < 2 ^ 31) :
    int32 (i * bufferLength) = i * bufferLength := by
  simp only [bufferLength] at h ⊢
  apply int32_of_bounds
  · omega
  · omega

theorem packetSize_spec (hcount : self.numberOfPackets = packetCount self.payloadSize) {i : ℕ}
    (hi : i < self.numberOfPackets) :
    0 < self.packetSize i ∧ self.packetSize i ≤ bufferLength ∧
      i * bufferLength + self.packetSize i ≤ self.payloadSize := by
  have hspec := packetCount_spec self.payloadSize
  rw [← hcount] at hspec
  simp only [packetSize,bufferLength] at hspec ⊢
  split_ifs <;> omega

theorem covers_initializePayload
    (h : self.initializePayload (some contents) sequenceNumber = some loaded) :
    loaded.Covers contents := by
  simp only [initializePayload,Option.bind_some] at h
  split_ifs at h with hproduct
  obtain rfl := Option.some.inj h
  refine ⟨rfl,rfl,int32_offset hproduct,(packetCount_spec _).1,fun i hi => ?_,fun i hi => ?_⟩
  · have hlt : i * bufferLength < packetCount contents.length * bufferLength :=
      Nat.mul_lt_mul_of_pos_right hi (by decide)
    exact int32_offset (hlt.trans hproduct)
  · exact packetSize_spec rfl hi

theorem loadFile_isSome_iff :
    (self.loadFile stored sequenceNumber).isSome ↔ stored.length % 2 ^ 32 ≤ 2 ^ 31 - 256 := by
  rw [loadFile]
  cases hread : readFile stored with
  | none =>
    have hsize : ¬0 ≤ fileSize stored.length := by
      intro hsize
      rw [readFile,if_pos hsize] at hread
      cases hread
    rw [fileSize_eq] at hsize
    refine iff_of_false (by simp) fun hle => hsize ?_
    rw [if_pos (by omega)]
    omega
  | some contents =>
    obtain ⟨hlength,-⟩ := readFile_length hread
    rw [Option.bind_some,initializePayload,Option.bind_some,← hlength,← product_lt_iff]
    split_ifs with hproduct
    · exact iff_of_true rfl hproduct
    · exact iff_of_false (by simp) hproduct

theorem loadFile_size (h : self.loadFile stored sequenceNumber = some loaded) :
    loaded.payloadSize = stored.length % 2 ^ 32 := by
  obtain ⟨contents,hread,hload⟩ := Option.bind_eq_some_iff.mp h
  exact (covers_initializePayload hload).size.trans (readFile_length hread).1

theorem loadFile_covers (h : self.loadFile stored sequenceNumber = some loaded)
    (hsmall : stored.length < 2 ^ 32) : loaded.Covers stored := by
  obtain ⟨contents,hread,hload⟩ := Option.bind_eq_some_iff.mp h
  have hlength : contents.length = stored.length :=
    (readFile_length hread).1.trans (Nat.mod_eq_of_lt hsmall)
  have hwhole : contents = stored := by
    unfold readFile at hread
    split_ifs at hread
    have htake := Option.some.inj hread
    rw [← htake,List.length_take] at hlength
    rw [← htake,List.take_of_length_le (by omega)]
  exact hwhole ▸ covers_initializePayload hload

theorem loadFile_exact_iff :
    (self.loadFile stored sequenceNumber = none ∨
        ∃ loaded, self.loadFile stored sequenceNumber = some loaded ∧ loaded.Covers stored) ↔
      stored.length < 2 ^ 32 ∨ 2 ^ 31 - 256 < stored.length % 2 ^ 32 := by
  constructor
  · rintro (hnone | ⟨loaded,hload,hcovers⟩)
    · refine Or.inr (not_le.mp fun hle => ?_)
      have hsome : (self.loadFile stored sequenceNumber).isSome := loadFile_isSome_iff.mpr hle
      rw [hnone] at hsome
      cases hsome
    · have hsize := hcovers.size.symm.trans (loadFile_size hload)
      exact Or.inl (hsize ▸ Nat.mod_lt _ (by decide))
  · rintro (hsmall | hbig)
    · cases hload : self.loadFile stored sequenceNumber with
      | none => exact Or.inl rfl
      | some loaded => exact Or.inr ⟨loaded,rfl,loadFile_covers hload hsmall⟩
    · refine Or.inl (Option.not_isSome_iff_eq_none.mp fun hsome => ?_)
      exact absurd (loadFile_isSome_iff.mp hsome) (not_le.mpr hbig)

end Sender

namespace ServerThread

variable (self : ServerThread) (currentMsg : Msg) (disk : Disk)

def requestedFile : List UInt8 :=
  filesDirectory ++ (currentMsg.buffer.copyOut currentMsg.length.toNat).takeWhile (· ≠ 0)

-- the payload that GET_FILE gives to the sender, `none` when that throws
def downloadTransfer : Option Sender :=
  (getFileContents currentMsg disk).bind fun contents =>
    self.sender.bind (·.initializePayload (some contents) currentMsg.sequenceNumber)

def refuseFile : Outcome :=
  let sequenceNumber := wrap (currentMsg.sequenceNumber + 1)
  ({ self with
      currentState := .waitingForRequest
      sequenceNumber := sequenceNumber },
    [self.sendMsg currentMsg .respErr sequenceNumber (nsfText ++ [0])])

variable {self : ServerThread} {currentMsg : Msg} {disk : Disk}

theorem sendFile_eq : self.sendFile currentMsg disk =
    match (self.downloadTransfer currentMsg disk).bind Sender.send with
    | some started => some ({ self with
        currentState := .sending
        sequenceNumber := currentMsg.sequenceNumber
        sender := some started },[])
    | none => some (self.refuseFile currentMsg) := by
  have hstart : (getFileContents currentMsg disk).bind (startSender { self with
        currentState := .sending
        sequenceNumber := currentMsg.sequenceNumber } currentMsg) =
      ((self.downloadTransfer currentMsg disk).bind Sender.send).map fun started => { self with
        currentState := .sending
        sequenceNumber := currentMsg.sequenceNumber
        sender := some started } := by
    simp only [downloadTransfer,Option.bind_assoc,Option.map_bind]
    congr 1
    funext contents
    simp only [startSender,Function.comp_apply,Option.map_bind]
  simp only [sendFile,hstart]
  cases (self.downloadTransfer currentMsg disk).bind Sender.send with
  | none => rfl
  | some started => rfl

theorem run_downloadTransfer (hstate : self.currentState = .waitingForRequest)
    (htype : currentMsg.type = .getFile) (h : self.downloadTransfer currentMsg disk = none) :
    self.run currentMsg disk = some (self.refuseFile currentMsg) := by
  simp only [run,hstate,handleRequest,htype,sendFile_eq,h,Option.bind_none]

theorem downloadTransfer_eq {sender : Sender} (hsender : self.sender = some sender)
    {stored : List UInt8} (hfile : disk.findFirstFile (requestedFile currentMsg) = some stored) :
    self.downloadTransfer currentMsg disk = sender.loadFile stored currentMsg.sequenceNumber := by
  have hcontents : getFileContents currentMsg disk = readFile stored := by
    change (disk.findFirstFile (requestedFile currentMsg)).bind readFile = _
    rw [hfile,Option.bind_some]
  rw [downloadTransfer,hcontents,hsender]
  rfl

end ServerThread

namespace FtpClient

def filesDirectory : List UInt8 :=
  ascii ['c','l','i','e','n','t','F','i','l','e','s',Char.ofNat 92]

-- what `performUpload` reads before it sends its request, `none` when that throws
def openUpload (filename : List UInt8) (disk : Disk) : Option (List UInt8) :=
  (disk.findFirstFile (filesDirectory ++ filename)).bind readFile

def uploadTransfer (sender : Sender) (sequenceNumber : ℤ) (filename : List UInt8) (disk : Disk) :
    Option Sender :=
  (openUpload filename disk).bind fun contents =>
    sender.initializePayload (some contents) sequenceNumber

theorem uploadTransfer_eq {sender : Sender} {sequenceNumber : ℤ} {filename stored : List UInt8}
    {disk : Disk} (hfile : disk.findFirstFile (filesDirectory ++ filename) = some stored) :
    uploadTransfer sender sequenceNumber filename disk = sender.loadFile stored sequenceNumber := by
  rw [uploadTransfer,openUpload,hfile,Option.bind_some,Sender.loadFile]

end FtpClient

theorem Upload.beginSending_eq (q : UploadRequest) (st : Upload) {disk : Disk}
    (hread : FtpClient.openUpload q.filename disk = some q.transmission.contents) :
    st.beginSending q = ((FtpClient.uploadTransfer st.sender q.transmission.seed.val q.filename
      disk).bind Sender.send).map fun sender => { st with
        phase := .sending
        sender := sender } := by
  rw [beginSending,FtpClient.uploadTransfer,hread]
  rfl

namespace FileSize

def SizeAccepted (n : ℕ) : Prop := n < 2 ^ 32 ∨ 2 ^ 31 - 256 < n % 2 ^ 32

-- a file of `n` bytes is sent whole, or GET_FILE is answered by NSF
def DownloadExact (n : ℕ) : Prop :=
  ∀ (self : ServerThread) (sender : Sender) (currentMsg : Msg) (disk : Disk) (stored : List UInt8),
    self.currentState = .waitingForRequest → self.sender = some sender →
    currentMsg.type = .getFile →
    disk.findFirstFile (ServerThread.requestedFile currentMsg) = some stored → stored.length = n →
    self.downloadTransfer currentMsg disk = none ∧
        self.run currentMsg disk = some (self.refuseFile currentMsg) ∨
      ∃ loaded, self.downloadTransfer currentMsg disk = some loaded ∧ loaded.Covers stored

-- a file of `n` bytes is sent whole, or `performUpload` throws
def UploadExact (n : ℕ) : Prop :=
  ∀ (sender : Sender) (sequenceNumber : ℤ) (filename : List UInt8) (disk : Disk)
    (stored : List UInt8), disk.findFirstFile (FtpClient.filesDirectory ++ filename) = some stored →
    stored.length = n →
    FtpClient.uploadTransfer sender sequenceNumber filename disk = none ∨
      ∃ loaded, FtpClient.uploadTransfer sender sequenceNumber filename disk = some loaded ∧
        loaded.Covers stored

variable {n : ℕ}

theorem downloadExact_iff : DownloadExact n ↔ SizeAccepted n := by
  constructor
  · intro h
    let self : ServerThread := { ServerThread.create 0 with
      currentState := .waitingForRequest
      sender := some (Sender.create 0 0) }
    let disk : Disk := { Disk.empty with findFirstFile := fun _ => some (List.replicate n 0) }
    have hlength : (List.replicate n (0 : UInt8)).length = n := List.length_replicate
    have hexact := h self (Sender.create 0 0) ⟨0,0,.getFile,0,0,Buffer.copyIn []⟩ disk
      (List.replicate n 0) rfl rfl rfl rfl hlength
    rw [ServerThread.downloadTransfer_eq rfl rfl] at hexact
    have hiff := Sender.loadFile_exact_iff.mp (hexact.imp_left And.left)
    rw [hlength] at hiff
    exact hiff
  · intro haccepted self sender currentMsg disk stored hstate hsender htype hfile hlength
    have htransfer := ServerThread.downloadTransfer_eq hsender hfile
    rw [SizeAccepted,← hlength] at haccepted
    rcases Sender.loadFile_exact_iff.mpr haccepted with hnone | ⟨loaded,hload,hcovers⟩
    · rw [← htransfer] at hnone
      exact Or.inl ⟨hnone,ServerThread.run_downloadTransfer hstate htype hnone⟩
    · exact Or.inr ⟨loaded,htransfer.trans hload,hcovers⟩

theorem uploadExact_iff : UploadExact n ↔ SizeAccepted n := by
  constructor
  · intro h
    let disk : Disk := { Disk.empty with findFirstFile := fun _ => some (List.replicate n 0) }
    have hlength : (List.replicate n (0 : UInt8)).length = n := List.length_replicate
    have hexact := h (Sender.create 0 0) 0 [] disk (List.replicate n 0) rfl hlength
    rw [FtpClient.uploadTransfer_eq rfl] at hexact
    have hiff := Sender.loadFile_exact_iff.mp hexact
    rw [hlength] at hiff
    exact hiff
  · intro haccepted sender sequenceNumber filename disk stored hfile hlength
    rw [SizeAccepted,← hlength] at haccepted
    rw [FtpClient.uploadTransfer_eq hfile]
    exact Sender.loadFile_exact_iff.mpr haccepted

theorem file_size_exact_iff (n : ℕ) : DownloadExact n ∧ UploadExact n ↔ SizeAccepted n := by
  rw [downloadExact_iff,uploadExact_iff,and_self_iff]

-- four gigabytes and one byte: the low half is 1
theorem high_half_is_dropped : ¬∀ n < 2 ^ 64, DownloadExact n ∧ UploadExact n := by
  intro h
  have hexact := (h (2 ^ 32 + 1) (by decide)).1
  rw [downloadExact_iff,SizeAccepted] at hexact
  omega

end FileSize
end FtpOverUdp
