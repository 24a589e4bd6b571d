import FtpOverUdp.Library.Serial
import FtpOverUdp.UdpServer.DirectoryListing
import FtpOverUdp.UdpServer.FileLock
import FtpOverUdp.UdpServer.SaveFile

namespace FtpOverUdp

open Library

-- what the operating system answers about its files and does to them, and the heap of the server
structure FileSystem (σ : Type) where
  pathFileExists : σ → List UInt8 → Bool
  findFirstFile : σ → List UInt8 → Option (List UInt8)
  entries : σ → List FindData
  -- nobody looks whether it succeeds
  rename : σ → List UInt8 → List UInt8 → σ
  -- whether the stream opens, which nobody looks at either, and the store afterwards
  write : σ → List UInt8 → List UInt8 → Bool × σ
  heap : Heap

inductive FileRequest
  | getDirectoryContents
  | getFileContents (fullFileName : List UInt8)
  | startRename (filename : List UInt8)
  | performRename (filename newFilename : List UInt8)
  | saveFile (filename : List UInt8) (fileContents : Payload)
  deriving DecidableEq

def FileRequest.operation : FileRequest → FileOperation
  | .getDirectoryContents => .getDirectoryContents
  | .getFileContents _ => .getFileContents
  | .startRename _ => .startRename
  | .performRename _ _ => .performRename
  | .saveFile _ _ => .saveFile

-- the next call that an operation makes
inductive FileCall
  | findNextFile (payloadData : List (List UInt8)) (index : ℕ)
  | findFirstFile (fullFileName : List UInt8)
  | read (fullFileName : List UInt8) (size : ℤ)
  | startTest (filename : List UInt8)
  | renameTest (filename newFilename : List UInt8)
  | rename (filename newFilename : List UInt8)
  | saveTest (extension completeFilename contents : List UInt8)
  | write (completeFilename contents : List UInt8)
  deriving DecidableEq

inductive FileAnswer
  | listing (payloadData : List (List UInt8))
  | contents (bytes : List UInt8)
  | thrown
  | existing
  | free
  | saved (completeFilename : List UInt8) (opened : Bool)
  deriving DecidableEq

namespace FileSystem

variable {σ : Type} (files : FileSystem σ) (paths : PathFunctions)

def begin : FileRequest → FileCall
  | .getDirectoryContents => .findNextFile [] 0
  | .getFileContents fullFileName => .findFirstFile fullFileName
  | .startRename filename => .startTest filename
  | .performRename filename newFilename => .renameTest filename newFilename
  | .saveFile filename fileContents =>
    .saveTest (paths.pathFindExtension (cStr filename)) (ServerThread.filesDirectory ++ filename)
      (fileContents.data.take fileContents.length)

-- `none` where a `strcpy` leaves its block
def call (s : σ) : FileCall → Option (FileCall ⊕ (FileAnswer × σ))
  | .findNextFile payloadData index =>
    match (files.entries s)[index]? with
    | none => some (.inr (.listing payloadData,s))
    | some ffd =>
      if ffd.isDirectory then some (.inl (.findNextFile payloadData (index + 1)))
      else (files.heap.strcpy filenameLength ffd.cFileName.chars).map fun currentFilename =>
        .inl (.findNextFile (payloadData ++ [currentFilename]) (index + 1))
  | .findFirstFile fullFileName =>
    match files.findFirstFile s fullFileName with
    | none => some (.inr (.thrown,s))
    | some stored => some (.inl (.read fullFileName (fileSize stored.length)))
  | .read fullFileName size =>
    if 0 ≤ size then
      some (.inr (.contents (((files.findFirstFile s fullFileName).getD []).take size.toNat),s))
    else some (.inr (.thrown,s))
  | .startTest filename =>
    some (.inr (if files.pathFileExists s filename then .existing else .free,s))
  | .renameTest filename newFilename =>
    if files.pathFileExists s newFilename then some (.inr (.existing,s))
    else some (.inl (.rename filename newFilename))
  | .rename filename newFilename => some (.inr (.free,files.rename s filename newFilename))
  | .saveTest extension completeFilename contents =>
    if files.pathFileExists s (cStr completeFilename) then
      (ServerThread.appendUnderscore paths files.heap extension completeFilename).map fun renamed =>
        .inl (.saveTest extension renamed contents)
    else some (.inl (.write (cStr completeFilename) contents))
  | .write completeFilename contents =>
    let written := files.write s completeFilename contents
    some (.inr (.saved completeFilename written.1,written.2))

def operations : Operations FileRequest σ FileCall FileAnswer where
  start := begin paths
  call := files.call paths

def disk (s : σ) : Disk where
  pathFileExists := files.pathFileExists s
  findFirstFile := files.findFirstFile s
  directory := DirectoryListing.listed (files.entries s)
  heap := files.heap

end FileSystem

namespace FileSystem

-- one directory of plain files, by their whole names
def flat : FileSystem (List (List UInt8 × List UInt8)) where
  pathFileExists s path := s.any fun file => file.1 = path
  findFirstFile s path := (s.find? fun file => file.1 = path).map (·.2)
  entries s := s.filterMap fun file =>
    let name := file.1.drop ServerThread.filesDirectory.length
    if h : name ≠ [] ∧ 0 ∉ name ∧ name.length ≤ 259 then some ⟨⟨name,h.1,h.2.1,h.2.2⟩,false⟩
    else none
  rename s filename newFilename :=
    if s.any fun file => file.1 = newFilename then s
    else s.map fun file => if file.1 = filename then (newFilename,file.2) else file
  write s completeFilename bytes := (true,
    if s.any fun file => file.1 = completeFilename then
      s.map fun file => if file.1 = completeFilename then (completeFilename,bytes) else file
    else s ++ [(completeFilename,bytes)])
  -- blocks of whole words
  heap := ⟨fun n => (n + 7) / 8 * 8,fun n => by omega⟩

def oneFile : List (List UInt8 × List UInt8) := [(ServerThread.filesDirectory ++ [97],[7])]

end FileSystem

-- what `run` needs to know of the files, once the section has answered
def FileAnswer.disk (answer : FileAnswer) (heap : Heap) : Disk where
  pathFileExists _ := answer = .existing
  findFirstFile _ :=
    match answer with
    | .contents bytes => some bytes
    | _ => none
  directory :=
    match answer with
    | .listing payloadData => payloadData
    | _ => []
  heap := heap

-- the section that `run` enters for a message
def ServerThread.fileRequest (self : ServerThread) (currentMsg : Msg) : Option FileRequest :=
  match self.currentState with
  | .waitingForRequest =>
    match currentMsg.type with
    | .getList => some .getDirectoryContents
    | .getFile => some (.getFileContents (filesDirectory ++
        (currentMsg.buffer.copyOut currentMsg.length.toNat).takeWhile (· ≠ 0)))
    | .put => some (.startRename (filesDirectory ++ currentMsg.buffer.cString))
    | _ => none
  | .receiving =>
    if currentMsg.type = .resp ∨ currentMsg.isText eofText then
      (self.receiver.bind (·.handleMsg currentMsg)).bind fun handled =>
        match handled.thrown,handled.receiver.getPayload with
        | none,some (payload,_) => some (.saveFile self.filename payload)
        | _,_ => none
    else none
  | .renaming =>
    if currentMsg.sequenceNumber = self.sequenceNumber then none
    else if currentMsg.sequenceNumber = wrap (self.sequenceNumber + 1) ∧
        currentMsg.type = .resp then
      some (.performRename self.filename (filesDirectory ++ currentMsg.buffer.cString))
    else none
  | _ => none

namespace FileSystem

open ServerThread

variable {σ : Type} {files : FileSystem σ} {paths : PathFunctions} {s s' : σ}
variable {request : FileRequest} {answer : FileAnswer} {next : FileCall}

def Taken (files : FileSystem σ) (paths : PathFunctions) (s : σ) (filename : List UInt8) (k : ℕ) :
    Prop :=
  ∀ j < k, files.pathFileExists s (candidate paths filename j) = true

-- how far an operation that has been alone so far has come
inductive Prepared (files : FileSystem σ) (paths : PathFunctions) (s : σ) :
    FileRequest → FileCall → Prop
  | findNextFile (index : ℕ) : Prepared files paths s .getDirectoryContents
      (.findNextFile (DirectoryListing.listed ((files.entries s).take index)) index)
  | findFirstFile (fullFileName : List UInt8) :
      Prepared files paths s (.getFileContents fullFileName) (.findFirstFile fullFileName)
  | read {fullFileName stored : List UInt8}
      (hfound : files.findFirstFile s fullFileName = some stored) :
      Prepared files paths s (.getFileContents fullFileName) (.read fullFileName (fileSize stored.length))
  | startTest (filename : List UInt8) :
      Prepared files paths s (.startRename filename) (.startTest filename)
  | renameTest (filename newFilename : List UInt8) :
      Prepared files paths s (.performRename filename newFilename) (.renameTest filename newFilename)
  | rename {filename newFilename : List UInt8}
      (hfree : files.pathFileExists s newFilename = false) :
      Prepared files paths s (.performRename filename newFilename) (.rename filename newFilename)
  | saveTest {filename completeFilename : List UInt8} (fileContents : Payload) {k : ℕ}
      (hname : cStr completeFilename = candidate paths (cStr filename) k)
      (htaken : Taken files paths s (cStr filename) k) :
      Prepared files paths s (.saveFile filename fileContents)
        (.saveTest (paths.pathFindExtension (cStr filename)) completeFilename
          (fileContents.data.take fileContents.length))
  | write {filename : List UInt8} (fileContents : Payload) {k : ℕ}
      (htaken : Taken files paths s (cStr filename) k)
      (hfree : files.pathFileExists s (candidate paths (cStr filename) k) = false) :
      Prepared files paths s (.saveFile filename fileContents)
        (.write (candidate paths (cStr filename) k) (fileContents.data.take fileContents.length))

theorem prepared_begin : Prepared files paths s request (begin paths request) := by
  cases request with
  | getDirectoryContents => exact .findNextFile 0
  | getFileContents fullFileName => exact .findFirstFile fullFileName
  | startRename filename => exact .startTest filename
  | performRename filename newFilename => exact .renameTest filename newFilename
  | saveFile filename fileContents =>
    have hname : cStr (filesDirectory ++ filename) = candidate paths (cStr filename) 0 :=
      iterate_candidate filename 0
    exact .saveTest fileContents hname fun j hj => absurd hj j.not_lt_zero

theorem listed_take_succ {entries : List FindData} {index : ℕ} {ffd : FindData}
    (h : entries[index]? = some ffd) : DirectoryListing.listed (entries.take (index + 1)) =
      DirectoryListing.listed (entries.take index) ++
        if ffd.isDirectory then [] else [ffd.cFileName.chars] := by
  unfold DirectoryListing.listed
  rw [List.take_add_one,h,List.filter_append,List.map_append]
  cases hdir : ffd.isDirectory <;> simp [hdir]

theorem Prepared.follow (h : Prepared files paths s request next) {following : FileCall}
    (hcall : files.call paths s next = some (.inl following)) : Prepared files paths s request following := by
  cases h with
  | findNextFile index =>
    simp only [call] at hcall
    split at hcall
    · cases hcall
    · rename_i ffd hffd
      have hlisted := listed_take_succ hffd
      split_ifs at hcall with hdir
      · rw [if_pos hdir,List.append_nil] at hlisted
        cases hcall
        exact hlisted ▸ .findNextFile (index + 1)
      · rw [if_neg hdir] at hlisted
        obtain ⟨currentFilename,hcopy,hnext⟩ := Option.map_eq_some_iff.mp hcall
        cases hnext
        rw [files.heap.eq_of_strcpy hcopy]
        exact hlisted ▸ .findNextFile (index + 1)
  | findFirstFile fullFileName =>
    simp only [call] at hcall
    split at hcall
    · cases hcall
    · rename_i stored hfound
      cases hcall
      exact .read hfound
  | read hfound =>
    simp only [call] at hcall
    split_ifs at hcall <;> cases hcall
  | renameTest filename newFilename =>
    simp only [call] at hcall
    split_ifs at hcall with hexists
    · cases hcall
    · cases hcall
      exact .rename (Bool.eq_false_iff.mpr hexists)
  | @saveTest filename completeFilename fileContents k hname htaken =>
    simp only [call,hname] at hcall
    split_ifs at hcall with hexists
    · obtain ⟨renamed,happend,hfollowing⟩ := Option.map_eq_some_iff.mp hcall
      cases hfollowing
      have hnext : cStr renamed = candidate paths (cStr filename) (k + 1) := by
        rw [withUnderscore_of_some files.heap happend,withUnderscore_candidate hname]
        exact cStr_of_not_mem (zero_not_mem_candidate (zero_not_mem_cStr filename))
      refine .saveTest fileContents hnext fun j hj => ?_
      rcases Nat.lt_succ_iff_lt_or_eq.mp hj with hlt | rfl
      · exact htaken j hlt
      · exact hexists
    · cases hcall
      exact .write fileContents htaken (Bool.eq_false_iff.mpr hexists)
  | startTest | rename | write => cases hcall

theorem prepared_of_goes (h : (files.operations paths).Goes s (begin paths request) next) :
    Prepared files paths s request next := by
  induction h with
  | refl => exact prepared_begin
  | tail _ hcall ih => exact ih.follow hcall

-- what an operation that was alone answers and does
inductive Done (files : FileSystem σ) (paths : PathFunctions) (s : σ) :
    FileRequest → FileAnswer → σ → Prop
  | listing : Done files paths s .getDirectoryContents
      (.listing (DirectoryListing.listed (files.entries s))) s
  | contents {fullFileName bytes : List UInt8}
      (hread : (files.findFirstFile s fullFileName).bind readFile = some bytes) :
      Done files paths s (.getFileContents fullFileName) (.contents bytes) s
  | thrown {fullFileName : List UInt8}
      (hread : (files.findFirstFile s fullFileName).bind readFile = none) :
      Done files paths s (.getFileContents fullFileName) .thrown s
  | started (filename : List UInt8) : Done files paths s (.startRename filename)
      (if files.pathFileExists s filename then .existing else .free) s
  | refused {filename newFilename : List UInt8}
      (hexists : files.pathFileExists s newFilename = true) :
      Done files paths s (.performRename filename newFilename) .existing s
  | renamed {filename newFilename : List UInt8}
      (hfree : files.pathFileExists s newFilename = false) :
      Done files paths s (.performRename filename newFilename) .free (files.rename s filename newFilename)
  | saved {filename : List UInt8} {fileContents : Payload} {k : ℕ} {written : Bool × σ}
      (htaken : Taken files paths s (cStr filename) k)
      (hfree : files.pathFileExists s (candidate paths (cStr filename) k) = false)
      (hwrite : files.write s (candidate paths (cStr filename) k)
        (fileContents.data.take fileContents.length) = written) :
      Done files paths s (.saveFile filename fileContents)
        (.saved (candidate paths (cStr filename) k) written.1) written.2

theorem Prepared.done (h : Prepared files paths s request next)
    (hcall : files.call paths s next = some (.inr (answer,s'))) : Done files paths s request answer s' := by
  cases h with
  | findNextFile index =>
    simp only [call] at hcall
    split at hcall
    · rename_i hend
      have hall : (files.entries s).take index = files.entries s :=
        List.take_of_length_le (List.getElem?_eq_none_iff.mp hend)
      cases hcall
      exact hall.symm ▸ .listing
    · split_ifs at hcall
      · cases hcall
      · obtain ⟨_,_,hnext⟩ := Option.map_eq_some_iff.mp hcall
        cases hnext
  | findFirstFile fullFileName =>
    simp only [call] at hcall
    split at hcall
    · rename_i hnone
      cases hcall
      exact .thrown (by rw [hnone,Option.bind_none])
    · cases hcall
  | @read fullFileName stored hfound =>
    have hread : (files.findFirstFile s fullFileName).bind readFile = readFile stored := by
      rw [hfound,Option.bind_some]
    simp only [call,hfound,Option.getD_some] at hcall
    split_ifs at hcall with hsize
    · cases hcall
      exact .contents (hread.trans (if_pos hsize))
    · cases hcall
      exact .thrown (hread.trans (if_neg hsize))
  | startTest filename =>
    cases hcall
    exact .started filename
  | renameTest filename newFilename =>
    simp only [call] at hcall
    split_ifs at hcall with hexists
    · cases hcall
      exact .refused hexists
    · cases hcall
  | rename hfree =>
    cases hcall
    exact .renamed hfree
  | saveTest =>
    simp only [call] at hcall
    split_ifs at hcall
    · obtain ⟨_,_,hnext⟩ := Option.map_eq_some_iff.mp hcall
      cases hnext
    · cases hcall
  | write fileContents htaken hfree =>
    cases hcall
    exact .saved htaken hfree rfl

theorem done_of_performs (h : (files.operations paths).Performs s request answer s') :
    Done files paths s request answer s' := by
  obtain ⟨next,hgoes,hcall⟩ := h
  exact (prepared_of_goes hgoes).done hcall

end FileSystem

namespace ServerThread

variable {self : ServerThread} {currentMsg : Msg} {σ : Type} {files : FileSystem σ}
variable {paths : PathFunctions} {s s' : σ} {request : FileRequest} {answer : FileAnswer}

theorem readFile_readFile {stored bytes : List UInt8} (h : readFile stored = some bytes) :
    readFile bytes = some bytes := by
  obtain ⟨hlength,hlow⟩ := readFile_length h
  have hsize : fileSize bytes.length = bytes.length := by
    rw [fileSize_eq]
    split_ifs <;> omega
  rw [readFile,hsize,if_pos (by omega),Int.toNat_natCast,List.take_length]

theorem sendFile_of_done {fullFileName : List UInt8}
    (hname : filesDirectory ++ (currentMsg.buffer.copyOut currentMsg.length.toNat).takeWhile
      (· ≠ 0) = fullFileName)
    (hdone : FileSystem.Done files paths s (.getFileContents fullFileName) answer s') :
    getFileContents currentMsg (files.disk s) = getFileContents currentMsg (answer.disk files.heap) := by
  rw [getFileContents,getFileContents,hname]
  cases hdone with
  | @contents _ bytes hread =>
    obtain ⟨stored,_,hstored⟩ := Option.bind_eq_some_iff.mp hread
    have hfound : ((FileAnswer.contents bytes).disk files.heap).findFirstFile fullFileName = some bytes := rfl
    rw [hfound,Option.bind_some,readFile_readFile hstored]
    exact hread
  | thrown hread =>
    have hfound : (FileAnswer.thrown.disk files.heap).findFirstFile fullFileName = none := rfl
    rw [hfound,Option.bind_none]
    exact hread

theorem run_of_no_request (hnone : self.fileRequest currentMsg = none) (disk other : Disk) :
    self.run currentMsg disk = self.run currentMsg other := by
  match hstate : self.currentState with
  | .waitingForRequest =>
    simp only [fileRequest,hstate] at hnone
    simp only [run,hstate]
    cases htype : currentMsg.type <;> simp only [htype,reduceCtorEq] at hnone <;>
      simp only [handleRequest,htype]
  | .renaming =>
    simp only [fileRequest,hstate] at hnone
    simp only [run,hstate,handleRename]
    split_ifs at hnone ⊢ with hsame hnext <;> rfl
  | .initializing | .startingHandshake | .sending | .receiving => simp only [run,hstate]

theorem run_of_done (hrequest : self.fileRequest currentMsg = some request)
    (hdone : FileSystem.Done files paths s request answer s') :
    self.run currentMsg (files.disk s) = self.run currentMsg (answer.disk files.heap) := by
  match hstate : self.currentState with
  | .waitingForRequest =>
    simp only [fileRequest,hstate] at hrequest
    simp only [run,hstate]
    cases htype : currentMsg.type <;> simp only [htype,reduceCtorEq,Option.some.injEq] at hrequest
    · subst hrequest
      cases hdone
      simp only [handleRequest,htype,sendList,getDirectoryContents,FileSystem.disk,FileAnswer.disk]
    · subst hrequest
      simp only [handleRequest,htype,sendFile,sendFile_of_done rfl hdone]
    · subst hrequest
      cases hdone
      simp only [handleRequest,htype,startRename,FileSystem.disk,FileAnswer.disk]
      split_ifs <;> simp_all
  | .renaming =>
    simp only [fileRequest,hstate] at hrequest
    split_ifs at hrequest with hsame hnext
    cases hrequest
    simp only [run,hstate,handleRename,if_neg hsame,if_pos hnext,performRename]
    cases hdone with
    | refused hexists => simp [FileSystem.disk,FileAnswer.disk,hexists]
    | renamed hfree => simp [FileSystem.disk,FileAnswer.disk,hfree]
  | .initializing | .startingHandshake | .sending | .receiving => simp only [run,hstate]

end ServerThread
end FtpOverUdp
