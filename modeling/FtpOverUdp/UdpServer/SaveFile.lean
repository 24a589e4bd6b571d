import FtpOverUdp.Library.LastSeparator
import FtpOverUdp.Library.Loop
import FtpOverUdp.UdpServer.ServerThread
import Mathlib.Data.List.TakeWhile

namespace FtpOverUdp

open Library

-- the characters of a `std::string` up to the first NUL, which is what the file system is given
def cStr (s : List UInt8) : List UInt8 := s.takeWhile (· ≠ 0)

def dot : UInt8 := 46
def underscore : UInt8 := 95

def EndsExtension (c : UInt8) : Prop := c = 92 ∨ c = 32

instance : DecidablePred EndsExtension := fun c => inferInstanceAs (Decidable (c = 92 ∨ c = 32))

structure PathFunctions where
  pathFindExtension : List UInt8 → List UInt8
  pathRemoveExtension : List UInt8 → List UInt8
  split : ∀ path, LastSeparator.Split dot EndsExtension path (pathRemoveExtension path)
    (pathFindExtension path)

def PathFunctions.lastDot : PathFunctions where
  pathFindExtension := LastSeparator.tailOf dot EndsExtension
  pathRemoveExtension := LastSeparator.stemOf dot EndsExtension
  split := LastSeparator.split_tailOf

namespace ServerThread

variable (paths : PathFunctions) (disk : Disk)

-- the copy is made in `new char[strlen(..)]`, with no byte for the NUL
def appendUnderscore (heap : Heap) (extension completeFilename : List UInt8) :
    Option (List UInt8) :=
  let currentFilenameTemp := cStr completeFilename
  (heap.strcpy currentFilenameTemp.length currentFilenameTemp).map fun currentFilename =>
    paths.pathRemoveExtension currentFilename ++ [underscore] ++ extension

def completeFilename (self : ServerThread) (fuel : ℕ) : Loop.Outcome (List UInt8) :=
  let extension := paths.pathFindExtension (cStr self.filename)
  Loop.run (fun completeFilename => disk.pathFileExists (cStr completeFilename))
    (appendUnderscore paths disk.heap extension) fuel (filesDirectory ++ self.filename)

-- the file that is opened and what is written to it
def saveFile (self : ServerThread) (fileContents : Payload) (fuel : ℕ) :
    Loop.Outcome (List UInt8 × List UInt8) :=
  (self.completeFilename paths disk fuel).map fun completeFilename =>
    (cStr completeFilename,fileContents.data.take fileContents.length)

-- the same round with room for the NUL
def withUnderscore (extension completeFilename : List UInt8) : List UInt8 :=
  paths.pathRemoveExtension (cStr completeFilename) ++ [underscore] ++ extension

def HasRoom (heap : Heap) (path : List UInt8) : Prop := path.length + 1 ≤ heap.block path.length

instance (heap : Heap) (path : List UInt8) : Decidable (HasRoom heap path) :=
  inferInstanceAs (Decidable (path.length + 1 ≤ heap.block path.length))

def candidate (filename : List UInt8) (k : ℕ) : List UInt8 :=
  filesDirectory ++ (paths.pathRemoveExtension filename ++ List.replicate k underscore ++
    paths.pathFindExtension filename)

end ServerThread

theorem zero_not_mem_cStr (s : List UInt8) : 0 ∉ cStr s := by
  intro h
  simpa using List.mem_takeWhile_imp h

theorem cStr_of_not_mem {s : List UInt8} (h : 0 ∉ s) : cStr s = s := by
  refine List.takeWhile_eq_self_iff.mpr fun c hc => ?_
  exact decide_eq_true fun he => h (he ▸ hc)

theorem cStr_append {pre s : List UInt8} (h : 0 ∉ pre) : cStr (pre ++ s) = pre ++ cStr s :=
  List.takeWhile_append_of_pos fun _ hc => decide_eq_true fun he => h (he ▸ hc)

namespace ServerThread

variable {paths : PathFunctions} {disk : Disk} {filename s : List UInt8} {k : ℕ}

theorem zero_not_mem_filesDirectory : (0 : UInt8) ∉ filesDirectory := by decide

theorem closed_filesDirectory : LastSeparator.Closed dot EndsExtension filesDirectory :=
  LastSeparator.closed_of_not_mem (by decide)

theorem split_candidate (filename : List UInt8) (k : ℕ) :
    LastSeparator.Split dot EndsExtension (candidate paths filename k)
      (filesDirectory ++ (paths.pathRemoveExtension filename ++ List.replicate k underscore))
      (paths.pathFindExtension filename) := by
  have hmid : dot ∉ List.replicate k underscore :=
    fun h => absurd (List.eq_of_mem_replicate h) (by decide)
  exact ((paths.split filename).insert hmid).prepend closed_filesDirectory

theorem zero_not_mem_candidate (h : 0 ∉ filename) : 0 ∉ candidate paths filename k := by
  rw [← (paths.split filename).append,List.mem_append,not_or] at h
  simp only [candidate,List.mem_append,not_or]
  refine ⟨zero_not_mem_filesDirectory,⟨h.1,fun hm => ?_⟩,h.2⟩
  exact absurd (List.eq_of_mem_replicate hm) (by decide)

theorem appendUnderscore_eq (heap : Heap) (extension s : List UInt8) :
    appendUnderscore paths heap extension s =
      if HasRoom heap (cStr s) then some (withUnderscore paths extension s) else none := by
  by_cases hroom : HasRoom heap (cStr s)
  · rw [if_pos hroom]
    exact congrArg (Option.map _) (if_pos hroom)
  · rw [if_neg hroom]
    exact congrArg (Option.map _) (if_neg hroom)

theorem isSome_appendUnderscore {heap : Heap} {extension : List UInt8} :
    (appendUnderscore paths heap extension s).isSome ↔ HasRoom heap (cStr s) := by
  rw [appendUnderscore_eq]
  split_ifs with hroom <;> simp [hroom]

theorem withUnderscore_of_some (heap : Heap) {extension s' : List UInt8}
    (h : appendUnderscore paths heap extension s = some s') :
    s' = withUnderscore paths extension s := by
  rw [appendUnderscore_eq] at h
  split_ifs at h
  exact (Option.some.inj h).symm

theorem withUnderscore_candidate (hs : cStr s = candidate paths filename k) :
    withUnderscore paths (paths.pathFindExtension filename) s =
      candidate paths filename (k + 1) := by
  have hstem := ((paths.split (candidate paths filename k)).unique (split_candidate filename k)).1
  rw [withUnderscore,hs,hstem,candidate,List.replicate_succ']
  simp only [List.append_assoc]

theorem candidate_zero (paths : PathFunctions) (filename : List UInt8) :
    candidate paths filename 0 = filesDirectory ++ filename := by
  rw [candidate,List.replicate_zero,List.append_nil,(paths.split filename).append]

-- a NUL in the uploaded name cuts it once, before the first round
theorem iterate_candidate (filename : List UInt8) (k : ℕ) :
    cStr ((withUnderscore paths (paths.pathFindExtension (cStr filename)))^[k]
      (filesDirectory ++ filename)) = candidate paths (cStr filename) k := by
  induction k with
  | zero =>
    rw [Function.iterate_zero_apply,cStr_append zero_not_mem_filesDirectory,candidate_zero]
  | succ k ih =>
    rw [Function.iterate_succ_apply',withUnderscore_candidate ih]
    exact cStr_of_not_mem (zero_not_mem_candidate (zero_not_mem_cStr filename))

theorem candidate_injective (filename : List UInt8) :
    Function.Injective (candidate paths filename) := by
  intro j k h
  have hlength := congrArg List.length h
  simp only [candidate,List.length_append,List.length_replicate] at hlength
  omega

theorem saveFile_eq (paths : PathFunctions) (self : ServerThread) (fileContents : Payload)
    (hfinite : {path | disk.pathFileExists path = true}.Finite) :
    ∃ k, (∀ j < k, disk.pathFileExists (candidate paths (cStr self.filename) j) = true) ∧
      disk.pathFileExists (candidate paths (cStr self.filename) k) = false ∧
      ∀ fuel, k < fuel → self.saveFile paths disk fileContents fuel =
        if ∀ j < k, HasRoom disk.heap (candidate paths (cStr self.filename) j) then
          .ended (candidate paths (cStr self.filename) k,
            fileContents.data.take fileContents.length)
        else .fault := by
  have hfresh : Function.Injective fun k => cStr ((withUnderscore paths
      (paths.pathFindExtension (cStr self.filename)))^[k] (filesDirectory ++ self.filename)) := by
    simp only [iterate_candidate]
    exact candidate_injective _
  obtain ⟨k,hends⟩ := Loop.exists_ends hfinite hfresh
  refine ⟨k,fun j hj => ?_,?_,fun fuel hfuel => ?_⟩
  · have hstay := hends.stays j hj
    rw [iterate_candidate] at hstay
    exact hstay
  · have hleave := hends.leaves
    rw [iterate_candidate] at hleave
    exact hleave
  · have hrun := hends.run_eq (fun _ _ => withUnderscore_of_some disk.heap) hfuel
    rw [saveFile,completeFilename,hrun]
    simp only [isSome_appendUnderscore,iterate_candidate]
    split_ifs
    · rw [Loop.Outcome.map,iterate_candidate]
    · rfl

def TakesLeastFreeName (paths : PathFunctions) (disk : Disk) (self : ServerThread)
    (fileContents : Payload) : Prop :=
  ∃ k, (∀ j < k, disk.pathFileExists (candidate paths (cStr self.filename) j) = true) ∧
    disk.pathFileExists (candidate paths (cStr self.filename) k) = false ∧
    ∀ fuel, k < fuel → self.saveFile paths disk fileContents fuel =
      .ended (candidate paths (cStr self.filename) k,
        fileContents.data.take fileContents.length)

theorem takesLeastFreeName_iff_hasRoom (paths : PathFunctions) (disk : Disk) (self : ServerThread)
    (fileContents : Payload) (hfinite : {path | disk.pathFileExists path = true}.Finite) :
    TakesLeastFreeName paths disk self fileContents ↔
      ∀ j, (∀ i ≤ j, disk.pathFileExists (candidate paths (cStr self.filename) i) = true) →
        HasRoom disk.heap (candidate paths (cStr self.filename) j) := by
  obtain ⟨k,htaken,hfree,hsaved⟩ := saveFile_eq paths self fileContents hfinite
  constructor
  · rintro ⟨l,-,-,hends⟩ j hj
    have hboth := (hsaved (max k l + 1) (by omega)).symm.trans (hends (max k l + 1) (by omega))
    split_ifs at hboth with hroom
    refine hroom j ?_
    by_contra hle
    exact absurd (hj k (Nat.le_of_not_lt hle)) (Bool.eq_false_iff.mp hfree)
  · intro hroom
    refine ⟨k,htaken,hfree,fun fuel hfuel => ?_⟩
    rw [hsaved fuel hfuel]
    exact if_pos fun j hj => hroom j fun i hi => htaken i (hi.trans_lt hj)

-- a block of exactly `strlen(..)` bytes has no room for the NUL of any name
theorem takesLeastFreeName_iff (paths : PathFunctions) (self : ServerThread)
    (fileContents : Payload) (hfinite : {path | disk.pathFileExists path = true}.Finite) :
    TakesLeastFreeName paths { disk with heap := .exact } self fileContents ↔
      disk.pathFileExists (filesDirectory ++ cStr self.filename) = false := by
  have hnone : ∀ path, ¬HasRoom .exact path := fun path => Nat.not_succ_le_self path.length
  refine (takesLeastFreeName_iff_hasRoom paths { disk with heap := .exact } self fileContents
    hfinite).trans ?_
  rw [← candidate_zero paths,← Bool.not_eq_true]
  constructor
  · intro hroom htaken
    refine hnone _ (hroom 0 fun i hi => ?_)
    rw [Nat.le_zero.mp hi]
    exact htaken
  · exact fun hfree j hj => absurd (hj 0 j.zero_le) hfree

def report : List UInt8 := ascii ['r','e','p','o','r','t','0','1','.','t','x','t']

def stored : Disk := { Disk.empty with pathFileExists := fun path => path = filesDirectory ++ report }

theorem finite_stored : {path | stored.pathFileExists path = true}.Finite :=
  (Set.finite_singleton (filesDirectory ++ report)).subset fun _ hpath => of_decide_eq_true hpath

theorem takesLeastFreeName_iff_second :
    let self : ServerThread := { create 0 with filename := underscore :: report }
    TakesLeastFreeName .lastDot { stored with heap := .exact } self ⟨1,[7]⟩ ↔
      stored.pathFileExists (filesDirectory ++ cStr self.filename) = false := by
  intro self
  exact takesLeastFreeName_iff .lastDot self ⟨1,[7]⟩ finite_stored

-- with the directory 24 characters: a heap that rounds up to words has no room for the NUL either
theorem stored_name_overruns : ¬∀ (paths : PathFunctions) (disk : Disk) (self : ServerThread)
    (fileContents : Payload), {path | disk.pathFileExists path = true}.Finite →
      TakesLeastFreeName paths { disk with heap := .exact } self fileContents := by
  intro h
  let self : ServerThread := { create 0 with filename := report }
  obtain ⟨k,-,-,hsaved⟩ := h .lastDot stored self ⟨1,[7]⟩ finite_stored
  have hfault : self.saveFile .lastDot { stored with heap := .exact } ⟨1,[7]⟩ (k + 1) = .fault := rfl
  cases hfault.symm.trans (hsaved (k + 1) k.lt_succ_self)

end ServerThread
end FtpOverUdp
