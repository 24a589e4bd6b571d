import FtpOverUdp.UdpServer.Service
import Mathlib.Algebra.Order.Group.Multiset

namespace FtpOverUdp

open Library

namespace Service

variable {n : ℕ} {σ : Type} {files : FileSystem σ} {paths : PathFunctions}
variable {threads : Fin n → ServerThread} {s₀ : σ}

-- what is in the files, under whatever names
structure Contents (files : FileSystem σ) where
  of : σ → Multiset (List UInt8)
  rename_free : ∀ {s filename newFilename}, files.pathFileExists s newFilename = false →
    of (files.rename s filename newFilename) = of s
  write_free : ∀ {s completeFilename bytes}, files.pathFileExists s completeFilename = false →
    of (files.write s completeFilename bytes).2 =
      of s + if (files.write s completeFilename bytes).1 then {bytes} else 0

def unopened : FileAnswer → Bool
  | .saved _ opened => !opened
  | _ => false

def uploaded (effects : List Effect) : List (List UInt8) :=
  effects.filterMap fun
    | .save _ fileContents => some (fileContents.data.take fileContents.length)
    | _ => none

-- the uploads that a turn has put into a file, a stream that does not open apart
def stored (served : Served n) : Multiset (List UInt8) :=
  if served.file.any fun file => unopened file.2 then 0 else uploaded served.effects

def requested : Option FileRequest → List (List UInt8)
  | some (.saveFile _ fileContents) => [fileContents.data.take fileContents.length]
  | _ => []

theorem uploaded_send (sent : List Msg) : uploaded (sent.map Effect.send) = [] := by
  induction sent with
  | nil => rfl
  | cons msg sent ih => exact ih

theorem uploaded_dispatchToReceiver {self : ServerThread} {currentMsg : Msg}
    {out : ServerThread.Outcome} (hstate : self.currentState = .receiving)
    (hmsg : currentMsg.type = .resp ∨ currentMsg.isText eofText)
    (hrun : self.dispatchToReceiver currentMsg = some out) :
    uploaded out.2 = requested (self.fileRequest currentMsg) := by
  obtain ⟨receiver,hreceiver,hrun⟩ := Option.bind_eq_some_iff.mp hrun
  obtain ⟨handled,hhandled,hrun⟩ := Option.bind_eq_some_iff.mp hrun
  simp only [ServerThread.fileRequest,hstate,if_pos hmsg,hreceiver,Option.bind_some,hhandled]
  dsimp only at hrun
  split at hrun
  · cases hrun
  · rename_i payload drained hthrown hpayload
    cases hrun
    simp only [hthrown,hpayload,requested]
    exact List.filterMap_append.trans (by rw [← uploaded,uploaded_send]; rfl)
  · rename_i hthrown hpayload
    cases hrun
    simp only [hthrown,hpayload,requested]
    exact uploaded_send handled.sent

theorem uploaded_startHandshake {self : ServerThread} {currentMsg : Msg} {reply : Effect}
    (h : self.startHandshake currentMsg = some reply) : uploaded [reply] = [] := by
  unfold ServerThread.startHandshake at h
  split_ifs at h
  cases h
  rfl

theorem uploaded_sendFile {self : ServerThread} {currentMsg : Msg} {disk : Disk}
    {out : ServerThread.Outcome} (h : self.sendFile currentMsg disk = some out) :
    uploaded out.2 = [] := by
  dsimp only [ServerThread.sendFile] at h
  split at h <;> cases h <;> rfl

theorem uploaded_startRename (self : ServerThread) (currentMsg : Msg) (disk : Disk) :
    uploaded (self.startRename currentMsg disk).2 = [] := by
  dsimp only [ServerThread.startRename]
  split_ifs <;> rfl

theorem uploaded_dispatchToSender {self : ServerThread} {currentMsg : Msg}
    {out : ServerThread.Outcome} (h : self.dispatchToSender currentMsg = some out) :
    uploaded out.2 = [] := by
  obtain ⟨sender,_,h⟩ := Option.bind_eq_some_iff.mp h
  obtain ⟨acked,_,rfl⟩ := Option.map_eq_some_iff.mp h
  split_ifs <;> rfl

theorem uploaded_handleRename (self : ServerThread) (currentMsg : Msg) (disk : Disk) :
    uploaded (self.handleRename currentMsg disk).2 = [] := by
  have hreply : ServerThread.RenameReply self currentMsg (self.handleRename currentMsg disk) :=
    ServerThread.handleRename_reply disk
  generalize self.handleRename currentMsg disk = out at hreply
  cases hreply <;> rfl

theorem uploaded_handleRequest {self : ServerThread} {currentMsg : Msg} {disk : Disk}
    {out : ServerThread.Outcome} (h : self.handleRequest currentMsg disk = some out) :
    uploaded out.2 = [] := by
  unfold ServerThread.handleRequest at h
  split at h
  · obtain ⟨reply,hreply,rfl⟩ := Option.map_eq_some_iff.mp h
    exact uploaded_startHandshake hreply
  · obtain ⟨_,_,rfl⟩ := Option.map_eq_some_iff.mp h
    rfl
  · exact uploaded_sendFile h
  · obtain ⟨_,_,rfl⟩ := Option.map_eq_some_iff.mp h
    rfl
  · cases h
    exact uploaded_startRename self currentMsg disk
  all_goals cases h; rfl

theorem requested_waiting {self : ServerThread} {currentMsg : Msg}
    (hstate : self.currentState = .waitingForRequest) :
    requested (self.fileRequest currentMsg) = [] := by
  simp only [ServerThread.fileRequest,hstate]
  cases currentMsg.type <;> rfl

theorem uploaded_run {self : ServerThread} {currentMsg : Msg} {disk : Disk}
    {out : ServerThread.Outcome} (hrun : self.run currentMsg disk = some out) :
    uploaded out.2 = requested (self.fileRequest currentMsg) := by
  match hstate : self.currentState with
  | .initializing =>
    simp only [ServerThread.run,hstate] at hrun
    cases hrun
    simp only [ServerThread.fileRequest,hstate]
    rfl
  | .startingHandshake =>
    simp only [ServerThread.run,hstate] at hrun
    obtain ⟨reply,hreply,rfl⟩ := Option.map_eq_some_iff.mp hrun
    simp only [ServerThread.fileRequest,hstate]
    exact uploaded_startHandshake hreply
  | .waitingForRequest =>
    simp only [ServerThread.run,hstate] at hrun
    exact (uploaded_handleRequest hrun).trans (requested_waiting hstate).symm
  | .sending =>
    simp only [ServerThread.run,hstate] at hrun
    simp only [ServerThread.fileRequest,hstate]
    split_ifs at hrun
    · exact uploaded_dispatchToSender hrun
    · cases hrun
      rfl
  | .receiving =>
    simp only [ServerThread.run,hstate,ServerThread.handleUpload] at hrun
    split_ifs at hrun with hmsg hpost
    · exact uploaded_dispatchToReceiver hstate hmsg hrun
    all_goals
      cases hrun
      simp only [ServerThread.fileRequest,hstate,if_neg hmsg]
      rfl
  | .renaming =>
    simp only [ServerThread.run,hstate] at hrun
    cases hrun
    rw [uploaded_handleRename]
    simp only [ServerThread.fileRequest,hstate]
    split_ifs <;> rfl

theorem stored_of_none_uploaded {e : Served n} (h : uploaded e.effects = []) : stored e = 0 := by
  unfold stored
  split_ifs
  · rfl
  · rw [h]
    rfl

theorem Contents.atomic (contents : Contents files)
    {before after : (Fin n → ServerThread) × σ} {e : Served n}
    (h : Atomic files paths before e after) :
    contents.of after.2 = contents.of before.2 + stored e := by
  cases h with
  | own hnone hrun =>
    have hsaved := uploaded_run hrun
    rw [hnone] at hsaved
    rw [stored_of_none_uploaded hsaved,add_zero]
  | file hrequest hdone hrun =>
    have hsaved := uploaded_run hrun
    rw [hrequest] at hsaved
    cases hdone with
    | saved htaken hfree hwrite =>
      cases hwrite
      dsimp only
      rw [contents.write_free hfree]
      simp only [stored,Option.any_some,unopened,hsaved,requested]
      cases (files.write _ _ _).1 <;> rfl
    | renamed hfree =>
      rw [stored_of_none_uploaded hsaved,add_zero]
      exact contents.rename_free hfree
    | _ => rw [stored_of_none_uploaded hsaved,add_zero]

theorem no_file_lost (contents : Contents files) {events : List (Event n)} {final : Service n σ}
    (halone : ((system files paths threads s₀).Along fun st e _ => EntersAlone st e)
      (start threads s₀) events)
    (hrun : (system files paths threads s₀).run (start threads s₀) events = some final) :
    contents.of final.store = contents.of s₀ + (final.log.map stored).sum := by
  let held (state : (Fin n → ServerThread) × σ) : Multiset (List UInt8) := contents.of state.2
  have hsum : held (final.threads,final.store) = held (threads,s₀) + (final.log.map stored).sum :=
    (Inv.run halone hrun).serial.measure fun h => contents.atomic h
  exact hsum

def flatContents : Contents FileSystem.flat where
  of s := s.map (·.2)
  rename_free := by
    intro s filename newFilename _
    simp only [FileSystem.flat]
    split_ifs
    · rfl
    · rw [List.map_map]
      congr 2
      funext file
      simp only [Function.comp_apply]
      split_ifs <;> rfl
  write_free := by
    intro s completeFilename bytes hfree
    simp only [FileSystem.flat] at hfree ⊢
    rw [hfree,if_neg Bool.false_ne_true,List.map_append,if_pos trivial,← Multiset.coe_add]
    rfl

theorem no_file_lost_two_threads : ∃ final : Service 2 (List (List UInt8 × List UInt8)),
    final.store = [(ServerThread.filesDirectory ++ [98],[7]),
      (ServerThread.filesDirectory ++ [98,95],[65])] ∧
    flatContents.of final.store = {[7]} + (final.log.map stored).sum := by
  have halone : (system FileSystem.flat .lastDot renamedAndUploaded FileSystem.oneFile).check alone
      (start renamedAndUploaded FileSystem.oneFile) renameAndUpload = true := by decide
  have hrun : ((system FileSystem.flat .lastDot renamedAndUploaded FileSystem.oneFile).run
      (start renamedAndUploaded FileSystem.oneFile) renameAndUpload).any (fun final =>
        final.store = [(ServerThread.filesDirectory ++ [98],[7]),
          (ServerThread.filesDirectory ++ [98,95],[65])]) = true := by decide
  obtain ⟨final,hfinal,hstore⟩ := (Option.any_eq_true _ _).mp hrun
  refine ⟨final,of_decide_eq_true hstore,?_⟩
  exact no_file_lost flatContents ((system FileSystem.flat .lastDot renamedAndUploaded FileSystem.oneFile).along_of_check
    (fun _ _ h => entersAlone_of_alone h) halone) hfinal

def uploading (byte : UInt8) (serverId : ℤ) : ServerThread :=
  { ServerThread.create serverId with
    currentState := .receiving
    filename := [98]
    sequenceNumber := 2
    receiver := some { (Receiver.create serverId 1).startNewPayload 2 with
      completedSet := [[byte]]
      totalPayloadSize := 1
      windowOrigin := 1 } }

-- both look for a free name before either has opened its file
theorem two_saves_at_once_lose_a_file :
    let threads : Fin 2 → ServerThread := fun i => uploading (65 + i.val.toUInt8) i
    ∃ events final, (system FileSystem.flat .lastDot threads []).run (start threads []) events =
        some final ∧
      final.log.flatMap (fun e => uploaded e.effects) = [[65],[66]] ∧
      final.store = [(ServerThread.filesDirectory ++ [98],[66])] := by
  intro threads
  let message : Msg := ⟨1,1,.respErr,8,3,Buffer.copyIn (eofText ++ [0] ++ encodeInt 1)⟩
  let events : List (Event 2) := [.waitForSignalling 0 message,.waitForSignalling 1 message,
    .call 0,.call 1,.call 0,.call 1]
  have hrun : ((system FileSystem.flat .lastDot threads []).run (start threads []) events).any
      (fun final => decide (final.log.flatMap (fun e => uploaded e.effects) = [[65],[66]]) &&
        decide (final.store = [(ServerThread.filesDirectory ++ [98],[66])])) = true := by decide
  obtain ⟨final,hfinal,hend⟩ := (Option.any_eq_true _ _).mp hrun
  simp only [Bool.and_eq_true,decide_eq_true_eq] at hend
  exact ⟨events,final,hfinal,hend⟩

end Service
end FtpOverUdp
