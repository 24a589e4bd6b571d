import FtpOverUdp.UdpServer.FileStore

namespace FtpOverUdp

open Library

-- where a thread stands in the section that `ioLock` guards
inductive FileTurn
  | outside
  | calling (message : Msg) (request : FileRequest) (next : FileCall)
  | answered (operation : FileOperation) (answer : FileAnswer)
  | signalled
  deriving DecidableEq

def FileTurn.stage : FileTurn → FileStage
  | .outside => .outside
  | .calling _ request _ => .working request.operation
  | .answered operation _ => .working operation
  | .signalled => .signalled

structure Served (n : ℕ) where
  thread : Fin n
  message : Msg
  file : Option (FileRequest × FileAnswer)
  effects : List Effect

-- all the server's threads over one directory
structure Service (n : ℕ) (σ : Type) where
  ioLock : AsyncLock
  threads : Fin n → ServerThread
  turn : Fin n → FileTurn
  store : σ
  log : List (Served n)

namespace Service

inductive Event (n : ℕ)
  | run (thread : Fin n) (message : Msg)
  | waitForSignalling (thread : Fin n) (message : Msg)
  | call (thread : Fin n)
  | throw (thread : Fin n)
  | finalizeSignalling (thread : Fin n)
  | finalizeConsumption (thread : Fin n)

variable {n : ℕ} {σ : Type} (files : FileSystem σ) (paths : PathFunctions)

def move (st : Service n σ) (ioLock : AsyncLock) (i : Fin n) (turn : FileTurn) : Service n σ :=
  { st with
    ioLock := ioLock
    turn := Function.update st.turn i turn }

def served (st : Service n σ) (i : Fin n) (message : Msg) (file : Option (FileRequest × FileAnswer))
    (store : σ) (out : ServerThread.Outcome) : Service n σ :=
  { st with
    threads := Function.update st.threads i out.1
    store := store
    log := st.log ++ [⟨i,message,file,out.2⟩] }

def step (st : Service n σ) : Event n → Option (Service n σ)
  | .run i message =>
    if st.turn i = .outside ∧ (st.threads i).fileRequest message = none then
      -- a turn that asks nothing of the files, whatever they hold
      ((st.threads i).run message (FileAnswer.free.disk files.heap)).map (st.served i message none st.store)
    else none
  | .waitForSignalling i message =>
    if st.turn i = .outside then
      ((st.threads i).fileRequest message).bind fun request =>
        st.ioLock.waitForSignalling.map
          (st.move · i (.calling message request (FileSystem.begin paths request)))
    else none
  | .call i =>
    match st.turn i with
    | .calling message request next =>
      match files.call paths st.store next with
      | none => none
      | some (.inl following) => some (st.move st.ioLock i (.calling message request following))
      | some (.inr (answer,store)) =>
        -- the rest of the turn touches only what is the thread's own
        ((st.threads i).run message (answer.disk files.heap)).map
          ((st.move st.ioLock i (.answered request.operation answer)).served i message
            (some (request,answer)) store)
    | _ => none
  | .throw i =>
    match st.turn i with
    | .answered _ .thrown => some (st.move st.ioLock i .outside)
    | _ => none
  | .finalizeSignalling i =>
    match st.turn i with
    | .answered _ .thrown => none
    | .answered _ _ => some (st.move st.ioLock.finalizeSignalling i .signalled)
    | _ => none
  | .finalizeConsumption i =>
    if st.turn i = .signalled then some (st.move st.ioLock.finalizeConsumption i .outside) else none

def start (threads : Fin n → ServerThread) (store : σ) : Service n σ :=
  ⟨AsyncLock.create false 256,threads,fun _ => .outside,store,[]⟩

def system (threads : Fin n → ServerThread) (s₀ : σ) : System (Service n σ) (Event n) where
  init st := st = start threads s₀
  step := step files paths

-- the condition under which the sections exclude each other
def EntersAlone (st : Service n σ) (e : Event n) : Prop :=
  ∀ i message, e = .waitForSignalling i message → ∀ j other, (st.turn j).stage ≠ .working other

-- a turn that nothing interrupts
inductive Atomic : (Fin n → ServerThread) × σ → Served n → (Fin n → ServerThread) × σ → Prop
  | own {threads : Fin n → ServerThread} {s : σ} {i : Fin n} {message : Msg}
      {out : ServerThread.Outcome} (hnone : (threads i).fileRequest message = none)
      (hrun : (threads i).run message (files.disk s) = some out) :
      Atomic (threads,s) ⟨i,message,none,out.2⟩ (Function.update threads i out.1,s)
  | file {threads : Fin n → ServerThread} {s s' : σ} {i : Fin n} {message : Msg}
      {request : FileRequest} {answer : FileAnswer} {out : ServerThread.Outcome}
      (hrequest : (threads i).fileRequest message = some request)
      (hdone : FileSystem.Done files paths s request answer s')
      (hrun : (threads i).run message (files.disk s) = some out) :
      Atomic (threads,s) ⟨i,message,some (request,answer),out.2⟩
        (Function.update threads i out.1,s')

variable {files : FileSystem σ} {paths : PathFunctions} {threads : Fin n → ServerThread} {s₀ : σ}
variable {st st' : Service n σ}

-- the same steps, for the lock alone
def lock (st : Service n σ) : FileLock n := ⟨st.ioLock,fun i => (st.turn i).stage⟩

structure Inv (files : FileSystem σ) (paths : PathFunctions) (threads : Fin n → ServerThread)
    (s₀ : σ) (st : Service n σ) : Prop where
  lock : FileLock.Inv st.lock
  serial : Serial (Atomic files paths) (threads,s₀) st.log (st.threads,st.store)
  calling : ∀ i message request next, st.turn i = .calling message request next →
    (st.threads i).fileRequest message = some request ∧
      (files.operations paths).Goes st.store (FileSystem.begin paths request) next

theorem lock_stage (st : Service n σ) (i : Fin n) : st.lock.stage i = (st.turn i).stage := rfl

theorem lock_move (st : Service n σ) (ioLock : AsyncLock) (i : Fin n) (turn : FileTurn) :
    (st.move ioLock i turn).lock = st.lock.move ioLock i turn.stage := by
  simp only [lock,move,FileLock.move,FileLock.mk.injEq,true_and]
  funext j
  exact Function.apply_update (fun _ => FileTurn.stage) st.turn i turn j

theorem turn_move {ioLock : AsyncLock} {i j : Fin n} {turn : FileTurn} :
    (st.move ioLock i turn).turn j = if j = i then turn else st.turn j :=
  Function.update_apply ..

theorem inside_of_turn {i : Fin n} {turn : FileTurn} (h : st.turn i = turn)
    (hstage : turn.stage ≠ .outside) : st.lock.Inside i := by
  rw [FileLock.Inside,lock_stage,h]
  exact hstage

theorem inv_start : Inv files paths threads s₀ (start threads s₀) :=
  ⟨FileLock.inv_start,.nil,by simp [start]⟩

-- the store is the same and so are the threads
theorem Inv.moved (h : Inv files paths threads s₀ st) {ioLock : AsyncLock} {i : Fin n}
    {turn : FileTurn} (hlock : FileLock.Inv (st.lock.move ioLock i turn.stage))
    (hturn : ∀ message request next, turn = .calling message request next →
      (st.threads i).fileRequest message = some request ∧
        (files.operations paths).Goes st.store (FileSystem.begin paths request) next) :
    Inv files paths threads s₀ (st.move ioLock i turn) := by
  refine ⟨lock_move st ioLock i turn ▸ hlock,h.serial,fun j message request next hj => ?_⟩
  rw [turn_move] at hj
  split_ifs at hj with hji
  · exact hji ▸ hturn message request next hj
  · exact h.calling j message request next hj

theorem Inv.own (h : Inv files paths threads s₀ st) {i : Fin n} {message : Msg}
    (hs : step files paths st (.run i message) = some st') : Inv files paths threads s₀ st' := by
  simp only [step] at hs
  split_ifs at hs with hguard
  obtain ⟨hout,hnone⟩ := hguard
  obtain ⟨out,hrun,rfl⟩ := Option.map_eq_some_iff.mp hs
  have hfiles := (ServerThread.run_of_no_request hnone (files.disk st.store) _).trans hrun
  refine ⟨h.lock,h.serial.snoc (.own hnone hfiles),fun j other request next hj => ?_⟩
  have hne : j ≠ i := by
    rintro rfl
    exact absurd (hout.symm.trans hj) (by simp)
  have hthread : (st.served i message none st.store out).threads j = st.threads j :=
    Function.update_of_ne hne ..
  rw [hthread]
  exact h.calling j other request next hj

theorem Inv.enter (h : Inv files paths threads s₀ st) {i : Fin n} {message : Msg}
    (halone : EntersAlone st (.waitForSignalling i message))
    (hs : step files paths st (.waitForSignalling i message) = some st') :
    Inv files paths threads s₀ st' := by
  simp only [step] at hs
  split_ifs at hs with hout
  obtain ⟨request,hrequest,hs⟩ := Option.bind_eq_some_iff.mp hs
  obtain ⟨ioLock,hwait,rfl⟩ := Option.map_eq_some_iff.mp hs
  have hstep : FileLock.step st.lock (.waitForSignalling i request.operation) =
      some (st.lock.move ioLock i (.working request.operation)) := by
    have hstage : st.lock.stage i = .outside := by rw [lock_stage,hout,FileTurn.stage]
    rw [FileLock.step,if_pos hstage]
    exact Option.map_eq_some_iff.mpr ⟨ioLock,hwait,rfl⟩
  have hlock := h.lock.step_iff hstep
  refine h.moved (hlock.2 (hlock.1.mpr fun j operation _ => halone i message rfl)) ?_
  intro other asked next hnext
  cases hnext
  exact ⟨hrequest,.refl⟩

theorem Inv.call (h : Inv files paths threads s₀ st) {i : Fin n}
    (hs : step files paths st (.call i) = some st') : Inv files paths threads s₀ st' := by
  simp only [step] at hs
  cases hturn : st.turn i with
  | calling message request next =>
    obtain ⟨hrequest,hgoes⟩ := h.calling i message request next hturn
    have hinside := inside_of_turn hturn (by simp [FileTurn.stage])
    have hsame : FileLock.Inv (st.lock.move st.ioLock i (.working request.operation)) :=
      h.lock.move hinside (by simp)
    simp only [hturn] at hs
    match hcall : files.call paths st.store next with
    | none => simp [hcall] at hs
    | some (.inl following) =>
      simp only [hcall,Option.some.injEq] at hs
      subst hs
      refine h.moved hsame fun _ _ _ he => ?_
      cases he
      exact ⟨hrequest,hgoes.tail hcall⟩
    | some (.inr (answer,store)) =>
      simp only [hcall] at hs
      obtain ⟨out,hrun,rfl⟩ := Option.map_eq_some_iff.mp hs
      have hdone : FileSystem.Done files paths st.store request answer store :=
        FileSystem.done_of_performs ⟨next,hgoes,hcall⟩
      have hfiles := (ServerThread.run_of_done hrequest hdone).trans hrun
      refine ⟨?_,h.serial.snoc (.file hrequest hdone hfiles),fun j other asked following hj => ?_⟩
      · exact lock_move st st.ioLock i (.answered request.operation answer) ▸ hsame
      · -- a second caller would stand inside beside the one that has just ended
        rw [served,turn_move] at hj
        split_ifs at hj with hji
        exact absurd (h.lock.alone j i (inside_of_turn hj (by simp [FileTurn.stage])) hinside) hji
  | _ => simp [hturn] at hs

theorem Inv.leave (h : Inv files paths threads s₀ st) {i : Fin n} {turn : FileTurn}
    {ioLock : AsyncLock} (hturn : (st.turn i).stage ≠ .outside)
    (hnext : ∀ message request next, turn ≠ .calling message request next)
    (hflag : turn.stage = .signalled → ioLock.isConsumptionState = true) :
    Inv files paths threads s₀ (st.move ioLock i turn) :=
  h.moved (h.lock.move (inside_of_turn rfl hturn) hflag)
    fun message request next he => absurd he (hnext message request next)

theorem Inv.step (h : Inv files paths threads s₀ st) {e : Event n} (halone : EntersAlone st e)
    (hs : step files paths st e = some st') : Inv files paths threads s₀ st' := by
  cases e with
  | run i message => exact h.own hs
  | waitForSignalling i message => exact h.enter halone hs
  | call i => exact h.call hs
  | throw i =>
    simp only [Service.step] at hs
    split at hs
    · rename_i hturn
      obtain rfl := Option.some.inj hs
      exact h.leave (by simp [hturn,FileTurn.stage]) (by simp) (by simp [FileTurn.stage])
    · cases hs
  | finalizeSignalling i =>
    simp only [Service.step] at hs
    split at hs
    · cases hs
    · rename_i hturn
      obtain rfl := Option.some.inj hs
      exact h.leave (by simp [hturn,FileTurn.stage]) (by simp) fun _ => rfl
    · cases hs
  | finalizeConsumption i =>
    simp only [Service.step] at hs
    split_ifs at hs with hturn
    obtain rfl := Option.some.inj hs
    exact h.leave (by simp [hturn,FileTurn.stage]) (by simp) (by simp [FileTurn.stage])

theorem Inv.run {events : List (Event n)} {final : Service n σ}
    (halone : ((system files paths threads s₀).Along fun st e _ => EntersAlone st e)
      (start threads s₀) events)
    (hrun : (system files paths threads s₀).run (start threads s₀) events = some final) :
    Inv files paths threads s₀ final := by
  refine (system files paths threads s₀).along_final inv_start ?_ hrun
  exact (system files paths threads s₀).along_of_invariant
    (fun _ _ _ hi hc hs => ⟨hi.step hc hs,hi.step hc hs⟩) inv_start halone

theorem turns_are_atomic {events : List (Event n)} {final : Service n σ}
    (halone : ((system files paths threads s₀).Along fun st e _ => EntersAlone st e)
      (start threads s₀) events)
    (hrun : (system files paths threads s₀).run (start threads s₀) events = some final) :
    Serial (Atomic files paths) (threads,s₀) final.log (final.threads,final.store) :=
  (Inv.run halone hrun).serial

def renamedAndUploaded : Fin 2 → ServerThread
  | 0 => { ServerThread.create 0 with
      currentState := .renaming
      filename := ServerThread.filesDirectory ++ [97]
      sequenceNumber := 3 }
  | 1 => { ServerThread.create 1 with
      currentState := .receiving
      filename := [98]
      sequenceNumber := 2
      receiver := some { (Receiver.create 1 1).startNewPayload 2 with
        completedSet := [[65]]
        totalPayloadSize := 1
        windowOrigin := 1 } }

def renameAndUpload : List (Event 2) :=
  [.waitForSignalling 0 ⟨0,0,.resp,2,4,Buffer.copyIn [98,0]⟩,.call 0,.call 0,
    .finalizeSignalling 0,.finalizeConsumption 0,
    .waitForSignalling 1 ⟨1,1,.respErr,8,3,Buffer.copyIn (eofText ++ [0] ++ encodeInt 1)⟩,
    .call 1,.call 1,.call 1]

def alone (st : Service n σ) : Event n → Bool
  | .waitForSignalling _ _ => (List.finRange n).all fun j =>
    match (st.turn j).stage with
    | .working _ => false
    | _ => true
  | _ => true

theorem entersAlone_of_alone {e : Event n} (h : alone st e = true) : EntersAlone st e := by
  rintro i message rfl j other hj
  have hall := List.all_eq_true.mp h j (List.mem_finRange j)
  simp [hj] at hall

theorem turns_are_atomic_two_threads : ∃ final : Service 2 (List (List UInt8 × List UInt8)),
    final.log.length = 2 ∧
    Serial (Atomic FileSystem.flat .lastDot) (renamedAndUploaded,FileSystem.oneFile) final.log
      (final.threads,final.store) := by
  have halone : (system FileSystem.flat .lastDot renamedAndUploaded FileSystem.oneFile).check alone
      (start renamedAndUploaded FileSystem.oneFile) renameAndUpload = true := by decide
  have hrun : ((system FileSystem.flat .lastDot renamedAndUploaded FileSystem.oneFile).run
      (start renamedAndUploaded FileSystem.oneFile) renameAndUpload).any (fun final =>
        final.log.length = 2) = true := by decide
  obtain ⟨final,hfinal,hlength⟩ := (Option.any_eq_true _ _).mp hrun
  refine ⟨final,of_decide_eq_true hlength,?_⟩
  exact turns_are_atomic ((system FileSystem.flat .lastDot renamedAndUploaded FileSystem.oneFile).along_of_check
    (fun _ _ h => entersAlone_of_alone h) halone) hfinal

end Service
end FtpOverUdp
