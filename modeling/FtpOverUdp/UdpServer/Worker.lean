import FtpOverUdp.UdpServer.HandOff

namespace FtpOverUdp

open Library

-- a thread together with its slot, one turn of `outerSync` at a time
inductive WorkerPhase
  | resting
  | idle
  | signalled (message : Msg)
  | busy (message : Msg)
  | terminating
  | left (full : Bool)
  deriving DecidableEq

structure Worker where
  thread : ServerThread
  phase : WorkerPhase

namespace Worker

def create (serverId : ℤ) : Worker := ⟨ServerThread.create serverId,.busy FtpServer.emptyMsg⟩

def accept (self : Worker) (message : Msg) : Option Worker :=
  match self.phase with
  | .idle => some { self with phase := .signalled message }
  | .left false => some { self with phase := .left true }
  | _ => none

def step (self : Worker) (isActive : Bool) (disk : Disk) : Option (Worker × List Effect) :=
  match self.phase with
  | .resting => some ({ self with phase := .idle },[])
  | .signalled message =>
    some ({ self with phase := if isActive then .busy message else .terminating },[])
  | .busy message => (self.thread.run message disk).map fun out => (⟨out.1,.resting⟩,out.2)
  | .terminating => some ({ self with phase := .left false },[])
  | .idle | .left _ => none

end Worker

namespace HandOff

def phase (st : HandOff) : WorkerPhase :=
  match st.thread with
  | .processing => .busy st.currentMsg
  | .finalizeConsumption => .resting
  | .waitForConsumption =>
    if st.outerSync.isConsumptionState then .signalled st.currentMsg else .idle
  | .testing => .signalled st.currentMsg
  | .terminating => .terminating
  | .left => .left st.outerSync.isConsumptionState

def view (st : HandOff) : Worker := ⟨st.worker,st.phase⟩

structure Disciplined (st : HandOff) : Prop where
  turn : st.outerSync.isConsumptionState = false →
    st.thread = .waitForConsumption ∨ st.thread = .left
  entered : (∃ message final, st.server = .copying message final) ∨
    (∃ final, st.server = .finalizeSignalling final) ∨ st.server = .erasing →
      st.outerSync.isConsumptionState = false

variable {st st' : HandOff}

theorem disciplined_start (areServerIdsReused : Bool) (serverId : ℤ) (emptyMsg : Msg) :
    Disciplined (start areServerIdsReused serverId emptyMsg) :=
  ⟨by simp [start,AsyncLock.create],by simp [start]⟩

theorem Disciplined.threadStep (h : Disciplined st) {disk : Disk}
    (hs : st.threadStep disk = some st') : Disciplined st' ∧
      (st'.view = st.view ∨ ∃ effects, st.view.step st.isActive disk = some (st'.view,effects)) := by
  cases hstage : st.thread with
  | processing =>
    rw [HandOff.threadStep,hstage] at hs
    obtain ⟨out,hrun,rfl⟩ := Option.map_eq_some_iff.mp hs
    refine ⟨⟨fun hf => ?_,h.entered⟩,.inr ⟨out.2,?_⟩⟩
    · have := h.turn hf
      simp [hstage] at this
    · simp only [view,phase,hstage,Worker.step,hrun,Option.map_some]
  | finalizeConsumption =>
    rw [HandOff.threadStep,hstage] at hs
    obtain rfl := Option.some.inj hs
    exact ⟨⟨fun _ => .inl rfl,fun _ => rfl⟩,.inr ⟨[],by
      simp [view,phase,hstage,Worker.step,AsyncLock.finalizeConsumption]⟩⟩
  | waitForConsumption =>
    obtain ⟨hflag,rfl⟩ := threadStep_of_waiting hs hstage
    exact ⟨⟨fun hf => absurd (hflag.symm.trans hf) (by simp),h.entered⟩,
      .inl (by simp [view,phase,hstage,hflag])⟩
  | testing =>
    obtain rfl := threadStep_of_testing hs hstage
    refine ⟨⟨fun hf => ?_,h.entered⟩,.inr ⟨[],?_⟩⟩
    · have := h.turn hf
      simp [hstage] at this
    · cases hactive : st.isActive <;> simp [view,phase,hstage,Worker.step]
  | terminating =>
    obtain rfl := threadStep_of_terminating hs hstage
    exact ⟨⟨fun _ => .inr rfl,fun _ => rfl⟩,.inr ⟨[],by
      simp [view,phase,hstage,Worker.step,AsyncLock.finalizeConsumption]⟩⟩
  | left => simp [HandOff.threadStep,hstage] at hs

theorem accept_of_turn (hturn : st.thread = .waitForConsumption ∨ st.thread = .left)
    (hflag : st.outerSync.isConsumptionState = false) (server : ServerStage) :
    st.view.accept st.currentMsg = some (view { st with
      outerSync := st.outerSync.finalizeSignalling
      server := server }) := by
  rcases hturn with hstage | hstage <;>
    simp [view,phase,hstage,hflag,Worker.accept,AsyncLock.finalizeSignalling]

theorem Disciplined.serverStep (h : Disciplined st) (hs : st.serverStep = some st') :
    Disciplined st' ∧ (st'.view = st.view ∨ st.view.accept st.currentMsg = some st'.view) := by
  cases serverMove_of_serverStep hs with
  | deactivate => exact ⟨⟨h.turn,by simp⟩,.inl rfl⟩
  | enter _ _ _ hflag | reap _ hflag => exact ⟨⟨h.turn,fun _ => hflag⟩,.inl rfl⟩
  | copy message final hstage =>
    have hflag := h.entered (.inl ⟨message,final,hstage⟩)
    refine ⟨⟨h.turn,fun _ => hflag⟩,.inl ?_⟩
    rcases h.turn hflag with ht | ht <;> simp [view,phase,copy,ht,hflag]
  | signal final hstage =>
    have hflag := h.entered (.inr (.inl ⟨final,hstage⟩))
    refine ⟨⟨by simp [AsyncLock.finalizeSignalling],fun he => ?_⟩,
      .inr (accept_of_turn (h.turn hflag) hflag _)⟩
    cases final <;> cases hr : st.areServerIdsReused <;> simp [hr] at he
  | erase hstage =>
    have hflag := h.entered (.inr (.inr hstage))
    exact ⟨⟨by simp [AsyncLock.finalizeSignalling],by simp⟩,
      .inr (accept_of_turn (h.turn hflag) hflag _)⟩

theorem Disciplined.step (h : Disciplined st) {e : Event} (hs : st.step e = some st') :
    Disciplined st' ∧ (st'.view = st.view ∨
      (∃ disk effects, st.view.step st.isActive disk = some (st'.view,effects)) ∨
        st.view.accept st.currentMsg = some st'.view) := by
  cases e with
  | receive | retire =>
    simp only [HandOff.step] at hs
    split_ifs at hs
    exact Option.some.inj hs ▸ ⟨⟨h.turn,by simp⟩,.inl rfl⟩
  | serverStep => exact (h.serverStep hs).imp id fun hv => hv.imp id .inr
  | threadStep disk =>
    refine (h.threadStep hs).imp id fun hv => hv.imp id fun hw => .inl ?_
    obtain ⟨effects,he⟩ := hw
    exact ⟨disk,effects,he⟩

end HandOff
end FtpOverUdp
