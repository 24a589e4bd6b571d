import FtpOverUdp.Session.ServerSteps
import FtpOverUdp.Wire.Bounds

namespace FtpOverUdp

open Library

def Msg.FitsBuffer (msg : Msg) : Prop := 0 ≤ msg.length ∧ msg.length ≤ bufferLength

namespace ServerThread

variable {self : ServerThread} {currentMsg : Msg} {disk : Disk} {out : Outcome}

def NumbersInRange (self : ServerThread) (currentMsg : Msg) (disk : Disk) : Prop :=
  match self.currentState with
  | .waitingForRequest =>
    (currentMsg.type = .getList → ∀ contents, getDirectoryContents disk = some contents →
      Sender.FirstNumber currentMsg.sequenceNumber contents) ∧
    (currentMsg.type = .getFile → ∀ contents, getFileContents currentMsg disk = some contents →
      Sender.FirstNumber currentMsg.sequenceNumber contents)
  | .sending => currentMsg.type = .ack →
    0 ≤ currentMsg.sequenceNumber ∧ currentMsg.sequenceNumber < sequenceRange
  | .receiving => currentMsg.type = .resp → ∀ receiver, self.receiver = some receiver →
    receiver.Takes currentMsg.sequenceNumber
  | _ => True

def Guarded (self : ServerThread) : Prop := ∀ sender, self.sender = some sender → sender.Guarded

theorem startSender_inBounds {contents : List UInt8}
    (hfirst : Sender.FirstNumber currentMsg.sequenceNumber contents) :
    AllInBounds (self.startSenderAccesses currentMsg contents) := by
  unfold startSenderAccesses
  split
  · rename_i loaded hload
    obtain ⟨sender,-,hload⟩ := Option.bind_eq_some_iff.mp hload
    have hloads := Sender.loads_initializePayload hload
    exact (hloads.guarded hfirst).load_inBounds hloads.origin
  · exact allInBounds_nil

section Turn

variable (hguarded : self.Guarded) (hnum : self.NumbersInRange currentMsg disk)
include hguarded hnum

theorem run_guarded (hrun : self.run currentMsg disk = some out) : out.1.Guarded := by
  intro s hs
  cases run_sender hrun with
  | kept hsame => exact hguarded s (hsame ▸ hs)
  | created hnew =>
    obtain rfl := Option.some.inj (hnew.symm.trans hs)
    exact Sender.guarded_create ..
  | loaded sender sender' contents hstate hrequest hold hload hnew =>
    obtain rfl := Option.some.inj (hnew.symm.trans hs)
    rw [NumbersInRange,hstate] at hnum
    have hfirst : Sender.FirstNumber currentMsg.sequenceNumber contents := by
      rcases hrequest with ⟨htype,hcontents⟩ | ⟨htype,hcontents⟩
      · exact hnum.1 htype contents hcontents
      · exact hnum.2 htype contents hcontents
    obtain ⟨started,hloads,hsend⟩ := Sender.load_cases hload
    exact (hloads.guarded hfirst).advance hsend
  | acked sender sender' _ _ hold hack hnew =>
    obtain rfl := Option.some.inj (hnew.symm.trans hs)
    exact (hguarded sender hold).advance (Sender.advances_processAck hack)

omit hguarded in
theorem requestAccesses_inBounds (hfits : currentMsg.FitsBuffer)
    (hstate : self.currentState = .waitingForRequest) :
    AllInBounds (self.requestAccesses currentMsg disk) := by
  rw [NumbersInRange,hstate] at hnum
  have hcopy {rest : List Access} (h : AllInBounds rest) :
      AllInBounds (.copy currentMsg.length bufferLength :: rest) :=
    allInBounds_cons (a := .copy currentMsg.length bufferLength) hfits h
  unfold requestAccesses
  split
  · exact hcopy allInBounds_nil
  · exact hcopy allInBounds_nil
  · rename_i htype
    split
    · rename_i contents hcontents
      exact startSender_inBounds (hnum.1 htype contents hcontents)
    · exact allInBounds_nil
  · rename_i htype
    apply hcopy
    split
    · rename_i contents hcontents
      exact startSender_inBounds (hnum.2 htype contents hcontents)
    · exact allInBounds_nil
  · exact allInBounds_nil

theorem accesses_inBounds (hfits : currentMsg.FitsBuffer) :
    AllInBounds (self.accesses currentMsg disk) := by
  unfold accesses
  cases hstate : self.currentState with
  | startingHandshake =>
    exact allInBounds_cons (a := .copy currentMsg.length bufferLength) hfits allInBounds_nil
  | waitingForRequest => exact requestAccesses_inBounds hnum hfits hstate
  | sending =>
    rw [NumbersInRange,hstate] at hnum
    dsimp only
    split
    · rename_i sender htype hsender
      exact (hguarded sender hsender).processAck_inBounds (hnum htype)
    · exact allInBounds_nil
  | receiving =>
    rw [NumbersInRange,hstate] at hnum
    dsimp only
    split
    · rename_i receiver hreceiver
      split_ifs with hmsg
      · rcases hmsg with htype | htext
        · exact (hnum htype receiver hreceiver).inBounds hfits
        · exact Receiver.eofAccesses_inBounds receiver htext
      · exact allInBounds_nil
    · exact allInBounds_nil
  | _ => exact allInBounds_nil

end Turn
end ServerThread

namespace Intake

inductive Event
  | arrive (d : ReceiveBuffer)
  | receive (drawn : ℤ)
  | dispatch
  | retire
  | respawn (drawn : ℤ)
  | work (serverId : ℤ) (disk : Disk)

def arrive (st : Network) (d : ReceiveBuffer) : Option Network :=
  (FtpServer.getMessage d).map fun msg =>
    let down := Function.update st.path.down .two (st.path.down .two ++ [⟨msg,none,false⟩])
    { st with path := { st.path with down := down } }

-- the server's side of the network, fed with datagrams from anywhere
def step (st : Network) : Event → Option Network
  | .arrive d => arrive st d
  | .receive drawn => st.receive drawn
  | .dispatch => st.dispatch
  | .retire => st.retire
  | .respawn drawn => st.respawn drawn
  | .work serverId disk => st.work serverId disk

def system : System Network Event where
  init st := ∃ areServerIdsReused, st = Network.start areServerIdsReused
  step := step

def accesses (st : Network) : Event → List Access
  | .arrive d => FtpServer.getMessageAccesses d
  | .work serverId disk =>
    match st.workers serverId with
    | some ⟨thread,.busy message⟩ => thread.accesses message disk
    | _ => []
  | _ => []

def FieldsInRange (st : Network) : Event → Prop
  | .arrive d => msgHdrSize ≤ d.received.length ∧ 0 ≤ d.length ∧ d.length ≤ bufferLength ∧
    msgHdrSize + d.length ≤ d.received.length
  | .work serverId disk => ∀ worker message, st.workers serverId = some worker →
    worker.phase = .busy message → worker.thread.NumbersInRange message disk
  | _ => True

def held : DispatcherStage → List Parcel
  | .ready => []
  | .dispatching _ parcel | .retiring parcel | .joining parcel => [parcel]

structure Works (w : Worker) : Prop where
  message : ∀ m, w.phase = .signalled m ∨ w.phase = .busy m → m.FitsBuffer
  guarded : w.thread.Guarded

structure Sized (st : Network) : Prop where
  arrived : ∀ p ∈ st.path.down .two, p.msg.FitsBuffer
  held : ∀ p ∈ held st.stage, p.msg.FitsBuffer
  workers : ∀ S w, st.workers S = some w → Works w

variable {st st' : Network}

theorem held_next (target : ℤ) (p : Parcel) : ∀ q ∈ held (Network.next target p), q = p := by
  unfold Network.next
  split_ifs <;> simp [held]

theorem works_create (serverId : ℤ) : Works (Worker.create serverId) := by
  constructor
  · intro m hm
    obtain rfl : FtpServer.emptyMsg = m := by simpa [Worker.create] using hm
    exact ⟨le_rfl,by decide⟩
  · intro sender hs
    cases hs

theorem forall_assign {workers : Table ℤ Worker} {S : ℤ} {w : Worker} (hw : Works w)
    (hold : ∀ S w, workers S = some w → Works w) :
    ∀ S' w', workers.assign S w S' = some w' → Works w' := by
  intro S' w' hw'
  rw [Table.assign_apply] at hw'
  split_ifs at hw'
  · exact Option.some.inj hw' ▸ hw
  · exact hold S' w' hw'

theorem Sized.arrive {d : ReceiveBuffer} (h : Sized st) (hs : arrive st d = some st') : Sized st' := by
  obtain ⟨msg,hget,rfl⟩ := Option.map_eq_some_iff.mp hs
  refine ⟨fun p hp => ?_,h.held,h.workers⟩
  simp only [Function.update_self,List.mem_append,List.mem_singleton] at hp
  rcases hp with hp | rfl
  · exact h.arrived p hp
  · exact FtpServer.getMessage_length hget

theorem Sized.receive {drawn : ℤ} (h : Sized st) (hs : st.receive drawn = some st') :
    Sized st' := by
  obtain ⟨p,path,hr,hcases⟩ := Network.receive_cases hs
  obtain ⟨hdown,-⟩ := Path.take_spec hr.take
  have hp : p.msg.FitsBuffer := h.arrived p (by rw [hdown]; exact List.mem_cons_self)
  have hrest : ∀ q ∈ st'.path.down .two, q.msg.FitsBuffer := by
    rw [hr.path]
    exact fun q hq => h.arrived q (by rw [hdown]; exact List.mem_cons_of_mem p hq)
  rcases hcases with ⟨-,-,hworkers,hstage⟩ | ⟨-,-,hworkers,hstage⟩ | ⟨_,-,-,-,hworkers,hstage⟩
  · refine ⟨hrest,fun q hq => ?_,?_⟩
    · rw [hstage] at hq
      exact held_next _ p q hq ▸ hp
    · rw [hworkers]
      exact forall_assign (works_create drawn) h.workers
  · refine ⟨hrest,fun q hq => ?_,hworkers ▸ h.workers⟩
    rw [hstage] at hq
    exact List.mem_singleton.mp hq ▸ hp
  · refine ⟨hrest,fun q hq => ?_,hworkers ▸ h.workers⟩
    rw [hstage] at hq
    exact held_next _ p q hq ▸ hp

theorem works_accept {w w' : Worker} {m : Msg} (h : Works w) (hm : m.FitsBuffer)
    (ha : w.accept m = some w') : Works w' := by
  unfold Worker.accept at ha
  split at ha
  · obtain rfl := Option.some.inj ha
    refine ⟨fun m' hm' => ?_,h.guarded⟩
    obtain rfl : m = m' := by simpa using hm'
    exact hm
  · obtain rfl := Option.some.inj ha
    exact ⟨fun m' hm' => by simp at hm',h.guarded⟩
  · cases ha

theorem Sized.handOver {S : ℤ} {p : Parcel} {stage : DispatcherStage} (h : Sized st)
    (hp : p.msg.FitsBuffer) (hstage : ∀ q ∈ Intake.held stage, q = p)
    (hs : st.handOver S p stage = some st') : Sized st' := by
  obtain ⟨w,hw,hs⟩ := Option.bind_eq_some_iff.mp hs
  obtain ⟨w',ha,rfl⟩ := Option.map_eq_some_iff.mp hs
  have hmsg : Msg.FitsBuffer { p.msg with serverId := S } := hp
  refine ⟨h.arrived,fun q hq => hstage q hq ▸ hp,?_⟩
  exact forall_assign (works_accept (h.workers S w hw) hmsg ha) h.workers

theorem Sized.respawn {drawn : ℤ} (h : Sized st) (hs : st.respawn drawn = some st') :
    Sized st' := by
  obtain ⟨p,hstage,-,hnext,he⟩ := Network.respawn_cases hs
  have hp : p.msg.FitsBuffer := h.held p (by simp [hstage,Intake.held])
  refine ⟨?_,fun q hq => ?_,?_⟩
  · rw [he]
    exact h.arrived
  · rw [hnext] at hq
    exact held_next _ p q hq ▸ hp
  · rw [he]
    exact forall_assign (works_create drawn) h.workers

theorem works_step {w stepped : Worker} {isActive : Bool} {disk : Disk} {effects : List Effect}
    (h : Works w) (hnum : ∀ m, w.phase = .busy m → w.thread.NumbersInRange m disk)
    (hs : w.step isActive disk = some (stepped,effects)) : Works stepped := by
  unfold Worker.step at hs
  split at hs
  · obtain ⟨rfl,-⟩ := Prod.mk.inj (Option.some.inj hs)
    exact ⟨by simp,h.guarded⟩
  · rename_i m hphase
    obtain ⟨rfl,-⟩ := Prod.mk.inj (Option.some.inj hs)
    refine ⟨fun m' hm' => ?_,h.guarded⟩
    dsimp only at hm'
    split_ifs at hm'
    · obtain rfl : m = m' := by simpa using hm'
      exact h.message m (Or.inl hphase)
    · simp at hm'
  · rename_i m hphase
    obtain ⟨out,hrun,he⟩ := Option.map_eq_some_iff.mp hs
    obtain ⟨rfl,-⟩ := Prod.mk.inj he
    exact ⟨by simp,ServerThread.run_guarded h.guarded (hnum m hphase) hrun⟩
  · obtain ⟨rfl,-⟩ := Prod.mk.inj (Option.some.inj hs)
    exact ⟨by simp,h.guarded⟩
  · cases hs
  · cases hs

theorem down_sendAll (path : Path Parcel) (parcels : List Parcel) :
    (Network.sendAll path parcels).down = path.down := by
  induction parcels generalizing path with
  | nil => rfl
  | cons p parcels ih => exact ih _

theorem Sized.work {S : ℤ} {disk : Disk} (h : Sized st)
    (hnum : FieldsInRange st (.work S disk)) (hs : st.work S disk = some st') : Sized st' := by
  obtain ⟨w,stepped,effects,hw,hstep,rfl⟩ := Network.work_cases hs
  refine ⟨?_,h.held,?_⟩
  · dsimp only
    rw [down_sendAll]
    exact h.arrived
  · exact forall_assign (works_step (h.workers S w hw) (fun m => hnum w m hw) hstep) h.workers

theorem Sized.step {e : Event} (h : Sized st) (hnum : FieldsInRange st e)
    (hs : step st e = some st') : Sized st' := by
  cases e with
  | arrive => exact h.arrive hs
  | receive => exact h.receive hs
  | dispatch =>
    obtain ⟨S,p,hstage,hover⟩ := Network.dispatch_cases hs
    exact h.handOver (h.held p (by simp [hstage,Intake.held])) (by simp [Intake.held]) hover
  | retire =>
    obtain ⟨p,hstage,hover⟩ := Network.retire_cases hs
    refine h.handOver (h.held p (by simp [hstage,Intake.held])) (fun q hq => ?_) hover
    exact List.mem_singleton.mp hq
  | respawn => exact h.respawn hs
  | work => exact h.work hnum hs

theorem sized_start (areServerIdsReused : Bool) : Sized (Network.start areServerIdsReused) := by
  constructor
  · intro p hp
    cases hp
  · intro p hp
    cases hp
  · intro S w hw
    cases hw

theorem wire_fields_stay_in_bounds {e : Event} (h : system.ReachableUnder FieldsInRange st)
    (hnum : FieldsInRange st e) : AllInBounds (accesses st e) := by
  have hsized : Sized st := by
    refine system.reachableUnder_invariant ?_ (fun _ _ _ hi hc hs => hi.step hc hs) h
    rintro _ ⟨areServerIdsReused,rfl⟩
    exact sized_start areServerIdsReused
  cases e with
  | arrive d =>
    obtain ⟨hheader,hlo,hhi,hfits⟩ := hnum
    intro a ha
    simp only [accesses,FtpServer.getMessageAccesses,List.mem_cons,List.not_mem_nil,or_false] at ha
    rcases ha with rfl | rfl | rfl
    · exact ⟨by decide,by exact_mod_cast hheader⟩
    · exact ⟨hlo,by simp only [msgHdrSize] at hfits hheader ⊢; omega⟩
    · exact ⟨hlo,hhi⟩
  | work S disk =>
    dsimp only [accesses]
    split
    · rename_i thread message hw
      have hworks := hsized.workers S _ hw
      exact ServerThread.accesses_inBounds hworks.guarded (hnum _ message hw rfl)
        (hworks.message message (Or.inr rfl))
    · exact allInBounds_nil
  | _ => exact allInBounds_nil

-- the first HANDSHAKE of client 1, whose four bytes of data are its count
def handshake (length : ℤ) : ReceiveBuffer where
  received := [1,nullServerId,1,length,0,1].flatMap encodeInt
  stale := List.replicate 488 0
  fits := by
    rw [List.length_replicate]
    rfl

def booting (st : Network) : Event → Bool
  | .arrive d => decide (msgHdrSize ≤ d.received.length ∧ 0 ≤ d.length ∧ d.length ≤ bufferLength ∧
      msgHdrSize + d.length ≤ d.received.length)
  | .work serverId _ => (st.workers serverId).all fun w =>
      decide (w.thread.currentState = .initializing ∨ w.thread.currentState = .startingHandshake)
  | _ => true

theorem fieldsInRange_of_booting (st : Network) (e : Event) (h : booting st e = true) :
    FieldsInRange st e := by
  cases e with
  | arrive =>
    simp only [booting,decide_eq_true_eq] at h
    exact h
  | work S disk =>
    intro w m hw _
    rw [booting,hw] at h
    rcases of_decide_eq_true h with hstate | hstate
    all_goals
      rw [ServerThread.NumbersInRange,hstate]
      trivial
  | _ => trivial

theorem wire_fields_stay_in_bounds_first_handshake : ∃ st : Network,
    accesses st (.work 3 .empty) = [.copy 4 bufferLength] ∧
      AllInBounds (accesses st (.work 3 .empty)) := by
  let events : List Event := [.arrive (handshake 4),.receive 3,.work 3 .empty,
    .work 3 .empty,.dispatch,.work 3 .empty]
  have hrun : (system.run (Network.start true) events).any (fun st =>
      decide (accesses st (.work 3 .empty) = [.copy 4 bufferLength]) &&
        booting st (.work 3 .empty)) = true := by
    decide +kernel
  have hcheck : system.check booting (Network.start true) events = true := by decide +kernel
  obtain ⟨st,hst,hend⟩ := (Option.any_eq_true _ _).mp hrun
  simp only [Bool.and_eq_true,decide_eq_true_eq] at hend
  exact ⟨st,hend.1,wire_fields_stay_in_bounds (system.reachableUnder_of_run ⟨true,rfl⟩
    (system.along_of_check fieldsInRange_of_booting hcheck) hst)
      (fieldsInRange_of_booting st _ hend.2)⟩

theorem overlong_handshake_leaves_its_buffer : ¬∀ st e, system.Reachable st →
    AllInBounds (accesses st e) := by
  intro h
  have hrun : system.run (Network.start true) [] = some (Network.start true) := rfl
  have hstart : system.Reachable (Network.start true) := system.reachable_of_run ⟨true,rfl⟩ hrun
  have hbound := h _ (.arrive (handshake 300)) hstart (.copy 300 bufferLength)
    (by decide +kernel)
  exact absurd hbound.2 (by decide)

end Intake
end FtpOverUdp
