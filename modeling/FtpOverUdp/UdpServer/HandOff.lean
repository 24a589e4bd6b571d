import FtpOverUdp.Common.AsyncLock
import FtpOverUdp.UdpServer.FtpServer
import FtpOverUdp.UdpServer.RunSpec

namespace FtpOverUdp

open Library

-- where FtpServer stands between two of its steps; `final` marks the HANDSHAKE that retires
inductive ServerStage
  | receiving
  | deactivating (message : Msg)
  | waitForSignalling (message : Msg) (final : Bool)
  | copying (message : Msg) (final : Bool)
  | finalizeSignalling (final : Bool)
  | releasing
  | erasing
  | done
  deriving DecidableEq

def ServerStage.retired : ServerStage → Bool
  | .waitForSignalling _ final | .copying _ final | .finalizeSignalling final => final
  | .releasing | .erasing | .done => true
  | .receiving | .deactivating _ => false

inductive ThreadStage
  | processing
  | finalizeConsumption
  | waitForConsumption
  | testing
  | terminating
  | left
  deriving DecidableEq

-- `dispatched` lists what was copied before the retiring HANDSHAKE, `processed` what `run` took up
structure HandOff where
  areServerIdsReused : Bool
  outerSync : AsyncLock
  currentMsg : Msg
  isActive : Bool
  server : ServerStage
  thread : ThreadStage
  worker : ServerThread
  dispatched : List Msg
  processed : List Msg

namespace HandOff

inductive Event
  | receive (message : Msg)
  | retire (message : Msg)
  | serverStep
  | threadStep (disk : Disk)

def start (areServerIdsReused : Bool) (serverId : ℤ) (emptyMsg : Msg) : HandOff where
  areServerIdsReused := areServerIdsReused
  outerSync := AsyncLock.create true serverId
  currentMsg := emptyMsg
  isActive := true
  server := .receiving
  thread := .processing
  worker := ServerThread.create serverId
  dispatched := []
  processed := []

variable (st : HandOff)

def copy (message : Msg) (final : Bool) : HandOff :=
  let stamped := { message with serverId := st.worker.serverId }
  { st with
    currentMsg := stamped
    server := .finalizeSignalling final
    dispatched := if final then st.dispatched else st.dispatched ++ [stamped] }

def serverStep : Option HandOff :=
  match st.server with
  | .receiving => none
  | .deactivating message =>
    some { st with
      isActive := false
      server := .waitForSignalling message true }
  | .waitForSignalling message final =>
    st.outerSync.waitForSignalling.map fun outerSync =>
      { st with
        outerSync := outerSync
        server := .copying message final }
  | .copying message final => some (st.copy message final)
  | .finalizeSignalling final =>
    some { st with
      outerSync := st.outerSync.finalizeSignalling
      server := if final then (if st.areServerIdsReused then .releasing else .done) else .receiving }
  | .releasing =>
    st.outerSync.waitForSignalling.map fun outerSync =>
      { st with
        outerSync := outerSync
        server := .erasing }
  | .erasing =>
    some { st with
      outerSync := st.outerSync.finalizeSignalling
      server := .done }
  | .done => none

-- the first turn of `run` looks at no message
def process (disk : Disk) : Option HandOff :=
  (st.worker.run st.currentMsg disk).map fun out =>
    { st with
      thread := .finalizeConsumption
      worker := out.1
      processed := if st.worker.currentState = .initializing then st.processed
        else st.processed ++ [st.currentMsg] }

def threadStep (disk : Disk) : Option HandOff :=
  match st.thread with
  | .processing => st.process disk
  | .finalizeConsumption =>
    some { st with
      outerSync := st.outerSync.finalizeConsumption
      thread := .waitForConsumption }
  | .waitForConsumption =>
    st.outerSync.waitForConsumption.map fun outerSync =>
      { st with
        outerSync := outerSync
        thread := .testing }
  | .testing => some { st with thread := if st.isActive then .processing else .terminating }
  | .terminating =>
    some { st with
      outerSync := st.outerSync.finalizeConsumption
      thread := .left }
  | .left => none

def step : Event → Option HandOff
  | .receive message =>
    if st.server = .receiving then some { st with server := .waitForSignalling message false }
    else none
  | .retire message =>
    if st.server = .receiving then some { st with server := .deactivating message } else none
  | .serverStep => st.serverStep
  | .threadStep disk => st.threadStep disk

def system : System HandOff Event where
  init st := ∃ areServerIdsReused serverId emptyMsg, st = start areServerIdsReused serverId emptyMsg
  step := step

variable {st} {st' : HandOff}

def Blocked (st : HandOff) : Prop :=
  ((∃ message final, st.server = .waitForSignalling message final) ∨ st.server = .releasing) ∧
    st.outerSync.waitForSignalling = none

structure InOrder (st : HandOff) : Prop where
  onceInOrder : st.processed <+: st.dispatched
  complete : st.thread = .left → st.processed = st.dispatched
  released : st.thread = .left → ¬st.Blocked
  awake : st.processed ≠ st.dispatched → st.server = .finalizeSignalling false ∨
    st.thread = .processing ∨ st.thread = .testing ∨
      st.thread = .waitForConsumption ∧ st.outerSync.isConsumptionState = true

def Tested (st : HandOff) (e : Event) : Prop :=
  ∀ message, e = .serverStep → st.server = .deactivating message →
    st.outerSync.isConsumptionState = true →
      st.thread ≠ .waitForConsumption ∧ st.thread ≠ .testing

def Outside (st : HandOff) : Prop :=
  match st.server with
  | .receiving | .deactivating _ | .waitForSignalling _ false => st.isActive = true
  | .waitForSignalling _ true => st.isActive = false
  | _ => False

def Entering (st : HandOff) : Prop :=
  st.Outside ∨ ∃ message, st.server = .copying message false ∧ st.isActive = true ∨
    st.server = .copying message true ∧ st.isActive = false

inductive Orderly (st : HandOff) : Prop
  | busy (hflag : st.outerSync.isConsumptionState = true) (hthread : st.thread = .processing)
      (hserver : st.Outside) (hlists : st.worker.currentState = .initializing ∧
        st.dispatched = st.processed ∨ st.worker.currentState ≠ .initializing ∧
        st.dispatched = st.processed ++ [st.currentMsg])
  | finishing (hflag : st.outerSync.isConsumptionState = true)
      (hthread : st.thread = .finalizeConsumption) (hserver : st.Outside)
      (hstate : st.worker.currentState ≠ .initializing) (hlists : st.dispatched = st.processed)
  | free (hflag : st.outerSync.isConsumptionState = false)
      (hthread : st.thread = .waitForConsumption) (hserver : st.Entering)
      (hstate : st.worker.currentState ≠ .initializing) (hlists : st.dispatched = st.processed)
  | loaded (hflag : st.outerSync.isConsumptionState = false)
      (hthread : st.thread = .waitForConsumption) (hserver : st.server = .finalizeSignalling false)
      (hactive : st.isActive = true) (hstate : st.worker.currentState ≠ .initializing)
      (hlists : st.dispatched = st.processed ++ [st.currentMsg])
  | signalled (hflag : st.outerSync.isConsumptionState = true)
      (hthread : st.thread = .waitForConsumption ∨ st.thread = .testing)
      (hserver : st.Outside) (hactive : st.isActive = true)
      (hstate : st.worker.currentState ≠ .initializing)
      (hlists : st.dispatched = st.processed ++ [st.currentMsg])
  | stopping (hflag : st.outerSync.isConsumptionState = false)
      (hthread : st.thread = .waitForConsumption) (hserver : st.server = .finalizeSignalling true)
      (hactive : st.isActive = false) (hlists : st.dispatched = st.processed)
  | stopped (hflag : st.outerSync.isConsumptionState = true)
      (hthread : st.thread = .waitForConsumption ∨ st.thread = .testing ∨ st.thread = .terminating)
      (hserver : st.server = .releasing ∨ st.server = .done)
      (hactive : st.isActive = false) (hlists : st.dispatched = st.processed)
  | gone (hthread : st.thread = .left)
      (hserver : (st.server = .releasing ∨ st.server = .erasing) ∧
        st.outerSync.isConsumptionState = false ∨ st.server = .done)
      (hlists : st.dispatched = st.processed)

structure Lost (st : HandOff) : Prop where
  inactive : st.isActive = false
  server : st.server.retired = true
  thread : st.thread = .waitForConsumption ∨ st.thread = .testing ∨
    st.thread = .terminating ∨ st.thread = .left
  lists : st.dispatched ≠ st.processed

theorem orderly_start (areServerIdsReused : Bool) (serverId : ℤ) (emptyMsg : Msg) :
    Orderly (start areServerIdsReused serverId emptyMsg) :=
  .busy rfl rfl (rfl : true = true) (.inl ⟨rfl,rfl⟩)

theorem Orderly.inOrder (h : Orderly st) : st.InOrder := by
  have hsettled (hlists : st.dispatched = st.processed)
      (hblocked : st.thread = .left → ¬st.Blocked) : st.InOrder :=
    ⟨hlists ▸ List.prefix_rfl,fun _ => hlists.symm,hblocked,fun hne => absurd hlists.symm hne⟩
  have hpending (hlists : st.dispatched = st.processed ++ [st.currentMsg])
      (hthread : st.thread ≠ .left) (hawake : st.server = .finalizeSignalling false ∨
        st.thread = .processing ∨ st.thread = .testing ∨
          st.thread = .waitForConsumption ∧ st.outerSync.isConsumptionState = true) : st.InOrder :=
    ⟨hlists ▸ List.prefix_append ..,fun hl => absurd hl hthread,fun hl => absurd hl hthread,
      fun _ => hawake⟩
  cases h with
  | busy _ hthread _ hlists =>
    rcases hlists with ⟨_,hlists⟩ | ⟨_,hlists⟩
    · exact hsettled hlists (by simp [hthread])
    · exact hpending hlists (by simp [hthread]) (by simp [hthread])
  | finishing _ hthread _ _ hlists => exact hsettled hlists (by simp [hthread])
  | free _ hthread _ _ hlists => exact hsettled hlists (by simp [hthread])
  | loaded _ hthread hserver _ _ hlists =>
    exact hpending hlists (by simp [hthread]) (.inl hserver)
  | signalled hflag hthread _ _ _ hlists =>
    rcases hthread with hthread | hthread
    · exact hpending hlists (by simp [hthread]) (by simp [hthread,hflag])
    · exact hpending hlists (by simp [hthread]) (by simp [hthread])
  | stopping _ hthread _ _ hlists => exact hsettled hlists (by simp [hthread])
  | stopped _ hthread _ _ hlists =>
    exact hsettled hlists (by rcases hthread with h | h | h <;> simp [h])
  | gone _ hserver hlists =>
    refine hsettled hlists fun _ ⟨hwait,hnone⟩ => ?_
    rcases hserver with ⟨_,hflag⟩ | hdone
    · simp [AsyncLock.waitForSignalling,hflag] at hnone
    · simp [hdone] at hwait

theorem Lost.not_inOrder (h : Lost st) (hleft : st.thread = .left) : ¬st.InOrder :=
  fun hp => h.lists (hp.complete hleft).symm

inductive ServerMove (st : HandOff) : HandOff → Prop
  | deactivate (message : Msg) (hserver : st.server = .deactivating message) :
      ServerMove st { st with
        isActive := false
        server := .waitForSignalling message true }
  | enter (message : Msg) (final : Bool) (hserver : st.server = .waitForSignalling message final)
      (hflag : st.outerSync.isConsumptionState = false) :
      ServerMove st { st with server := .copying message final }
  | copy (message : Msg) (final : Bool) (hserver : st.server = .copying message final) :
      ServerMove st (st.copy message final)
  | signal (final : Bool) (hserver : st.server = .finalizeSignalling final) :
      ServerMove st { st with
        outerSync := st.outerSync.finalizeSignalling
        server := if final then (if st.areServerIdsReused then .releasing else .done)
          else .receiving }
  | reap (hserver : st.server = .releasing) (hflag : st.outerSync.isConsumptionState = false) :
      ServerMove st { st with server := .erasing }
  | erase (hserver : st.server = .erasing) :
      ServerMove st { st with
        outerSync := st.outerSync.finalizeSignalling
        server := .done }

section ServerStep

variable (hs : st.serverStep = some st')
include hs

theorem serverMove_of_serverStep : st.ServerMove st' := by
  unfold serverStep at hs
  cases hstage : st.server with
  | receiving | done => simp [hstage] at hs
  | deactivating message =>
    rw [hstage] at hs
    exact Option.some.inj hs ▸ .deactivate message hstage
  | waitForSignalling message final =>
    rw [hstage] at hs
    obtain ⟨outerSync,hwait,rfl⟩ := Option.map_eq_some_iff.mp hs
    obtain ⟨hflag,rfl⟩ := AsyncLock.waitForSignalling_eq_some.mp hwait
    exact .enter message final hstage hflag
  | copying message final =>
    rw [hstage] at hs
    exact Option.some.inj hs ▸ .copy message final hstage
  | finalizeSignalling final =>
    rw [hstage] at hs
    exact Option.some.inj hs ▸ .signal final hstage
  | releasing =>
    rw [hstage] at hs
    obtain ⟨outerSync,hwait,rfl⟩ := Option.map_eq_some_iff.mp hs
    obtain ⟨hflag,rfl⟩ := AsyncLock.waitForSignalling_eq_some.mp hwait
    exact .reap hstage hflag
  | erasing =>
    rw [hstage] at hs
    exact Option.some.inj hs ▸ .erase hstage

theorem serverStep_of_outside (hflag : st.outerSync.isConsumptionState = true)
    (hserver : st.Outside) : ∃ message, st.server = .deactivating message ∧ st' = { st with
      isActive := false
      server := .waitForSignalling message true } := by
  cases serverMove_of_serverStep hs with
  | deactivate message hstage => exact ⟨message,hstage,rfl⟩
  | enter _ _ _ hfree | reap _ hfree => cases hflag.symm.trans hfree
  | copy _ _ hstage | signal _ hstage | erase hstage => simp [Outside,hstage] at hserver

theorem serverStep_of_free (hserver : st.Entering) : st'.outerSync = st.outerSync ∧
      st'.thread = st.thread ∧ st'.worker = st.worker ∧ st'.processed = st.processed ∧
      (st'.Entering ∧ st'.dispatched = st.dispatched ∨
        st'.server = .finalizeSignalling false ∧ st'.isActive = true ∧
          st'.dispatched = st.dispatched ++ [st'.currentMsg] ∨
        st'.server = .finalizeSignalling true ∧ st'.isActive = false ∧
          st'.dispatched = st.dispatched) := by
  cases serverMove_of_serverStep hs with
  | deactivate => exact ⟨rfl,rfl,rfl,rfl,.inl ⟨.inl (rfl : false = false),rfl⟩⟩
  | enter message final hstage =>
    have hactive : st.isActive = !final := by
      cases final <;> simpa [Entering,Outside,hstage] using hserver
    refine ⟨rfl,rfl,rfl,rfl,.inl ⟨.inr ⟨message,?_⟩,rfl⟩⟩
    cases final <;> simp [hactive]
  | copy message final hstage =>
    have hactive : st.isActive = !final := by
      cases final <;> simpa [Entering,Outside,hstage] using hserver
    cases final
    · exact ⟨rfl,rfl,rfl,rfl,.inr (.inl ⟨rfl,hactive,rfl⟩)⟩
    · exact ⟨rfl,rfl,rfl,rfl,.inr (.inr ⟨rfl,hactive,rfl⟩)⟩
  | signal _ hstage | reap hstage | erase hstage => simp [Entering,Outside,hstage] at hserver

theorem serverStep_of_finalizing {final : Bool} (hserver : st.server = .finalizeSignalling final) :
    st' = { st with
      outerSync := st.outerSync.finalizeSignalling
      server := if final then (if st.areServerIdsReused then .releasing else .done)
        else .receiving } := by
  simp only [serverStep,hserver,Option.some.injEq] at hs
  exact hs.symm

theorem gone_serverStep (hthread : st.thread = .left)
    (hserver : (st.server = .releasing ∨ st.server = .erasing) ∧
      st.outerSync.isConsumptionState = false ∨ st.server = .done)
    (hlists : st.dispatched = st.processed) : Orderly st' := by
  cases serverMove_of_serverStep hs with
  | reap _ hflag => exact .gone hthread (.inl ⟨.inr rfl,hflag⟩) hlists
  | erase => exact .gone hthread (.inr rfl) hlists
  | deactivate _ hstage | enter _ _ hstage | copy _ _ hstage | signal _ hstage =>
    simp [hstage] at hserver

theorem Orderly.serverStep (h : Orderly st) :
    (Tested st .serverStep → Orderly st') ∧ (¬Tested st .serverStep → Lost st') := by
  have hclean (ho : Orderly st') (ht : Tested st .serverStep) :
      (Tested st .serverStep → Orderly st') ∧ (¬Tested st .serverStep → Lost st') :=
    ⟨fun _ => ho,fun hn => absurd ht hn⟩
  cases h with
  | busy hflag hthread hserver hlists =>
    obtain ⟨message,_,rfl⟩ := serverStep_of_outside hs hflag hserver
    exact hclean (.busy hflag hthread (rfl : false = false) hlists)
      fun _ _ _ _ => by simp [hthread]
  | finishing hflag hthread hserver hstate hlists =>
    obtain ⟨message,_,rfl⟩ := serverStep_of_outside hs hflag hserver
    exact hclean (.finishing hflag hthread (rfl : false = false) hstate hlists)
      fun _ _ _ _ => by simp [hthread]
  | free hflag hthread hserver hstate hlists =>
    refine hclean ?_ fun _ _ _ ht => by simp [hflag] at ht
    obtain ⟨hsync,hthr,hwork,hproc,hnext⟩ := serverStep_of_free hs hserver
    rw [← hsync] at hflag
    rw [← hthr] at hthread
    rw [← hwork] at hstate
    rw [← hproc] at hlists
    rcases hnext with ⟨hin,hd⟩ | ⟨hfin,hactive,hd⟩ | ⟨hfin,hactive,hd⟩
    · exact .free hflag hthread hin hstate (hd.trans hlists)
    · exact .loaded hflag hthread hfin hactive hstate (hd.trans (hlists ▸ rfl))
    · exact .stopping hflag hthread hfin hactive (hd.trans hlists)
  | loaded hflag hthread hserver hactive hstate hlists =>
    refine hclean ?_ fun _ _ _ ht => by simp [hflag] at ht
    obtain rfl := serverStep_of_finalizing hs hserver
    exact .signalled rfl (.inl hthread) hactive hactive hstate hlists
  | signalled hflag hthread hserver hactive hstate hlists =>
    obtain ⟨message,hdeact,rfl⟩ := serverStep_of_outside hs hflag hserver
    refine ⟨fun ht => ?_,fun _ => ⟨rfl,rfl,hthread.imp id .inl,by simp [hlists]⟩⟩
    obtain ⟨hw,ht⟩ := ht message rfl hdeact hflag
    exact absurd hthread (not_or.mpr ⟨hw,ht⟩)
  | stopping hflag hthread hserver hactive hlists =>
    refine hclean ?_ fun _ _ _ ht => by simp [hflag] at ht
    obtain rfl := serverStep_of_finalizing hs hserver
    refine .stopped rfl (.inl hthread) ?_ hactive hlists
    cases st.areServerIdsReused <;> simp
  | stopped hflag hthread hserver hactive hlists =>
    cases serverMove_of_serverStep hs with
    | reap _ hfree => cases hflag.symm.trans hfree
    | deactivate _ hstage | enter _ _ hstage | copy _ _ hstage | signal _ hstage | erase hstage =>
      simp [hstage] at hserver
  | gone hthread hserver hlists =>
    exact hclean (gone_serverStep hs hthread hserver hlists) fun _ _ _ _ => by simp [hthread]

theorem Lost.serverStep (h : Lost st) : Lost st' := by
  obtain ⟨hinactive,hretired,hthread,hlists⟩ := h
  cases serverMove_of_serverStep hs with
  | deactivate message hstage => simp [ServerStage.retired,hstage] at hretired
  | enter message final hstage =>
    rw [hstage] at hretired
    exact ⟨hinactive,hretired,hthread,hlists⟩
  | copy message final hstage =>
    rw [hstage] at hretired
    obtain rfl : final = true := hretired
    exact ⟨hinactive,rfl,hthread,hlists⟩
  | signal final hstage =>
    rw [hstage] at hretired
    obtain rfl : final = true := hretired
    refine ⟨hinactive,?_,hthread,hlists⟩
    cases st.areServerIdsReused <;> rfl
  | reap | erase => exact ⟨hinactive,rfl,hthread,hlists⟩

end ServerStep

section ThreadStep

variable {disk : Disk} (hs : st.threadStep disk = some st')
include hs

theorem threadStep_of_processing (hthread : st.thread = .processing) :
    st'.outerSync = st.outerSync ∧ st'.thread = .finalizeConsumption ∧
      st'.server = st.server ∧ st'.isActive = st.isActive ∧
      st'.worker.currentState ≠ .initializing ∧ st'.dispatched = st.dispatched ∧
      st'.processed = if st.worker.currentState = .initializing then st.processed
        else st.processed ++ [st.currentMsg] := by
  rw [threadStep,hthread] at hs
  obtain ⟨out,hrun,rfl⟩ := Option.map_eq_some_iff.mp hs
  exact ⟨rfl,rfl,rfl,rfl,ServerThread.run_started hrun,rfl,rfl⟩

theorem threadStep_of_waiting (hthread : st.thread = .waitForConsumption) :
    st.outerSync.isConsumptionState = true ∧ st' = { st with thread := .testing } := by
  rw [threadStep,hthread] at hs
  obtain ⟨outerSync,hwait,rfl⟩ := Option.map_eq_some_iff.mp hs
  obtain ⟨hflag,rfl⟩ := AsyncLock.waitForConsumption_eq_some.mp hwait
  exact ⟨hflag,rfl⟩

theorem threadStep_of_testing (hthread : st.thread = .testing) :
    st' = { st with thread := if st.isActive then .processing else .terminating } := by
  rw [threadStep,hthread] at hs
  exact (Option.some.inj hs).symm

theorem threadStep_of_terminating (hthread : st.thread = .terminating) :
    st' = { st with
      outerSync := st.outerSync.finalizeConsumption
      thread := .left } := by
  rw [threadStep,hthread] at hs
  exact (Option.some.inj hs).symm

theorem Orderly.threadStep (h : Orderly st) : Orderly st' := by
  cases h with
  | busy hflag hthread hserver hlists =>
    obtain ⟨hsync,hthr,hserv,hact,hstate,hd,hp⟩ := threadStep_of_processing hs hthread
    refine .finishing (hsync ▸ hflag) hthr ?_ hstate ?_
    · simpa only [Outside,hserv,hact] using hserver
    · rcases hlists with ⟨hinit,hlists⟩ | ⟨hinit,hlists⟩
      · rw [hd,hp,if_pos hinit,hlists]
      · rw [hd,hp,if_neg hinit,hlists]
  | finishing hflag hthread hserver hstate hlists =>
    rw [HandOff.threadStep,hthread] at hs
    exact Option.some.inj hs ▸ .free rfl rfl (.inl hserver) hstate hlists
  | free hflag hthread | loaded hflag hthread | stopping hflag hthread =>
    have := (threadStep_of_waiting hs hthread).1
    simp [hflag] at this
  | signalled hflag hthread hserver hactive hstate hlists =>
    rcases hthread with hthread | hthread
    · obtain ⟨_,rfl⟩ := threadStep_of_waiting hs hthread
      exact .signalled hflag (.inr rfl) hserver hactive hstate hlists
    · obtain rfl := threadStep_of_testing hs hthread
      exact .busy hflag (if_pos hactive) hserver (.inr ⟨hstate,hlists⟩)
  | stopped hflag hthread hserver hactive hlists =>
    rcases hthread with hthread | hthread | hthread
    · obtain ⟨_,rfl⟩ := threadStep_of_waiting hs hthread
      exact .stopped hflag (.inr (.inl rfl)) hserver hactive hlists
    · obtain rfl := threadStep_of_testing hs hthread
      exact .stopped hflag (.inr (.inr (by simp [hactive]))) hserver hactive hlists
    · obtain rfl := threadStep_of_terminating hs hthread
      exact .gone rfl (hserver.imp (fun h => ⟨.inl h,rfl⟩) id) hlists
  | gone hthread => simp [HandOff.threadStep,hthread] at hs

theorem Lost.threadStep (h : Lost st) : Lost st' := by
  obtain ⟨hinactive,hretired,hthread,hlists⟩ := h
  rcases hthread with hthread | hthread | hthread | hthread
  · obtain ⟨_,rfl⟩ := threadStep_of_waiting hs hthread
    exact ⟨hinactive,hretired,.inr (.inl rfl),hlists⟩
  · obtain rfl := threadStep_of_testing hs hthread
    exact ⟨hinactive,hretired,.inr (.inr (.inl (by simp [hinactive]))),hlists⟩
  · obtain rfl := threadStep_of_terminating hs hthread
    exact ⟨hinactive,hretired,.inr (.inr (.inr rfl)),hlists⟩
  · simp [HandOff.threadStep,hthread] at hs

end ThreadStep

theorem Orderly.arrive (h : Orderly st) (hrec : st.server = .receiving) {server : ServerStage}
    (hnext : ∃ message, server = .waitForSignalling message false ∨
      server = .deactivating message) : Orderly { st with server := server } := by
  have hout (hserver : st.Outside) : Outside { st with server := server } := by
    obtain ⟨message,rfl | rfl⟩ := hnext <;> simpa [Outside,hrec] using hserver
  cases h with
  | busy hflag hthread hserver hlists => exact .busy hflag hthread (hout hserver) hlists
  | finishing hflag hthread hserver hstate hlists =>
    exact .finishing hflag hthread (hout hserver) hstate hlists
  | free hflag hthread hserver hstate hlists =>
    refine .free hflag hthread (.inl (hout ?_)) hstate hlists
    exact hserver.resolve_right (by simp [hrec])
  | signalled hflag hthread hserver hactive hstate hlists =>
    exact .signalled hflag hthread (hout hserver) hactive hstate hlists
  | loaded _ _ hserver | stopping _ _ hserver => simp [hrec] at hserver
  | stopped _ _ hserver | gone _ hserver => simp [hrec] at hserver

theorem Orderly.step {e : Event} (h : Orderly st) (hs : st.step e = some st') :
    (Tested st e → Orderly st') ∧ (¬Tested st e → Lost st') := by
  have hclean (ho : Orderly st') (he : e ≠ .serverStep) :
      (Tested st e → Orderly st') ∧ (¬Tested st e → Lost st') :=
    ⟨fun _ => ho,fun hn => absurd (fun _ h => absurd h he) hn⟩
  cases e with
  | receive message =>
    simp only [HandOff.step] at hs
    split_ifs at hs with hrec
    exact hclean (Option.some.inj hs ▸ h.arrive hrec ⟨message,.inl rfl⟩) (by simp)
  | retire message =>
    simp only [HandOff.step] at hs
    split_ifs at hs with hrec
    exact hclean (Option.some.inj hs ▸ h.arrive hrec ⟨message,.inr rfl⟩) (by simp)
  | serverStep => exact h.serverStep hs
  | threadStep disk => exact hclean (h.threadStep hs) (by simp)

theorem Lost.step {e : Event} (h : Lost st) (hs : st.step e = some st') : Lost st' := by
  cases e with
  | receive | retire =>
    simp only [HandOff.step] at hs
    split_ifs at hs with hrec
    have := h.server
    simp [hrec,ServerStage.retired] at this
  | serverStep => exact h.serverStep hs
  | threadStep disk => exact h.threadStep hs

theorem Lost.run {events : List Event} (h : Lost st) (hr : system.run st events = some st') :
    Lost st' := by
  induction events generalizing st with
  | nil => exact Option.some.inj hr ▸ h
  | cons e events ih =>
    obtain ⟨mid,hs,hrest⟩ := Option.bind_eq_some_iff.mp hr
    exact ih (h.step hs) hrest

theorem Orderly.along {events : List Event} (h : Orderly st)
    (hc : system.Along (fun s e _ => Tested s e) st events) :
    system.Along (fun _ _ t => t.InOrder) st events :=
  system.along_of_invariant (I := Orderly) (fun _ _ _ hi ht hs =>
    ⟨((hi.step hs).1 ht).inOrder,(hi.step hs).1 ht⟩) h hc

theorem Orderly.tested_of_left {events : List Event} (h : Orderly st)
    (hp : system.Along (fun _ _ t => t.InOrder) st events)
    (hr : system.run st events = some st') (hleft : st'.thread = .left) :
    system.Along (fun s e _ => Tested s e) st events := by
  induction events generalizing st with
  | nil => trivial
  | cons e events ih =>
    intro mid hs
    obtain ⟨mid',hs',hrest⟩ := Option.bind_eq_some_iff.mp hr
    obtain rfl := Option.some.inj (hs.symm.trans hs')
    obtain ⟨hin,hafter⟩ := hp mid hs
    by_cases ht : Tested st e
    · exact ⟨ht,ih ((h.step hs).1 ht) hafter hrest⟩
    · have hlost := ((h.step hs).2 ht).run hrest
      exact absurd (system.along_final hin hafter hrest) (hlost.not_inOrder hleft)

theorem hand_off_in_order_iff (areServerIdsReused : Bool) (serverId : ℤ) (emptyMsg : Msg)
    (events : List Event) :
    (system.Along (fun st e _ => Tested st e) (start areServerIdsReused serverId emptyMsg) events →
      system.Along (fun _ _ st => st.InOrder) (start areServerIdsReused serverId emptyMsg) events) ∧
    ∀ st, system.run (start areServerIdsReused serverId emptyMsg) events = some st →
      st.thread = .left →
      (system.Along (fun _ _ st => st.InOrder) (start areServerIdsReused serverId emptyMsg) events ↔
        system.Along (fun st e _ => Tested st e) (start areServerIdsReused serverId emptyMsg)
          events) := by
  have h := orderly_start areServerIdsReused serverId emptyMsg
  exact ⟨h.along,fun st hr hleft => ⟨fun hp => h.tested_of_left hp hr hleft,h.along⟩⟩

structure Shows (st : HandOff) (tables : FtpServer) : Prop where
  messages : tables.messages st.worker.serverId = some st.currentMsg
  locks : tables.threadLocks st.worker.serverId = some st.outerSync
  active : tables.isThreadActive st.worker.serverId = some st.isActive

theorem shows_start {tables tables' : FtpServer} {drawn : ℤ}
    (h : tables.createServerThread drawn = some tables')
    (hmsg : tables.messages drawn = none) (hactive : tables.isThreadActive drawn = none) :
    (start tables.areServerIdsReused drawn FtpServer.emptyMsg).Shows tables' := by
  simp only [FtpServer.createServerThread] at h
  split_ifs at h with hfree
  obtain rfl := Option.some.inj h
  refine ⟨?_,?_,?_⟩
  · exact (congrFun (Table.insert_of_none _ _ hmsg) drawn).trans (Table.assign_self ..)
  · exact (congrFun (Table.insert_of_none _ _ hfree.2.2) drawn).trans (Table.assign_self ..)
  · exact (congrFun (Table.insert_of_none _ _ hactive) drawn).trans (Table.assign_self ..)

theorem Shows.deactivate {tables : FtpServer} {message : Msg} (h : st.Shows tables)
    (hserver : st.server = .deactivating message) (clientId : ℤ) (hs : st.serverStep = some st') :
    st'.Shows (tables.deactivate clientId st.worker.serverId) := by
  rw [serverStep,hserver] at hs
  obtain rfl := Option.some.inj hs
  exact ⟨h.messages,h.locks,Table.assign_self ..⟩

theorem Shows.dispatchMessage {tables : FtpServer} {message : Msg} {final : Bool}
    (h : st.Shows tables) (hserver : st.server = .waitForSignalling message final)
    (hflag : st.outerSync.isConsumptionState = false) (hid : st.worker.serverId ≠ nullServerId) :
    ∃ st', system.run st [.serverStep,.serverStep,.serverStep] = some st' ∧
      st'.Shows (tables.dispatchMessage st.worker.serverId message) := by
  refine ⟨{ st.copy message final with
    outerSync := st.outerSync.finalizeSignalling
    server := if final then (if st.areServerIdsReused then .releasing else .done)
      else .receiving },?_,?_⟩
  · simp only [System.run,system,step,serverStep,hserver,AsyncLock.waitForSignalling,hflag,
      Bool.not_false,if_true,Option.map_some,Option.bind_some,copy]
  · rw [FtpServer.dispatchMessage,if_neg hid]
    exact ⟨Table.assign_self ..,
      (Table.modify_self ..).trans (congrArg (Option.map _) h.locks),h.active⟩

-- after the first HANDSHAKE the flag is cleared between the hand-off of a request and the thread's
-- test: the request is dropped, and with reused ids FtpServer waits for a thread that is gone
theorem untested_message_dropped : ∃ st, system.Reachable st ∧ ¬st.InOrder ∧
    st.processed ≠ st.dispatched ∧ st.Blocked := by
  let request (type : MsgType) : Msg := ⟨1,3,type,0,0,Buffer.copyIn []⟩
  let disk : Disk := .empty
  let events : List Event := [.threadStep disk,.threadStep disk,
    .receive (request .handshake),.serverStep,.serverStep,.serverStep,
    .threadStep disk,.threadStep disk,.threadStep disk,.threadStep disk,
    .receive (request .getList),.serverStep,.serverStep,.serverStep,
    .retire (request .handshake),.serverStep,.threadStep disk,.threadStep disk,.threadStep disk,
    .serverStep,.serverStep,.serverStep]
  have hrun : (system.run (start true 3 (request .ack)) events).any (fun st =>
      decide (st.thread = .left) && (decide (st.processed.length ≠ st.dispatched.length) &&
        (decide (st.server = .releasing) && st.outerSync.isConsumptionState))) = true := by
    decide
  obtain ⟨st,hst,hend⟩ := (Option.any_eq_true _ _).mp hrun
  simp only [Bool.and_eq_true,decide_eq_true_eq] at hend
  obtain ⟨hleft,hlengths,hserver,hflag⟩ := hend
  have hne : st.processed ≠ st.dispatched := fun he => hlengths (congrArg List.length he)
  refine ⟨st,system.reachable_of_run ⟨true,3,_,rfl⟩ hst,fun h => hne (h.complete hleft),hne,
    .inr hserver,?_⟩
  simp [AsyncLock.waitForSignalling,hflag]

end HandOff
end FtpOverUdp
