import FtpOverUdp.UdpClient.Menu
import FtpOverUdp.UdpServer.Numbers

namespace FtpOverUdp

open Library

namespace Menu

-- `request` carries the only number beyond `s` that a thread in RENAMING executes
structure Follows (s : ℤ) (request : Msg) : Prop where
  number : request.sequenceNumber = (s + 1) % sequenceRange
  executed : ∀ (server : ServerThread) (msg : Msg) (disk : Disk),
    server.currentState = .renaming → server.sequenceNumber = s → msg.type = .resp →
      msg.sequenceNumber ≠ s → (server.run msg disk = some (server.performRename msg disk) ↔
        msg.sequenceNumber = request.sequenceNumber)

structure InStep (st : Menu) : Prop where
  emitted : ∀ m ∈ st.toServer, Numbered m
  followed : ∀ s request, st.followUp = some (s,request) → Follows s request

def RequestsAfterSix (st : Menu) : Event → Prop
  | .enterName _ => st.accepted = some 6
  | _ => False

def Stepped (st : Menu) : Prop :=
  ∃ s, st.accepted = some s ∧ Slotted s ∧ st.sequenceNumber = s + 1

-- the number of each stage; `performList` and an answer under 6 leave 7 behind
def NumberOk (st : Menu) : Prop :=
  match st.stage with
  | .choosing | .acknowledging => 0 ≤ st.sequenceNumber ∧ st.sequenceNumber ≤ sequenceRange
  | .changing .askingOriginal => (st.accepted = none ∧ Slotted st.sequenceNumber) ∨ st.Stepped
  | .changing .askingNew => st.Stepped
  | .uploading => 0 ≤ st.sender.sequenceSeed
  | .exited => True
  | _ => Slotted st.sequenceNumber

structure Counted (st : Menu) : Prop where
  replies : ∀ m ∈ st.toClient, Numbered m
  threads : ∀ S thread, st.threads S = some thread → thread.Numbers
  sender : st.sender.SendsNumbered
  number : st.NumberOk

-- a step of the client's that emits only slots
structure Acts (st st' : Menu) : Prop where
  sends : ∃ msgs, st'.toServer = st.toServer ++ msgs ∧ ∀ m ∈ msgs, Numbered m
  followUp : st'.followUp = st.followUp
  toClient : st'.toClient = st.toClient
  threads : st'.threads = st.threads
  sender : st'.sender.SendsNumbered
  number : st'.NumberOk

variable {st st' : Menu} {msg : Msg}

theorem follows_of_slotted {s : ℤ} (hs : Slotted s) (h : msg.sequenceNumber = (s + 1) % sequenceRange) :
    Follows s msg := by
  refine ⟨h,fun server m disk hstate hnum htype hne => ?_⟩
  rw [ServerThread.renaming_executes_iff hstate htype (hnum ▸ hne),hnum,h,
    wrap_eq_emod (Int.add_nonneg hs.1 (by decide))]

theorem Acts.inStep (ha : Acts st st') (h : st.InStep) : st'.InStep := by
  obtain ⟨msgs,hsent,hmsgs⟩ := ha.sends
  constructor
  · rw [hsent]
    exact List.forall_mem_append.mpr ⟨h.emitted,hmsgs⟩
  · rw [ha.followUp]
    exact h.followed

theorem Acts.counted (ha : Acts st st') (h : st.Counted) : st'.Counted := by
  constructor
  · rw [ha.toClient]
    exact h.replies
  · rw [ha.threads]
    exact h.threads
  · exact ha.sender
  · exact ha.number

theorem acts_quiet (hsent : st'.toServer = st.toServer) (hfollow : st'.followUp = st.followUp)
    (hclient : st'.toClient = st.toClient) (hthreads : st'.threads = st.threads)
    (hsender : st'.sender.SendsNumbered) (hnumber : st'.NumberOk) : Acts st st' :=
  ⟨⟨[],by rw [hsent,List.append_nil],nofun⟩,hfollow,hclient,hthreads,hsender,hnumber⟩

theorem stepped_accept (hnum : Slotted st.sequenceNumber) (stage : MenuStage) :
    (st.accept stage (st.sequenceNumber + 1)).Stepped := ⟨st.sequenceNumber,rfl,hnum,rfl⟩

section Client

variable (h : st.Counted)
include h

theorem acts_showMenu (hstage : st.stage = .choosing) (optionVal : ℤ) :
    Acts st (st.showMenu optionVal) := by
  have hnum := h.number
  rw [NumberOk,hstage] at hnum
  have hnext := slotted_next hnum.1
  refine ⟨⟨_,rfl,?_⟩,rfl,rfl,rfl,h.sender,hnext⟩
  exact List.forall_mem_singleton.mpr hnext

theorem acts_readSync {optionVal : ℤ} (hstage : st.stage = .syncing optionVal) (msg : Msg) :
    Acts st (st.readSync optionVal msg) := by
  have hnum := h.number
  have hnum' := hnum
  rw [NumberOk,hstage] at hnum'
  unfold readSync
  split_ifs
  · exact acts_quiet rfl rfl rfl rfl h.sender (slotted_next hnum'.1)
  · exact acts_quiet rfl rfl rfl rfl h.sender hnum

theorem acts_perform {optionVal : ℤ} (hstage : st.stage = .entering optionVal)
    (filename : List UInt8) (file : Option (List UInt8)) :
    Acts st (st.perform optionVal filename file) := by
  have hnum := h.number
  rw [NumberOk,hstage] at hnum
  have hone : ∀ m, m.sequenceNumber = st.sequenceNumber → ∀ m' ∈ [m], Numbered m' := by
    intro m hm m' hm'
    rw [List.mem_singleton.mp hm',Numbered,hm]
    exact hnum
  unfold perform
  split_ifs
  · exact ⟨⟨_,rfl,hone _ rfl⟩,rfl,rfl,rfl,h.sender,hnum⟩
  · exact ⟨⟨_,rfl,hone _ rfl⟩,rfl,rfl,rfl,h.sender,hnum⟩
  · cases file with
    | none => exact acts_quiet rfl rfl rfl rfl h.sender trivial
    | some contents => exact ⟨⟨_,rfl,hone _ rfl⟩,rfl,rfl,rfl,h.sender,hnum⟩
  · exact acts_quiet rfl rfl rfl rfl h.sender (Or.inl ⟨rfl,hnum⟩)
  · exact ⟨⟨_,rfl,hone _ rfl⟩,rfl,rfl,rfl,h.sender,hnum⟩
  · exact acts_quiet rfl rfl rfl rfl h.sender hnum.le

theorem acts_readPayload {final : ℤ → ℤ} {noSuchFile : Msg → MenuStage}
    (hstage : st.stage = .getting ∨ st.stage = .listing) (hmsg : Numbered msg)
    (hfinal : ∀ number, Slotted number → 0 ≤ final number ∧ final number ≤ sequenceRange)
    (hthrown : noSuchFile msg = .choosing ∨ noSuchFile msg = .exited)
    (hs : st.readPayload final noSuchFile msg = some st') : Acts st st' := by
  have hnum : Slotted st.sequenceNumber := by
    have hnum := h.number
    rcases hstage with hstage | hstage
    all_goals
      rw [NumberOk,hstage] at hnum
      exact hnum
  dsimp only [readPayload] at hs
  split_ifs at hs
  · obtain ⟨handled,hhandled,rfl⟩ := Option.map_eq_some_iff.mp hs
    have hsent : ∀ m ∈ handled.sent, Numbered m := by
      intro m hm
      rw [Numbered,Receiver.handleMsg_numbers hhandled m hm]
      exact hmsg
    split_ifs
    · refine ⟨⟨_,rfl,hsent⟩,rfl,rfl,rfl,h.sender,?_⟩
      rcases hthrown with hthrown | hthrown
      · rw [NumberOk,hthrown]
        exact hnum.le
      · rw [NumberOk,hthrown]
        trivial
    · exact ⟨⟨_,rfl,hsent⟩,rfl,rfl,rfl,h.sender,hfinal msg.sequenceNumber hmsg⟩
    · exact ⟨⟨_,rfl,hsent⟩,rfl,rfl,rfl,h.sender,h.number⟩
  · exact Option.some.inj hs ▸ acts_quiet rfl rfl rfl rfl h.sender h.number

theorem acts_readEof (hmsg : Numbered msg) : Acts st (st.readEof msg) := by
  unfold readEof
  dsimp only
  split_ifs
  · refine ⟨⟨_,rfl,?_⟩,rfl,rfl,rfl,h.sender,h.number⟩
    exact List.forall_mem_singleton.mpr hmsg
  · exact acts_quiet rfl rfl rfl rfl h.sender h.number

theorem acts_readRequestAck {contents : List UInt8} (hstage : st.stage = .requesting contents)
    (hs : st.readRequestAck contents msg = some st') : Acts st st' := by
  have hnum := h.number
  rw [NumberOk,hstage] at hnum
  dsimp only [readRequestAck] at hs
  split_ifs at hs
  · obtain ⟨sender,hload,rfl⟩ := Option.map_eq_some_iff.mp hs
    have hsends := Sender.sendsNumbered_load h.sender hload
    obtain ⟨loaded,hloads,hsend⟩ := Sender.load_cases hload
    refine ⟨⟨_,rfl,List.forall_mem_map.mpr hsends⟩,rfl,rfl,rfl,hsends,?_⟩
    change 0 ≤ sender.sequenceSeed
    rw [hsend.seed,hloads.seed]
    exact hnum.1
  · exact Option.some.inj hs ▸ acts_quiet rfl rfl rfl rfl h.sender h.number

theorem acts_readPacketAck (hstage : st.stage = .uploading)
    (hs : st.readPacketAck msg = some st') : Acts st st' := by
  have hseed := h.number
  rw [NumberOk,hstage] at hseed
  dsimp only [readPacketAck] at hs
  split_ifs at hs
  · obtain ⟨sender,hack,rfl⟩ := Option.map_eq_some_iff.mp hs
    have hadvance := Sender.advances_processAck hack
    have hsends := hadvance.numbered h.sender
    rw [← hadvance.seed] at hseed
    split_ifs
    · refine ⟨⟨_,rfl,List.forall_mem_map.mpr hsends⟩,rfl,rfl,rfl,hsends,?_⟩
      exact (slotted_wrap (by omega)).le
    · refine ⟨⟨_,rfl,List.forall_mem_map.mpr hsends⟩,rfl,rfl,rfl,hsends,?_⟩
      change NumberOk (emit { st with
        serverMsg := msg
        sender := sender } (packets sender))
      rw [NumberOk]
      simp only [emit,hstage]
      exact hseed
  · exact Option.some.inj hs ▸ acts_quiet rfl rfl rfl rfl h.sender h.number

theorem acts_readTermination (hstage : st.stage = .terminating) (msg : Msg) :
    Acts st (st.readTermination msg) := by
  have hnum := h.number
  rw [NumberOk,hstage] at hnum
  unfold readTermination
  dsimp only
  split_ifs
  · refine ⟨⟨_,rfl,?_⟩,rfl,rfl,rfl,h.sender,trivial⟩
    exact List.forall_mem_singleton.mpr hnum
  · exact acts_quiet rfl rfl rfl rfl h.sender h.number

theorem acts_read (hmsg : Numbered msg) (hs : st.read msg = some st') : Acts st st' := by
  unfold read at hs
  split at hs
  · rename_i optionVal hstage
    exact Option.some.inj hs ▸ acts_readSync h hstage msg
  · rename_i hstage
    refine acts_readPayload h (Or.inl hstage) hmsg (fun number hn => ?_) ?_ hs
    · exact (slotted_next hn.1).le
    · split_ifs
      · exact Or.inl rfl
      · exact Or.inr rfl
  · rename_i hstage
    refine acts_readPayload h (Or.inr hstage) hmsg (fun number hn => ?_) (Or.inr rfl) hs
    have hone : wrap 1 = 1 := rfl
    rw [hone]
    have hlo := hn.1
    have hhi := hn.2
    omega
  · exact Option.some.inj hs ▸ acts_readEof h hmsg
  · rename_i contents hstage
    exact acts_readRequestAck h hstage hs
  · rename_i hstage
    exact acts_readPacketAck h hstage hs
  · unfold readAnswer at hs
    split_ifs at hs
    exact Option.some.inj hs ▸ acts_quiet rfl rfl rfl rfl h.sender h.number
  · unfold readAnswer at hs
    split_ifs at hs
    exact Option.some.inj hs ▸ acts_quiet rfl rfl rfl rfl h.sender h.number
  · rename_i hstage
    exact Option.some.inj hs ▸ acts_readTermination h hstage msg
  all_goals cases hs

theorem acts_settleOriginal (hstage : st.stage = .changing .waitingOriginal) (retries : Bool) :
    Acts st (st.settleOriginal retries) := by
  have hnum := h.number
  rw [NumberOk,hstage] at hnum
  have hstepped := stepped_accept hnum
  have hlo := hnum.1
  have hhi := hnum.2
  unfold settleOriginal
  split_ifs
  · exact acts_quiet rfl rfl rfl rfl h.sender (hstepped _)
  · exact acts_quiet rfl rfl rfl rfl h.sender (Or.inr (hstepped _))
  · refine acts_quiet rfl rfl rfl rfl h.sender ?_
    simp only [NumberOk,accept]
    omega
  · exact acts_quiet rfl rfl rfl rfl h.sender (hstepped _)

theorem acts_settleNew (hstage : st.stage = .changing .waitingNew) (retries : Bool) :
    Acts st (st.settleNew retries) := by
  have hnum := h.number
  rw [NumberOk,hstage] at hnum
  unfold settleNew
  split_ifs
  · exact acts_quiet rfl rfl rfl rfl h.sender hnum.le
  · exact acts_quiet rfl rfl rfl rfl h.sender (stepped_accept hnum _)
  · exact acts_quiet rfl rfl rfl rfl h.sender hnum.le

theorem acts_settle {retries : Bool} (hs : st.settle retries = some st') : Acts st st' := by
  unfold settle at hs
  split_ifs at hs
  split at hs
  · rename_i hstage
    exact Option.some.inj hs ▸ acts_settleOriginal h hstage retries
  · rename_i hstage
    exact Option.some.inj hs ▸ acts_settleNew h hstage retries
  · cases hs

end Client

theorem Counted.serve (hc : st.Counted) (h : st.InStep) {serverId : ℤ} {disk : Disk}
    (hs : st.serve serverId msg disk = some st') : st'.InStep ∧ st'.Counted := by
  unfold Menu.serve at hs
  split_ifs at hs with hmem
  obtain ⟨thread,hthread,hs⟩ := Option.bind_eq_some_iff.mp hs
  obtain ⟨out,hrun,rfl⟩ := Option.map_eq_some_iff.mp hs
  have hmsg : Numbered { msg with serverId := serverId } := h.emitted msg hmem
  obtain ⟨hnumbers,hreplies⟩ := ServerThread.Numbers.run hmsg (hc.threads serverId thread hthread) hrun
  refine ⟨⟨h.emitted,h.followed⟩,?_,fun S t ht => ?_,hc.sender,hc.number⟩
  · refine List.forall_mem_append.mpr ⟨List.forall_mem_append.mpr ⟨hc.replies,?_⟩,?_⟩
    · intro m hm
      obtain ⟨e,he,hsent⟩ := List.mem_filterMap.mp hm
      split at hsent
      · exact Option.some.inj hsent ▸ hreplies _ he
      · cases hsent
    · intro m hm
      obtain ⟨sender,hsender,hm⟩ := List.mem_flatMap.mp hm
      exact List.forall_mem_map.mpr (hnumbers.sender sender (Option.mem_toList.mp hsender)) m hm
  · dsimp only at ht
    rw [Table.assign_apply] at ht
    split_ifs at ht
    · exact Option.some.inj ht ▸ hnumbers
    · exact hc.threads S t ht

theorem Counted.spawn (hc : st.Counted) {serverId : ℤ} (hid : 0 ≤ serverId) :
    Counted { st with threads := st.threads.assign serverId (ServerThread.create serverId) } := by
  refine ⟨hc.replies,fun S t ht => ?_,hc.sender,hc.number⟩
  dsimp only at ht
  rw [Table.assign_apply] at ht
  split_ifs at ht
  · exact Option.some.inj ht ▸ ⟨hid,nofun⟩
  · exact hc.threads S t ht

section Request

variable {messageType : MsgType} {filename : List UInt8} {stage : RenameStage}

theorem request_mem_startRequest : st.request messageType filename ∈
    (st.startRequest messageType filename stage).toServer :=
  List.mem_append_right _ (List.mem_singleton.mpr rfl)

theorem emitted_startRequest (h : st.InStep) (hslot : Slotted st.sequenceNumber) :
    ∀ m ∈ (st.startRequest messageType filename stage).toServer, Numbered m :=
  List.forall_mem_append.mpr ⟨h.emitted,List.forall_mem_singleton.mpr hslot⟩

theorem InStep.startRequest_first (h : st.InStep) (hnone : st.accepted = none)
    (hslot : Slotted st.sequenceNumber) : (st.startRequest messageType filename stage).InStep := by
  constructor
  · exact emitted_startRequest h hslot
  · intro s request hfollow
    simp [startRequest,emit,hnone] at hfollow

theorem InStep.startRequest_next (h : st.InStep) {s : ℤ} (hs : st.accepted = some s)
    (hslot : Slotted s) (hstep : st.sequenceNumber = s + 1) (hsix : s ≠ 6) :
    (st.startRequest messageType filename stage).InStep := by
  have hlo := hslot.1
  have hhi := hslot.2
  simp only [sequenceRange] at hhi
  constructor
  · apply emitted_startRequest h
    simp only [Slotted,sequenceRange]
    omega
  · intro s' request hfollow
    simp only [startRequest,emit,hs,Option.map_some,Option.some.injEq,Prod.mk.injEq] at hfollow
    obtain ⟨rfl,rfl⟩ := hfollow
    apply follows_of_slotted hslot
    change st.sequenceNumber = _
    simp only [sequenceRange]
    omega

-- the number is not reduced when a request is answered, so 7 follows 6
theorem startRequest_inStep_iff (h : st.InStep)
    (hnum : (st.accepted = none ∧ Slotted st.sequenceNumber) ∨ st.Stepped) :
    (st.startRequest messageType filename stage).InStep ↔ st.accepted ≠ some 6 := by
  rcases hnum with ⟨hnone,hslot⟩ | ⟨s,hs,hslot,hstep⟩
  · exact iff_of_true (h.startRequest_first hnone hslot) (by simp [hnone])
  · rw [hs]
    constructor
    · rintro hafter ⟨⟩
      have hnext := (hafter.emitted _ request_mem_startRequest).2
      change st.sequenceNumber < sequenceRange at hnext
      rw [hstep] at hnext
      exact absurd hnext (by decide)
    · exact fun hsix => h.startRequest_next hs hslot hstep fun he => hsix (congrArg some he)

theorem Counted.startRequest (hc : st.Counted) (hstage : stage = .waitingOriginal ∨ stage = .waitingNew)
    (h : (st.startRequest messageType filename stage).InStep) :
    (st.startRequest messageType filename stage).Counted := by
  have hslot : Slotted st.sequenceNumber :=
    h.emitted (st.request messageType filename) request_mem_startRequest
  refine ⟨hc.replies,hc.threads,hc.sender,?_⟩
  rcases hstage with rfl | rfl
  · exact hslot
  · exact hslot

end Request

theorem Counted.enterName (hc : st.Counted) (h : st.InStep) {filename : List UInt8}
    (hs : st.enterName filename = some st') :
    (st'.InStep ↔ st.accepted ≠ some 6) ∧ (st'.InStep → st'.Counted) := by
  have hnum := hc.number
  unfold Menu.enterName at hs
  split at hs
  · rename_i hstage
    rw [NumberOk,hstage] at hnum
    obtain rfl := Option.some.inj hs
    exact ⟨startRequest_inStep_iff h hnum,hc.startRequest (Or.inl rfl)⟩
  · rename_i hstage
    rw [NumberOk,hstage] at hnum
    obtain rfl := Option.some.inj hs
    exact ⟨startRequest_inStep_iff h (Or.inr hnum),hc.startRequest (Or.inr rfl)⟩
  · cases hs

theorem Counted.acts (hc : st.Counted) (h : st.InStep) {e : Event} (hs : st.step e = some st')
    (hname : ∀ filename, e ≠ .enterName filename) : st'.InStep ∧ st'.Counted := by
  have hacts : Acts st st' → st'.InStep ∧ st'.Counted := fun ha => ⟨ha.inStep h,ha.counted hc⟩
  cases e with
  | choose optionVal =>
    simp only [step] at hs
    split_ifs at hs with hstage
    obtain rfl := Option.some.inj hs
    exact hacts (acts_showMenu hc hstage optionVal)
  | read msg =>
    simp only [step] at hs
    split_ifs at hs with hmem
    exact hacts (acts_read hc (hc.replies msg hmem) hs)
  | perform filename file =>
    simp only [step] at hs
    split at hs
    · rename_i optionVal hstage
      obtain rfl := Option.some.inj hs
      exact hacts (acts_perform hc hstage filename file)
    · cases hs
  | timeOut =>
    have hnum := hc.number
    simp only [step] at hs
    split_ifs at hs with hstage
    rw [NumberOk,hstage] at hnum
    obtain rfl := Option.some.inj hs
    exact hacts (acts_quiet rfl rfl rfl rfl hc.sender hnum)
  | enterName filename => exact absurd rfl (hname filename)
  | settle => exact hacts (acts_settle hc hs)
  | spawn =>
    simp only [step] at hs
    split_ifs at hs with hid
    obtain rfl := Option.some.inj hs
    exact ⟨⟨h.emitted,h.followed⟩,hc.spawn hid.1⟩
  | serve => exact hc.serve h hs

theorem step_inStep_iff (hc : st.Counted) (h : st.InStep) {e : Event} (hs : st.step e = some st') :
    (st'.InStep ↔ ¬st.RequestsAfterSix e) ∧ (st'.InStep → st'.Counted) := by
  by_cases hname : ∃ filename, e = .enterName filename
  · obtain ⟨filename,rfl⟩ := hname
    exact hc.enterName h hs
  · have hother : ∀ filename, e ≠ .enterName filename := fun filename he => hname ⟨filename,he⟩
    obtain ⟨hafter,hnext⟩ := hc.acts h hs hother
    refine ⟨iff_of_true hafter fun hsix => ?_,fun _ => hnext⟩
    cases e with
    | enterName filename => exact hother filename rfl
    | _ => exact hsix

theorem start_counted (clientIdentifier : ℤ) {sequenceNumber : ℤ} (h : Slotted sequenceNumber) :
    (start clientIdentifier sequenceNumber).InStep ∧
      (start clientIdentifier sequenceNumber).Counted := by
  constructor
  · constructor
    · intro m hm
      cases hm
    · intro s request hfollow
      cases hfollow
  · constructor
    · intro m hm
      cases hm
    · intro S thread hthread
      cases hthread
    · intro t ht
      cases ht
    · exact h.le

theorem emitted_numbers_in_step_iff (clientIdentifier : ℤ) {sequenceNumber : ℤ}
    (hlo : 0 ≤ sequenceNumber) (hhi : sequenceNumber < sequenceRange) (events : List Event) :
    system.Along (fun _ _ st' => st'.InStep) (start clientIdentifier sequenceNumber) events ↔
      system.Along (fun st e _ => ¬st.RequestsAfterSix e)
        (start clientIdentifier sequenceNumber) events := by
  refine system.along_iff_of_step (I := fun st => st.InStep ∧ st.Counted) ?_
    (start_counted clientIdentifier ⟨hlo,hhi⟩) events
  rintro st e st' ⟨h,hc⟩ hs
  obtain ⟨hiff,hnext⟩ := step_inStep_iff hc h hs
  exact ⟨hiff,fun hafter => ⟨hafter,hnext hafter⟩⟩

def fromClient (serverId : ℤ) (type : MsgType) (number : ℤ) (data : List UInt8) : Msg :=
  (SenderThread.create serverId 1 type number data).msg

def everyFile : Disk := { Disk.empty with pathFileExists := fun _ => true }

-- client 1 chooses RENAME, is given thread 3 and has the original filename accepted
def renameRun (number : ℤ) : List Event :=
  let sync := fromClient nullServerId .handshake number (encodeInt 1)
  [.choose 4,.spawn 3,.serve 3 sync everyFile,.serve 3 sync everyFile,
    .read { sync with serverId := 3,sequenceNumber := 3 },.perform [] none,.enterName [97],
    .serve 3 (fromClient 3 .put (number + 1) [97]) everyFile,
    .read (fromClient 3 .ack (number + 1) []),.settle false,.enterName [98]]

theorem emitted_numbers_in_step_put_under_five :
    (∃ st, system.run (start 1 3) (renameRun 4) = some st ∧
      fromClient 3 .resp 6 [98] ∈ st.toServer) ∧
    system.Along (fun _ _ st' => st'.InStep) (start 1 3) (renameRun 4) := by
  have hrun : (system.run (start 1 3) (renameRun 4)).any (fun st =>
      decide (fromClient 3 .resp 6 [98] ∈ st.toServer)) = true := by
    decide +kernel
  constructor
  · obtain ⟨st,hst,hend⟩ := (Option.any_eq_true _ _).mp hrun
    exact ⟨st,hst,of_decide_eq_true hend⟩
  · apply (emitted_numbers_in_step_iff 1 (by decide) (by decide) _).mpr
    have hclear (st : Menu) (e : Event) (he : decide (st.accepted ≠ some 6) = true) :
        ¬st.RequestsAfterSix e := by
      have hsix : st.accepted ≠ some 6 := of_decide_eq_true he
      cases e with
      | enterName => exact hsix
      | _ => exact id
    apply system.along_of_check hclear
    decide +kernel

theorem rename_after_six_leaves_the_range :
    ¬∀ (clientIdentifier sequenceNumber : ℤ) (events : List Event),
      0 ≤ sequenceNumber → sequenceNumber < sequenceRange →
        system.Along (fun _ _ st' => st'.InStep) (start clientIdentifier sequenceNumber) events := by
  intro h
  have hrun : (system.run (start 1 4) (renameRun 5)).any (fun st =>
      decide (fromClient 3 .resp 7 [98] ∈ st.toServer)) = true := by
    decide +kernel
  obtain ⟨st,hst,hend⟩ := (Option.any_eq_true _ _).mp hrun
  have hslot : Slotted 4 := ⟨by decide,by decide⟩
  have hstep := system.along_final (start_counted 1 hslot).1 (h 1 4 _ (by decide) (by decide)) hst
  exact absurd (hstep.emitted _ (of_decide_eq_true hend)).2 (by decide)

end Menu
end FtpOverUdp
