import FtpOverUdp.UdpClient.Rename

namespace FtpOverUdp

open Library

namespace Rename

def OutcomesAgree (st : Rename) : Prop :=
  ∀ a ∈ st.announced, a.renamed = true ↔ (a.sequenceNumber,a.newFilename) ∈ st.executed

-- the reply that the client is about to take is no HANDSHAKE, and no refusal of a further copy
-- of a new name whose ACK the path has lost
def ReadsOwnReply (x : Session) (st : Rename) (e : Event) : Prop :=
  e = .receive → ∀ msg rest, st.toClient = msg :: rest → msg.serverId = x.serverIdentifier →
    msg.sequenceNumber = st.sequenceNumber → msg.type ≠ .handshake ∧
      (st.stage = .waitingNew → msg.type = .respErr → msg.sequenceNumber ∉ st.lostAcks)

def requestMsg (st : Rename) : Option Msg := st.requestSender.map (·.msg)

def ExecutedNow (st : Rename) : Prop := ∃ path, (st.sequenceNumber,path) ∈ st.executed

def Refusal (n : ℤ) (msg : Msg) : Prop := msg.isText faeText = true ∧ msg.sequenceNumber = n

def Heralded (n : ℤ) (replies : List Msg) : Prop :=
  ∃ before ack after, replies = before ++ ack :: after ∧ ack.type = .ack ∧ ack.sequenceNumber = n ∧
    ∀ msg ∈ before, ¬Refusal n msg

structure Asking (x : Session) (st : Rename) : Prop where
  stage : st.stage = .askingOriginal ∨ st.stage = .waitingOriginal ∨ st.stage = .returned
  idle : st.executed = [] ∧ st.announced = []
  serverId : st.server.serverId = x.serverIdentifier
  state : st.server.currentState = .waitingForRequest ∨ st.server.currentState = .renaming
  request : ∀ sender, st.requestSender = some sender → sender.msg.type = .put ∧
    sender.msg.sequenceNumber ≤ st.sequenceNumber
  toServer : ∀ msg ∈ st.toServer, msg.type = .handshake ∨
    msg.type = .put ∧ msg.sequenceNumber ≤ st.sequenceNumber
  toClient : ∀ msg ∈ st.toClient, msg.type = .handshake ∨
    (msg.serverId = x.serverIdentifier ∧ msg.sequenceNumber ≤ st.sequenceNumber ∧
      (msg.isText faeText = true ∨ msg.type = .ack ∧ st.server.currentState = .renaming ∧
        st.server.sequenceNumber = msg.sequenceNumber))
  unanswered : st.stage = .askingOriginal → ¬st.Answered x
  answer : st.stage = .waitingOriginal → st.Answered x →
    st.serverResponse.isText faeText = true ∨ st.serverResponse.type = .ack ∧
      st.server.currentState = .renaming ∧ st.server.sequenceNumber = st.sequenceNumber

structure Naming (x : Session) (st : Rename) : Prop where
  stage : st.stage = .askingNew ∨ st.stage = .waitingNew ∨ st.stage = .returned
  serverId : st.server.serverId = x.serverIdentifier
  state : st.server.currentState = .renaming
  lower : st.server.sequenceNumber ≤ st.sequenceNumber
  upper : st.sequenceNumber ≤ st.server.sequenceNumber + 1
  fresh : st.stage = .askingNew → st.sequenceNumber = st.server.sequenceNumber + 1
  request : st.stage = .waitingNew → ∃ msg, st.requestMsg = some msg ∧ msg.type = .resp ∧
    msg.sequenceNumber = st.sequenceNumber
  stopped : st.stage ≠ .waitingNew → ∀ sender, st.requestSender = some sender → sender.isAcked = true
  toServer : ∀ msg ∈ st.toServer, msg.type = .handshake ∨
    msg.type = .put ∧ msg.sequenceNumber < st.sequenceNumber ∨
    msg.type = .resp ∧ (msg.sequenceNumber = st.server.sequenceNumber ∨
      msg.sequenceNumber = st.sequenceNumber ∧ st.stage = .waitingNew ∧ st.requestMsg = some msg)
  order : st.toServer.Pairwise fun a b => a.type = .resp → b.type = .resp →
    a.sequenceNumber ≤ b.sequenceNumber
  toClient : ∀ msg ∈ st.toClient, msg.type = .handshake ∨
    (msg.serverId = x.serverIdentifier ∧ msg.sequenceNumber ≤ st.server.sequenceNumber ∧
      (msg.isText faeText = true ∨ msg.type = .ack ∧
        (msg.sequenceNumber = st.sequenceNumber → st.ExecutedNow)))
  herald : st.stage = .waitingNew → st.ExecutedNow → st.sequenceNumber ∈ st.lostAcks ∨
    st.Answered x ∧ st.serverResponse.type = .ack ∨ Heralded st.sequenceNumber st.toClient
  unanswered : st.stage = .askingNew → ¬st.Answered x
  answer : st.stage = .waitingNew → st.Answered x →
    st.server.sequenceNumber = st.sequenceNumber ∧
      (st.serverResponse.type = .ack ↔ st.ExecutedNow)
  past : ∀ r ∈ st.executed, r.1 ≤ st.server.sequenceNumber
  named : ∀ r ∈ st.executed, r.1 = st.sequenceNumber → st.stage = .waitingNew →
    ∃ msg, st.requestMsg = some msg ∧ r.2 = serverPath msg
  told : ∀ a ∈ st.announced, a.sequenceNumber ≤ st.server.sequenceNumber
  agree : st.OutcomesAgree

def Inv (x : Session) (st : Rename) : Prop := Asking x st ∨ Naming x st

variable {x : Session} {st st' : Rename}

theorem Asking.agree (h : Asking x st) : st.OutcomesAgree := by
  intro a ha
  rw [h.idle.2] at ha
  cases ha

theorem Inv.agree (h : Inv x st) : st.OutcomesAgree := h.elim Asking.agree Naming.agree

theorem asking_of_init (h : Init x st) : Asking x st where
  stage := .inl h.stage
  idle := ⟨h.executed,h.announced⟩
  serverId := h.serverId
  state := .inl h.state
  request sender hs := by simp [h.requestSender] at hs
  toServer msg hm := .inl (h.toServer msg hm)
  toClient msg hm := .inl (h.toClient msg hm)
  unanswered _ ha := x.adopted (ha.1.symm.trans h.serverResponse)
  answer hs := by simp [h.stage] at hs

theorem Heralded.append {n : ℤ} {replies : List Msg} (h : Heralded n replies) (more : List Msg) :
    Heralded n (replies ++ more) := by
  obtain ⟨before,ack,after,rfl,hack,hnum,hbefore⟩ := h
  exact ⟨before,ack,after ++ more,by simp,hack,hnum,hbefore⟩

theorem Heralded.tail {n : ℤ} {msg : Msg} {rest : List Msg} (h : Heralded n (msg :: rest)) :
    msg.type = .ack ∧ msg.sequenceNumber = n ∨ ¬Refusal n msg ∧ Heralded n rest := by
  obtain ⟨before,ack,after,he,hack,hnum,hbefore⟩ := h
  cases before with
  | nil =>
    obtain ⟨rfl,_⟩ := List.cons.inj he
    exact .inl ⟨hack,hnum⟩
  | cons b before =>
    obtain ⟨rfl,rfl⟩ := List.cons.inj he
    exact .inr ⟨hbefore msg (by simp),before,ack,after,rfl,hack,hnum,
      fun m hm => hbefore m (by simp [hm])⟩

theorem notifyFileError_spec (server : ServerThread) (currentMsg : Msg) (n : ℤ) :
    ∃ msg, server.notifyFileError currentMsg n = .send msg ∧ msg.isText faeText = true ∧
      msg.serverId = server.serverId ∧ msg.sequenceNumber = n := by
  refine ⟨_,rfl,?_,rfl,rfl⟩
  have htext : (Buffer.copyIn (faeText ++ [0])).cString = faeText := by decide
  simp [Msg.isText,htext]

theorem isText_respErr {msg : Msg} {text : List UInt8} (h : msg.isText text = true) :
    msg.type = .respErr := by
  simp only [Msg.isText,Bool.and_eq_true,decide_eq_true_eq] at h
  exact h.1

theorem serve_spec {disk : Disk} (h : st.serve disk = some st') :
    ∃ msg rest r, st.toServer = msg :: rest ∧ st.server.run msg disk = some r ∧
      st' = { st with
        server := r.1
        toServer := rest
        toClient := st.toClient ++ sentBy r.2
        executed := st.executed ++ renamesOf msg r.2 } := by
  simp only [Rename.serve] at h
  split at h
  · cases h
  · rename_i msg rest hm
    obtain ⟨r,hr,rfl⟩ := Option.map_eq_some_iff.mp h
    exact ⟨msg,rest,r,hm,hr,rfl⟩

theorem receive_spec (h : st.receive x = some st') :
    (st.stage = .waitingOriginal ∨ st.stage = .waitingNew) ∧ ¬st.Answered x ∧
      ∃ msg rest, st.toClient = msg :: rest ∧ st' = { st with
        serverResponse := msg
        toClient := rest } := by
  simp only [Rename.receive] at h
  split_ifs at h with hc
  split at h
  · cases h
  · rename_i msg rest hm
    exact ⟨hc.1,hc.2,msg,rest,hm,(Option.some.inj h).symm⟩

theorem resend_spec (h : st.resend = some st') :
    ∃ sender, st.requestSender = some sender ∧ sender.isAcked = false ∧
      st' = { st with toServer := st.toServer ++ [sender.msg] } := by
  obtain ⟨sender,hs,h⟩ := Option.bind_eq_some_iff.mp h
  split_ifs at h with hacked
  exact ⟨sender,hs,by simpa using hacked,(Option.some.inj h).symm⟩

theorem loseToClient_spec (h : st.loseToClient = some st') :
    ∃ msg rest, st.toClient = msg :: rest ∧ st' = { st with
      toClient := rest
      lostAcks := if msg.type = .ack then st.lostAcks ++ [msg.sequenceNumber] else st.lostAcks } := by
  simp only [Rename.loseToClient] at h
  split at h
  · cases h
  · rename_i msg rest hm
    exact ⟨msg,rest,hm,(Option.some.inj h).symm⟩

theorem waiting_handshake {server : ServerThread} {msg : Msg} {disk : Disk}
    {r : ServerThread.Outcome} (hstate : server.currentState = .waitingForRequest)
    (htype : msg.type = .handshake) (hr : server.run msg disk = some r) :
    r.1 = server ∧ renamesOf msg r.2 = [] ∧ ∀ m ∈ sentBy r.2, m.type = .handshake := by
  simp only [ServerThread.run,hstate,ServerThread.handleRequest,htype] at hr
  obtain ⟨reply,hreply,rfl⟩ := Option.map_eq_some_iff.mp hr
  simp only [ServerThread.startHandshake] at hreply
  split_ifs at hreply
  obtain rfl := Option.some.inj hreply
  refine ⟨rfl,rfl,fun m hm => ?_⟩
  simp only [sentBy,ServerThread.sendMsg,List.filterMap_cons,List.filterMap_nil,
    List.mem_singleton] at hm
  exact hm ▸ rfl

theorem waiting_put {server : ServerThread} {msg : Msg} {disk : Disk} {r : ServerThread.Outcome}
    (hstate : server.currentState = .waitingForRequest) (htype : msg.type = .put)
    (hr : server.run msg disk = some r) :
    r.1.serverId = server.serverId ∧ renamesOf msg r.2 = [] ∧ ∃ reply, sentBy r.2 = [reply] ∧
      reply.serverId = server.serverId ∧ reply.sequenceNumber = msg.sequenceNumber ∧
      (r.1.currentState = .waitingForRequest ∧ reply.isText faeText = true ∨
        reply.type = .ack ∧ r.1.currentState = .renaming ∧
          r.1.sequenceNumber = msg.sequenceNumber) := by
  simp only [ServerThread.run,hstate,ServerThread.handleRequest,htype,Option.some.injEq] at hr
  subst hr
  simp only [ServerThread.startRename]
  split_ifs
  · exact ⟨rfl,rfl,_,rfl,rfl,rfl,.inr ⟨rfl,rfl,rfl⟩⟩
  · obtain ⟨reply,he,htext,hid,hnum⟩ := notifyFileError_spec server msg msg.sequenceNumber
    rw [he]
    exact ⟨rfl,rfl,reply,rfl,hid,hnum,.inl ⟨hstate,htext⟩⟩

-- a server that keeps its state and sends nothing but HANDSHAKEs or repeated ACKs
theorem Asking.quiet (h : Asking x st) {msg : Msg} {rest sent : List Msg}
    (hm : st.toServer = msg :: rest)
    (hsent : ∀ m ∈ sent, m.type = .handshake ∨ (m.serverId = x.serverIdentifier ∧
      m.sequenceNumber ≤ st.sequenceNumber ∧ m.type = .ack ∧
        st.server.currentState = .renaming ∧ st.server.sequenceNumber = m.sequenceNumber)) :
    Asking x { st with
      toServer := rest
      toClient := st.toClient ++ sent } := by
  refine { h with
    toServer := fun m hmem => h.toServer m (hm ▸ List.mem_cons_of_mem msg hmem)
    toClient := fun m hmem => ?_ }
  rcases List.mem_append.mp hmem with hmem | hmem
  · exact h.toClient m hmem
  · exact (hsent m hmem).imp id fun ⟨hid,hle,hack⟩ => ⟨hid,hle,.inr hack⟩

theorem Asking.answerPut (h : Asking x st) {msg reply : Msg} {rest : List Msg}
    {server : ServerThread} (hm : st.toServer = msg :: rest)
    (hstate : st.server.currentState = .waitingForRequest)
    (hle : msg.sequenceNumber ≤ st.sequenceNumber) (hid : server.serverId = st.server.serverId)
    (hrid : reply.serverId = st.server.serverId)
    (hrnum : reply.sequenceNumber = msg.sequenceNumber)
    (hcase : server.currentState = .waitingForRequest ∧ reply.isText faeText = true ∨
      reply.type = .ack ∧ server.currentState = .renaming ∧
        server.sequenceNumber = msg.sequenceNumber) :
    Asking x { st with
      server := server
      toServer := rest
      toClient := st.toClient ++ [reply] } := by
  have hidle : st.server.currentState ≠ .renaming := by simp [hstate]
  refine { h with
    serverId := hid.trans h.serverId
    state := hcase.imp And.left fun hc => hc.2.1
    toServer := fun m hmem => h.toServer m (hm ▸ List.mem_cons_of_mem msg hmem)
    toClient := fun m hmem => ?_
    answer := fun hw ha => .inl ((h.answer hw ha).resolve_right fun hc => hidle hc.2.1) }
  rcases List.mem_append.mp hmem with hmem | hmem
  · exact (h.toClient m hmem).imp id fun ⟨hid,hle,hc⟩ =>
      ⟨hid,hle,.inl (hc.resolve_right fun hc => hidle hc.2.1)⟩
  · obtain rfl := List.mem_singleton.mp hmem
    refine .inr ⟨hrid.trans h.serverId,hrnum ▸ hle,hcase.imp And.right fun hc => ?_⟩
    exact ⟨hc.1,hc.2.1,hc.2.2.trans hrnum.symm⟩

theorem Asking.serve (h : Asking x st) {disk : Disk} (hs : st.serve disk = some st') :
    Asking x st' := by
  obtain ⟨msg,rest,⟨server,effects⟩,hm,hr,rfl⟩ := serve_spec hs
  have htype := h.toServer msg (hm ▸ List.mem_cons_self)
  rcases h.state with hstate | hstate
  · rcases htype with htype | ⟨htype,hle⟩
    · obtain ⟨rfl,hnone,hsent⟩ := waiting_handshake hstate htype hr
      rw [hnone,List.append_nil]
      exact h.quiet hm fun m hmem => .inl (hsent m hmem)
    · obtain ⟨hid,hnone,reply,hsent,hrid,hrnum,hcase⟩ := waiting_put hstate htype hr
      rw [hnone,hsent,List.append_nil]
      exact h.answerPut hm hstate hle hid hrid hrnum hcase
  · rw [ServerThread.run_renaming disk hstate] at hr
    have hreply : ServerThread.RenameReply st.server msg (server,effects) :=
      Option.some.inj hr ▸ ServerThread.handleRename_reply disk
    have hresp : msg.type ≠ .resp := by
      rcases htype with ht | ⟨ht,-⟩ <;> simp [ht]
    cases hreply with
    | ignored =>
      have hquiet := h.quiet hm (List.forall_mem_nil _)
      simpa [sentBy,renamesOf] using hquiet
    | repeated hput hnum =>
      have hnone : renamesOf msg [st.server.sendAck msg] = [] := rfl
      rw [hnone,List.append_nil]
      refine h.quiet hm fun m hmem => .inr ?_
      obtain rfl := List.mem_singleton.mp hmem
      have hle := (htype.resolve_left (by simp [hput])).2
      exact ⟨h.serverId,hle,rfl,hstate,hnum.symm⟩
    | refused ht | existing ht | executed ht => exact absurd ht hresp

theorem Asking.enterOriginal (h : Asking x st) (hstage : st.stage = .askingOriginal)
    (originalFilename : List UInt8) :
    Asking x (st.startRequest x .put originalFilename .waitingOriginal) := by
  refine { h with
    stage := .inr (.inl rfl)
    request := fun sender hs => ?_
    unanswered := nofun
    answer := fun _ ha => absurd ha (h.unanswered hstage) }
  obtain rfl := Option.some.inj hs
  exact ⟨rfl,Int.le_refl _⟩

theorem Asking.resend (h : Asking x st) (hs : st.resend = some st') : Asking x st' := by
  obtain ⟨sender,hsender,_,rfl⟩ := resend_spec hs
  refine { h with toServer := fun m hm => ?_ }
  rcases List.mem_append.mp hm with hm | hm
  · exact h.toServer m hm
  · obtain rfl := List.mem_singleton.mp hm
    exact .inr (h.request sender hsender)

theorem Asking.receive (h : Asking x st) (hread : ReadsOwnReply x st .receive)
    (hs : st.receive x = some st') : Asking x st' := by
  obtain ⟨hstage,_,msg,rest,hm,rfl⟩ := receive_spec hs
  have hwait : st.stage = .waitingOriginal := hstage.resolve_right fun hn => by
    rcases h.stage with hs | hs | hs <;> simp [hs] at hn
  refine { h with
    toClient := fun m hmem => h.toClient m (hm ▸ List.mem_cons_of_mem msg hmem)
    unanswered := fun ha => by simp [hwait] at ha
    answer := fun _ ha => ?_ }
  obtain ⟨hid,hnum⟩ := ha
  rcases h.toClient msg (hm ▸ List.mem_cons_self) with ht | ⟨_,_,ht⟩
  · exact absurd ht (hread rfl msg rest hm hid hnum).1
  · exact ht.imp id fun ⟨hack,hren,hv⟩ => ⟨hack,hren,hv.trans hnum⟩

theorem Asking.loseToClient (h : Asking x st) (hs : st.loseToClient = some st') :
    Asking x st' := by
  obtain ⟨msg,rest,hm,rfl⟩ := loseToClient_spec hs
  exact { h with toClient := fun m hmem => h.toClient m (hm ▸ List.mem_cons_of_mem msg hmem) }

theorem acknowledge_isAcked (st : Rename) (sender : SenderThread)
    (h : st.acknowledge.requestSender = some sender) : sender.isAcked = true := by
  obtain ⟨_,_,rfl⟩ := Option.map_eq_some_iff.mp h
  rfl

-- a reply answers one number only
theorem Answered.same_number (ha : st.Answered x) (ha' : st'.Answered x)
    (hresp : st'.serverResponse = st.serverResponse) :
    st'.sequenceNumber = st.sequenceNumber := by
  rw [← ha.2,← ha'.2,hresp]

theorem Asking.refused (h : Asking x st) (stage : RenameStage)
    (hstage : stage = .askingOriginal ∨ stage = .returned) (ha : st.Answered x) :
    Asking x { st.acknowledge with
      sequenceNumber := st.sequenceNumber + 1
      stage := stage } := by
  have hgrow (n : ℤ) (hn : n ≤ st.sequenceNumber) : n ≤ st.sequenceNumber + 1 := by omega
  refine { h with
    stage := hstage.imp id .inr
    request := fun sender hs => ?_
    toServer := fun m hm => (h.toServer m hm).imp id fun ⟨ht,hn⟩ => ⟨ht,hgrow _ hn⟩
    toClient := fun m hm => (h.toClient m hm).imp id fun ⟨hid,hn,ht⟩ => ⟨hid,hgrow _ hn,ht⟩
    unanswered := fun _ ha' => ?_
    answer := fun hw => by rcases hstage with rfl | rfl <;> cases hw }
  · obtain ⟨was,hwas,rfl⟩ := Option.map_eq_some_iff.mp hs
    exact ⟨(h.request was hwas).1,hgrow _ (h.request was hwas).2⟩
  · have hsame := ha.same_number ha' rfl
    dsimp only at hsame
    omega

theorem Asking.accepted (h : Asking x st) (hren : st.server.currentState = .renaming)
    (hv : st.server.sequenceNumber = st.sequenceNumber) (ha : st.Answered x) :
    Naming x { st.acknowledge with
      sequenceNumber := st.sequenceNumber + 1
      stage := .askingNew } where
  stage := .inl rfl
  serverId := h.serverId
  state := hren
  lower := by dsimp only [acknowledge]; omega
  upper := by dsimp only [acknowledge]; omega
  fresh _ := by dsimp only [acknowledge]; omega
  request := nofun
  stopped _ sender hs := st.acknowledge_isAcked sender hs
  toServer m hm := (h.toServer m hm).imp id fun ⟨ht,hn⟩ => .inl ⟨ht,Int.lt_add_one_of_le hn⟩
  order := by
    refine List.Pairwise.imp_of_mem (R := fun _ _ => True) (fun {a b} ha' _ _ ht => ?_)
      (List.pairwise_of_forall fun _ _ => trivial)
    rcases h.toServer a ha' with hh | ⟨hp,_⟩
    · simp [hh] at ht
    · simp [hp] at ht
  toClient m hm := (h.toClient m hm).imp id fun ⟨hid,hn,ht⟩ =>
    ⟨hid,hv ▸ hn,ht.imp id fun ⟨hack,_,_⟩ => ⟨hack,fun he => by
      dsimp only [acknowledge] at he
      omega⟩⟩
  herald := nofun
  unanswered _ ha' := by
    have hsame := ha.same_number ha' rfl
    dsimp only at hsame
    omega
  answer := nofun
  past r hr := by
    dsimp only [acknowledge] at hr
    rw [h.idle.1] at hr
    cases hr
  named _ _ _ := nofun
  told a ha' := by
    dsimp only [acknowledge] at ha'
    rw [h.idle.2] at ha'
    cases ha'
  agree a ha' := by
    dsimp only [acknowledge] at ha'
    rw [h.idle.2] at ha'
    cases ha'

theorem Asking.settle (h : Asking x st) (hstage : st.stage = .waitingOriginal)
    (ha : st.Answered x) (retries : Bool) : Inv x (st.settleOriginal retries) := by
  rcases h.answer hstage ha with htext | ⟨hack,hren,hv⟩
  · have hne : st.serverResponse.type ≠ .ack := by simp [isText_respErr htext]
    simp only [settleOriginal,if_neg hne,htext,if_true]
    refine .inl (h.refused _ ?_ ha)
    cases retries
    · exact .inr rfl
    · exact .inl rfl
  · simp only [settleOriginal,if_pos hack]
    exact .inr (h.accepted hren hv ha)

theorem Naming.not_executed (h : Naming x st) (hlt : st.server.sequenceNumber < st.sequenceNumber) :
    ¬st.ExecutedNow := by
  rintro ⟨path,hpath⟩
  have := h.past _ hpath
  dsimp only at this
  omega

theorem Naming.enterNew (h : Naming x st) (hstage : st.stage = .askingNew)
    (newFilename : List UInt8) : Naming x (st.startRequest x .resp newFilename .waitingNew) := by
  have hfresh := h.fresh hstage
  have hnew : ¬st.ExecutedNow := h.not_executed (by omega)
  refine { h with
    stage := .inr (.inl rfl)
    fresh := nofun
    request := fun _ => ⟨_,rfl,rfl,rfl⟩
    stopped := fun hne => absurd rfl hne
    toServer := fun m hm => (h.toServer m hm).imp id fun hc => hc.imp id fun ⟨ht,hn⟩ =>
      ⟨ht,.inl (hn.resolve_right fun ⟨_,hw,_⟩ => by simp [hstage] at hw)⟩
    herald := fun _ he => absurd he hnew
    unanswered := nofun
    answer := fun _ ha => absurd ha (h.unanswered hstage)
    named := fun r hr he _ => absurd ⟨r.2,he ▸ hr⟩ hnew }

theorem Naming.resend (h : Naming x st) (hs : st.resend = some st') : Naming x st' := by
  obtain ⟨sender,hsender,hacked,rfl⟩ := resend_spec hs
  have hwait : st.stage = .waitingNew := by
    by_contra hne
    simp [h.stopped hne sender hsender] at hacked
  have hreq : st.requestMsg = some sender.msg := by simp [requestMsg,hsender]
  obtain ⟨msg,hmsg,htype,hnum⟩ := h.request hwait
  obtain rfl := Option.some.inj (hreq.symm.trans hmsg)
  have hbound : ∀ a ∈ st.toServer, a.type = .resp → a.sequenceNumber ≤ st.sequenceNumber := by
    intro a ha hresp
    have hlow := h.lower
    rcases h.toServer a ha with ht | ⟨ht,_⟩ | ⟨_,hn | ⟨hn,_⟩⟩
    · simp [ht] at hresp
    · simp [ht] at hresp
    · omega
    · omega
  refine { h with
    toServer := fun m hm => ?_
    order := List.pairwise_append.mpr ⟨h.order,List.pairwise_singleton ..,fun a ha b hb hra _ => ?_⟩ }
  · rcases List.mem_append.mp hm with hm | hm
    · exact h.toServer m hm
    · obtain rfl := List.mem_singleton.mp hm
      exact .inr (.inr ⟨htype,.inr ⟨hnum,hwait,hreq⟩⟩)
  · obtain rfl := List.mem_singleton.mp hb
    exact hnum ▸ hbound a ha hra

theorem Naming.receive (h : Naming x st) (hread : ReadsOwnReply x st .receive)
    (hs : st.receive x = some st') : Naming x st' := by
  obtain ⟨hstage,hun,msg,rest,hm,rfl⟩ := receive_spec hs
  have hwait : st.stage = .waitingNew := hstage.resolve_left fun hn => by
    rcases h.stage with hs | hs | hs <;> simp [hs] at hn
  have hhead := h.toClient msg (hm ▸ List.mem_cons_self)
  have hherald : st.ExecutedNow → st.sequenceNumber ∈ st.lostAcks ∨
      msg.type = .ack ∧ msg.sequenceNumber = st.sequenceNumber ∨
        ¬Refusal st.sequenceNumber msg ∧ Heralded st.sequenceNumber rest := by
    intro he
    rcases h.herald hwait he with hl | ⟨ha,_⟩ | hh
    · exact .inl hl
    · exact absurd ha hun
    · exact .inr (hm ▸ hh).tail
  refine { h with
    toClient := fun m hmem => h.toClient m (hm ▸ List.mem_cons_of_mem msg hmem)
    herald := fun _ he => ?_
    unanswered := fun ha => by simp [hwait] at ha
    answer := fun _ ha => ?_ }
  · rcases hherald he with hl | ⟨hack,hnum⟩ | ⟨_,hh⟩
    · exact .inl hl
    · have hid := (hhead.resolve_left (by simp [hack])).1
      exact .inr (.inl ⟨⟨hid,hnum⟩,hack⟩)
    · exact .inr (.inr hh)
  · obtain ⟨hid,hnum⟩ := ha
    obtain ⟨hshake,hlate⟩ := hread rfl msg rest hm hid hnum
    obtain ⟨_,hle,hkind⟩ := hhead.resolve_left hshake
    have hlow := h.lower
    dsimp only at hnum
    refine ⟨by dsimp only; omega,?_⟩
    rcases hkind with htext | ⟨hack,hdone⟩
    · have herr := isText_respErr htext
      refine iff_of_false (by simp [herr]) fun he => ?_
      rcases hherald he with hl | ⟨hack,_⟩ | ⟨hno,_⟩
      · exact hlate hwait herr (hnum ▸ hl)
      · simp [herr] at hack
      · exact hno ⟨htext,hnum⟩
    · exact iff_of_true hack (hdone hnum)

theorem Naming.loseToClient (h : Naming x st) (hs : st.loseToClient = some st') :
    Naming x st' := by
  obtain ⟨msg,rest,hm,rfl⟩ := loseToClient_spec hs
  refine { h with
    toClient := fun m hmem => h.toClient m (hm ▸ List.mem_cons_of_mem msg hmem)
    herald := fun hw he => ?_ }
  rcases h.herald hw he with hl | ha | hh
  · left
    dsimp only
    split_ifs
    · exact List.mem_append_left _ hl
    · exact hl
  · exact .inr (.inl ha)
  · rcases (hm ▸ hh).tail with ⟨hack,hnum⟩ | ⟨_,hh⟩
    · left
      dsimp only
      rw [if_pos hack,hnum]
      exact List.mem_append_right _ (List.mem_singleton_self _)
    · exact .inr (.inr hh)

theorem announce_announced {msg : Msg} (hmsg : st.requestMsg = some msg) (renamed : Bool) :
    (st.announce renamed).announced =
      st.announced ++ [⟨st.sequenceNumber,serverPath msg,renamed⟩] := by
  obtain ⟨sender,hsender,rfl⟩ := Option.map_eq_some_iff.mp hmsg
  simp [announce,hsender]

theorem Naming.agree_announced (h : Naming x st) (hwait : st.stage = .waitingNew) {renamed : Bool}
    (hren : renamed = true ↔ st.ExecutedNow) : (st.announce renamed).OutcomesAgree := by
  obtain ⟨msg,hmsg,_,_⟩ := h.request hwait
  intro a hmem
  rw [announce_announced hmsg] at hmem
  rcases List.mem_append.mp hmem with hmem | hmem
  · exact h.agree a hmem
  · obtain rfl := List.mem_singleton.mp hmem
    refine hren.trans ⟨fun ⟨path,hpath⟩ => ?_,fun he => ⟨_,he⟩⟩
    obtain ⟨msg',hmsg',hname⟩ := h.named _ hpath rfl hwait
    obtain rfl := Option.some.inj (hmsg.symm.trans hmsg')
    exact hname ▸ hpath

theorem Naming.told_announce (h : Naming x st) (hwait : st.stage = .waitingNew)
    (hv : st.server.sequenceNumber = st.sequenceNumber) (renamed : Bool) :
    ∀ a ∈ (st.announce renamed).announced, a.sequenceNumber ≤ st.server.sequenceNumber := by
  obtain ⟨msg,hmsg,_,_⟩ := h.request hwait
  intro a hmem
  rw [announce_announced hmsg] at hmem
  rcases List.mem_append.mp hmem with hmem | hmem
  · exact h.told a hmem
  · obtain rfl := List.mem_singleton.mp hmem
    exact Int.le_of_eq hv.symm

theorem Naming.toServer_answered (h : Naming x st)
    (hv : st.server.sequenceNumber = st.sequenceNumber) {n : ℤ} (hle : st.sequenceNumber ≤ n) :
    ∀ m ∈ st.toServer, m.type = .handshake ∨ m.type = .put ∧ m.sequenceNumber < n ∨
      m.type = .resp ∧ m.sequenceNumber = st.server.sequenceNumber := by
  intro m hm
  rcases h.toServer m hm with ht | ⟨ht,hlt⟩ | ⟨ht,hnum⟩
  · exact .inl ht
  · exact .inr (.inl ⟨ht,Int.lt_of_lt_of_le hlt hle⟩)
  · exact .inr (.inr ⟨ht,hnum.elim id fun hc => hc.1.trans hv.symm⟩)

theorem Naming.announced (h : Naming x st) (hwait : st.stage = .waitingNew) (ha : st.Answered x)
    {renamed : Bool} (hren : renamed = true ↔ st.ExecutedNow) {stage : RenameStage} {n : ℤ}
    (hnext : stage = .returned ∧ n = st.sequenceNumber ∨
      stage = .askingNew ∧ n = st.sequenceNumber + 1) :
    Naming x { st.announce renamed with
      stage := stage
      sequenceNumber := n } := by
  have hv := (h.answer hwait ha).1
  have hstage : stage ≠ .waitingNew := by rcases hnext with ⟨rfl,_⟩ | ⟨rfl,_⟩ <;> simp
  have hn : st.sequenceNumber ≤ n ∧ n ≤ st.sequenceNumber + 1 := by
    rcases hnext with ⟨_,rfl⟩ | ⟨_,rfl⟩ <;> omega
  have hasking (hask : stage = .askingNew) : n = st.sequenceNumber + 1 :=
    (hnext.resolve_left fun hc => by simp [hc.1] at hask).2
  refine { h with
    stage := hnext.elim (fun hc => .inr (.inr hc.1)) fun hc => .inl hc.1
    lower := by dsimp only [announce,acknowledge]; omega
    upper := by dsimp only [announce,acknowledge]; omega
    fresh := fun hask => (hasking hask).trans (by rw [← hv]; rfl)
    request := fun hw => absurd hw hstage
    stopped := fun _ sender hs => st.acknowledge_isAcked sender hs
    toServer := fun m hm => (h.toServer_answered hv hn.1 m hm).imp id
      fun hc => hc.imp id fun ⟨ht,hnum⟩ => ⟨ht,.inl hnum⟩
    toClient := fun m hm => ?_
    herald := fun hw => absurd hw hstage
    unanswered := fun hask ha' => ?_
    answer := fun hw => absurd hw hstage
    named := fun _ _ _ hw => absurd hw hstage
    told := h.told_announce hwait hv renamed
    agree := h.agree_announced hwait hren }
  · refine (h.toClient m hm).imp id fun ⟨hid,hle,hkind⟩ => ⟨hid,hle,hkind.imp id fun ⟨hack,hdone⟩ =>
      ⟨hack,fun he => ?_⟩⟩
    dsimp only at he
    obtain rfl : n = st.sequenceNumber := by omega
    exact hdone he
  · have hsame := ha.same_number ha' rfl
    have hnext := hasking hask
    dsimp only at hsame
    omega

theorem Naming.settle (h : Naming x st) (hwait : st.stage = .waitingNew) (ha : st.Answered x)
    (retries : Bool) : Naming x (st.settleNew retries) := by
  have hack := (h.answer hwait ha).2
  unfold settleNew
  split_ifs with htype hretry
  · exact h.announced hwait ha (iff_of_true rfl (hack.mp htype)) (.inl ⟨rfl,rfl⟩)
  · exact h.announced hwait ha (iff_of_false Bool.false_ne_true (mt hack.mpr htype)) (.inr ⟨rfl,rfl⟩)
  · exact h.announced hwait ha (iff_of_false Bool.false_ne_true (mt hack.mpr htype)) (.inl ⟨rfl,rfl⟩)

theorem Naming.repeats (h : Naming x st) {msg : Msg} {rest sent : List Msg}
    (hm : st.toServer = msg :: rest)
    (hsent : ∀ m ∈ sent, m.serverId = x.serverIdentifier ∧
      m.sequenceNumber ≤ st.server.sequenceNumber ∧ (m.isText faeText = true ∨
        m.type = .ack ∧ m.sequenceNumber ≠ st.sequenceNumber)) :
    Naming x { st with
      toServer := rest
      toClient := st.toClient ++ sent } := by
  refine { h with
    toServer := fun m hmem => h.toServer m (hm ▸ List.mem_cons_of_mem msg hmem)
    order := (List.pairwise_cons.mp (hm ▸ h.order)).2
    toClient := fun m hmem => ?_
    herald := fun hw he => (h.herald hw he).imp id fun hc => hc.imp id fun hh => hh.append _ }
  rcases List.mem_append.mp hmem with hmem | hmem
  · exact h.toClient m hmem
  · obtain ⟨hid,hle,hkind⟩ := hsent m hmem
    exact .inr ⟨hid,hle,hkind.imp id fun ⟨hack,hne⟩ => ⟨hack,fun he => absurd he hne⟩⟩

theorem Naming.current_request (h : Naming x st) {msg : Msg} {rest : List Msg}
    (hm : st.toServer = msg :: rest) (htype : msg.type = .resp)
    (hne : msg.sequenceNumber ≠ st.server.sequenceNumber) :
    msg.sequenceNumber = st.sequenceNumber ∧ st.stage = .waitingNew ∧ st.requestMsg = some msg := by
  rcases h.toServer msg (hm ▸ List.mem_cons_self) with ht | ⟨ht,_⟩ | ⟨_,hn | hc⟩
  · simp [ht] at htype
  · simp [ht] at htype
  · exact absurd hn hne
  · exact hc

theorem Naming.served_rest (h : Naming x st) {msg : Msg} {rest : List Msg}
    (hm : st.toServer = msg :: rest) (htype : msg.type = .resp)
    (hc : msg.sequenceNumber = st.sequenceNumber)
    (hlt : st.server.sequenceNumber < st.sequenceNumber) :
    ∀ m ∈ rest, m.type = .handshake ∨ m.type = .put ∧ m.sequenceNumber < st.sequenceNumber ∨
      m.type = .resp ∧ m.sequenceNumber = st.sequenceNumber := by
  have horder := h.order
  rw [hm] at horder
  intro m hmem
  rcases h.toServer m (hm ▸ List.mem_cons_of_mem msg hmem) with ht | ht | ⟨ht,hn⟩
  · exact .inl ht
  · exact .inr (.inl ht)
  · have hle := (List.pairwise_cons.mp horder).1 m hmem htype ht
    refine .inr (.inr ⟨ht,?_⟩)
    rcases hn with hn | ⟨hn,_⟩
    · omega
    · exact hn

theorem OutcomesAgree.append {more : List (ℤ × List UInt8)} (h : st.OutcomesAgree)
    (hmore : ∀ a ∈ st.announced, ∀ r ∈ more, a.sequenceNumber < r.1) :
    ∀ a ∈ st.announced, a.renamed = true ↔
      (a.sequenceNumber,a.newFilename) ∈ st.executed ++ more := by
  intro a ha
  refine (h a ha).trans (List.mem_append.trans (or_iff_left fun hr => ?_)).symm
  exact absurd (hmore a ha _ hr) (Int.lt_irrefl _)

section Advance

variable {reply : Msg} {more : List (ℤ × List UInt8)} {path : List UInt8} (h : Naming x st)
  (hlt : st.server.sequenceNumber < st.sequenceNumber)
  (hnum : reply.sequenceNumber = st.sequenceNumber)
  (hkind : reply.isText faeText = true ∧ more = [] ∨
    reply.type = .ack ∧ more = [(st.sequenceNumber,path)])
include h hlt hnum hkind

-- the reply is the first under this number, whatever older replies are still in flight
theorem Naming.advance_toClient (hid : reply.serverId = x.serverIdentifier) :
    ∀ m ∈ st.toClient ++ [reply], m.type = .handshake ∨
      (m.serverId = x.serverIdentifier ∧ m.sequenceNumber ≤ st.sequenceNumber ∧
        (m.isText faeText = true ∨ m.type = .ack ∧ (m.sequenceNumber = st.sequenceNumber →
          ∃ path, (st.sequenceNumber,path) ∈ st.executed ++ more))) := by
  intro m hmem
  rcases List.mem_append.mp hmem with hmem | hmem
  · refine (h.toClient m hmem).imp id fun ⟨hid,hle,hk⟩ => ⟨hid,Int.le_trans hle (Int.le_of_lt hlt),?_⟩
    refine hk.imp id fun ⟨hack,_⟩ => ⟨hack,fun he => ?_⟩
    omega
  · obtain rfl := List.mem_singleton.mp hmem
    refine .inr ⟨hid,Int.le_of_eq hnum,hkind.imp And.left fun ⟨hack,hmore⟩ => ⟨hack,fun _ => ?_⟩⟩
    exact ⟨_,List.mem_append_right _ (hmore ▸ List.mem_singleton_self _)⟩

theorem Naming.advance_herald (he : ∃ path, (st.sequenceNumber,path) ∈ st.executed ++ more) :
    Heralded st.sequenceNumber (st.toClient ++ [reply]) := by
  rcases hkind with ⟨-,rfl⟩ | ⟨hack,rfl⟩
  · rw [List.append_nil] at he
    exact absurd he (h.not_executed hlt)
  · refine ⟨st.toClient,reply,[],rfl,hack,hnum,fun m hmem ⟨htext,hn⟩ => ?_⟩
    have hle := ((h.toClient m hmem).resolve_left (by simp [isText_respErr htext])).2.1
    omega

end Advance

theorem Naming.advance (h : Naming x st) {msg reply : Msg} {rest : List Msg}
    {more : List (ℤ × List UInt8)} (hm : st.toServer = msg :: rest) (htype : msg.type = .resp)
    (hne : msg.sequenceNumber ≠ st.server.sequenceNumber)
    (hid : reply.serverId = x.serverIdentifier) (hnum : reply.sequenceNumber = msg.sequenceNumber)
    (hkind : reply.isText faeText = true ∧ more = [] ∨
      reply.type = .ack ∧ more = [(msg.sequenceNumber,serverPath msg)]) :
    Naming x { st with
      server := { st.server with sequenceNumber := msg.sequenceNumber }
      toServer := rest
      toClient := st.toClient ++ [reply]
      executed := st.executed ++ more } := by
  have hlow := h.lower
  have hup := h.upper
  obtain ⟨hc,hwait,hreq⟩ := h.current_request hm htype hne
  rw [hc] at hne hnum hkind
  have hlt : st.server.sequenceNumber < st.sequenceNumber := by omega
  have hmore : ∀ r ∈ more, r = (st.sequenceNumber,serverPath msg) := by
    rcases hkind with ⟨-,rfl⟩ | ⟨-,rfl⟩ <;> simp
  rw [hc]
  refine { h with
    lower := Int.le_refl _
    upper := by dsimp only; omega
    fresh := fun ha => by simp [hwait] at ha
    toServer := fun m hmem => (h.served_rest hm htype hc hlt m hmem).imp id
      fun hk => hk.imp id fun ⟨ht,hn⟩ => ⟨ht,.inl hn⟩
    order := (List.pairwise_cons.mp (hm ▸ h.order)).2
    toClient := h.advance_toClient hlt hnum hkind hid
    herald := fun _ he => .inr (.inr (h.advance_herald hlt hnum hkind he))
    answer := fun hw ha => absurd (h.answer hw ha).1 (by omega)
    past := fun r hr => ?_
    named := fun r hr he hw => ?_
    told := fun a ha => Int.le_trans (h.told a ha) (Int.le_of_lt hlt)
    agree := h.agree.append fun a ha r hr => ?_ }
  · rcases List.mem_append.mp hr with hr | hr
    · exact Int.le_trans (h.past r hr) (Int.le_of_lt hlt)
    · exact Int.le_of_eq (congrArg Prod.fst (hmore r hr))
  · rcases List.mem_append.mp hr with hr | hr
    · exact absurd ⟨r.2,he ▸ hr⟩ (h.not_executed hlt)
    · exact ⟨msg,hreq,by rw [hmore r hr]⟩
  · rw [hmore r hr]
    exact Int.lt_of_le_of_lt (h.told a ha) hlt

theorem Naming.serve (h : Naming x st) {disk : Disk} (hs : st.serve disk = some st') :
    Naming x st' := by
  obtain ⟨msg,rest,r,hm,hr,rfl⟩ := serve_spec hs
  rw [ServerThread.run_renaming disk h.state] at hr
  have hreply : ServerThread.RenameReply st.server msg r :=
    Option.some.inj hr ▸ ServerThread.handleRename_reply disk
  cases hreply with
  | ignored =>
    have hrest := h.repeats hm (List.forall_mem_nil _)
    simpa [sentBy,renamesOf] using hrest
  | repeated htype hnum =>
    have hlt : msg.sequenceNumber < st.sequenceNumber := by
      rcases h.toServer msg (hm ▸ List.mem_cons_self) with ht | ⟨_,hlt⟩ | ⟨ht,_⟩
      · simp [ht] at htype
      · exact hlt
      · simp [ht] at htype
    simp only [renamesOf,ServerThread.sendAck,ServerThread.sendMsg,List.filterMap_cons,
      List.filterMap_nil,List.append_nil]
    refine h.repeats hm fun m hmem => ?_
    obtain rfl := List.mem_singleton.mp hmem
    exact ⟨h.serverId,Int.le_of_eq hnum,.inr ⟨rfl,Int.ne_of_lt hlt⟩⟩
  | refused htype hnum =>
    obtain ⟨reply,he,htext,hid,hn⟩ := notifyFileError_spec st.server msg msg.sequenceNumber
    rw [he]
    simp only [renamesOf,List.filterMap_cons,List.filterMap_nil,List.append_nil]
    refine h.repeats hm fun m hmem => ?_
    obtain rfl := List.mem_singleton.mp hmem
    exact ⟨hid.trans h.serverId,Int.le_of_eq (hn.trans hnum),.inl htext⟩
  | existing htype hne =>
    obtain ⟨reply,he,htext,hid,hn⟩ := notifyFileError_spec st.server msg msg.sequenceNumber
    rw [he]
    exact h.advance hm htype hne (hid.trans h.serverId) hn (.inl ⟨htext,rfl⟩)
  | executed htype hne => exact h.advance hm htype hne h.serverId rfl (.inr ⟨rfl,rfl⟩)

theorem Naming.loseToServer (h : Naming x st) :
    Naming x { st with toServer := st.toServer.tail } :=
  { h with
    toServer := fun m hm => h.toServer m (List.mem_of_mem_tail hm)
    order := h.order.sublist (List.tail_sublist _) }

theorem Asking.loseToServer (h : Asking x st) :
    Asking x { st with toServer := st.toServer.tail } :=
  { h with toServer := fun m hm => h.toServer m (List.mem_of_mem_tail hm) }

theorem Asking.step (h : Asking x st) {e : Event} (hread : ReadsOwnReply x st e)
    (hs : st.step x e = some st') : Inv x st' := by
  cases e with
  | enterOriginal originalFilename =>
    simp only [Rename.step] at hs
    split_ifs at hs with hstage
    exact Option.some.inj hs ▸ .inl (h.enterOriginal hstage _)
  | enterNew newFilename =>
    simp only [Rename.step] at hs
    split_ifs at hs with hstage
    rcases h.stage with ht | ht | ht <;> simp [hstage] at ht
  | resend => exact .inl (h.resend hs)
  | receive => exact .inl (h.receive hread hs)
  | settle retries =>
    simp only [Rename.step] at hs
    split_ifs at hs with ha
    split at hs
    · rename_i hstage
      exact Option.some.inj hs ▸ h.settle hstage ha retries
    · rename_i hstage
      rcases h.stage with ht | ht | ht <;> simp [hstage] at ht
    · cases hs
  | serve disk => exact .inl (h.serve hs)
  | loseToServer => exact Option.some.inj hs ▸ .inl h.loseToServer
  | loseToClient => exact .inl (h.loseToClient hs)

theorem Naming.step (h : Naming x st) {e : Event} (hread : ReadsOwnReply x st e)
    (hs : st.step x e = some st') : Naming x st' := by
  cases e with
  | enterOriginal originalFilename =>
    simp only [Rename.step] at hs
    split_ifs at hs with hstage
    rcases h.stage with ht | ht | ht <;> simp [hstage] at ht
  | enterNew newFilename =>
    simp only [Rename.step] at hs
    split_ifs at hs with hstage
    exact Option.some.inj hs ▸ h.enterNew hstage _
  | resend => exact h.resend hs
  | receive => exact h.receive hread hs
  | settle retries =>
    simp only [Rename.step] at hs
    split_ifs at hs with ha
    split at hs
    · rename_i hstage
      rcases h.stage with ht | ht | ht <;> simp [hstage] at ht
    · rename_i hstage
      exact Option.some.inj hs ▸ h.settle hstage ha retries
    · cases hs
  | serve disk => exact h.serve hs
  | loseToServer => exact Option.some.inj hs ▸ h.loseToServer
  | loseToClient => exact h.loseToClient hs

theorem Inv.step (h : Inv x st) {e : Event} (hread : ReadsOwnReply x st e)
    (hs : st.step x e = some st') : Inv x st' :=
  h.elim (fun h => h.step hread hs) fun h => .inr (h.step hread hs)

theorem rename_outcomes_agree (h : (system x).ReachableUnder (ReadsOwnReply x) st) :
    st.OutcomesAgree :=
  Inv.agree <| (system x).reachableUnder_invariant (fun _ hi => .inl (asking_of_init hi))
    (fun _ _ _ hi hread hs => hi.step hread hs) h

instance (st : Rename) (e : Event) : Decidable (ReadsOwnReply x st e) :=
  match e,hl : st.toClient with
  | .receive,msg :: rest =>
    decidable_of_iff (msg.serverId = x.serverIdentifier → msg.sequenceNumber = st.sequenceNumber →
        msg.type ≠ .handshake ∧
          (st.stage = .waitingNew → msg.type = .respErr → msg.sequenceNumber ∉ st.lostAcks))
      ⟨fun h _ m r hm => by
        obtain ⟨rfl,rfl⟩ := List.cons.inj (hl.symm.trans hm)
        exact h,fun h => h rfl msg rest hl⟩
  | .receive,[] => isTrue fun _ m r hm => by simp [hl] at hm
  | .enterOriginal _,_ | .enterNew _,_ | .resend,_ | .settle _,_ | .serve _,_
  | .loseToServer,_ | .loseToClient,_ => isTrue nofun

def session : Session := ⟨3,1,by decide⟩

def begin : Rename where
  stage := .askingOriginal
  sequenceNumber := 0
  requestSender := none
  serverResponse := ⟨0,nullServerId,.ack,0,0,Buffer.copyIn []⟩
  server := { ServerThread.create 3 with currentState := .waitingForRequest }
  toServer := []
  toClient := []
  executed := []
  lostAcks := []
  announced := []

theorem init_begin : Init session begin :=
  ⟨rfl,rfl,rfl,rfl,rfl,by simp [begin],by simp [begin],rfl,rfl,rfl⟩

def present (path : List UInt8) : Disk :=
  { Disk.empty with pathFileExists := fun p => p = ServerThread.filesDirectory ++ path }

theorem rename_outcomes_agree_renamed : ∃ st, (system session).ReachableUnder
    (ReadsOwnReply session) st ∧ st.announced.map (·.renamed) = [true] ∧ st.OutcomesAgree := by
  let events : List Event := [.enterOriginal [97],.resend,.serve (present [97]),.receive,
    .settle false,.enterNew [98],.resend,.serve (present [97]),.receive,.settle false]
  have hcheck : (system session).check (fun st e => decide (ReadsOwnReply session st e)) begin
      events = true := by decide
  have hrun : ((system session).run begin events).any (fun st =>
      decide (st.announced.map (·.renamed) = [true])) = true := by decide
  obtain ⟨st,hst,hend⟩ := (Option.any_eq_true _ _).mp hrun
  have hr := (system session).reachableUnder_of_run init_begin
    ((system session).along_of_check (fun _ _ h => of_decide_eq_true h) hcheck) hst
  exact ⟨st,hr,of_decide_eq_true hend,rename_outcomes_agree hr⟩

theorem repeated_rename_refused : ¬∀ x st, (system x).Reachable st → st.OutcomesAgree := by
  intro h
  let events : List Event := [.enterOriginal [97],.resend,.serve (present [97]),.receive,
    .settle false,.enterNew [98],.resend,.resend,.serve (present [97]),.serve (present [98]),
    .loseToClient,.receive,.settle false]
  have hrun : ((system session).run begin events).any (fun st =>
      st.announced.any (fun a => !a.renamed &&
        decide ((a.sequenceNumber,a.newFilename) ∈ st.executed))) = true := by decide
  obtain ⟨st,hst,hend⟩ := (Option.any_eq_true _ _).mp hrun
  obtain ⟨a,ha,hbad⟩ := List.any_eq_true.mp hend
  simp only [Bool.and_eq_true,Bool.not_eq_true',decide_eq_true_eq] at hbad
  have hagree := h session st ((system session).reachable_of_run init_begin hst) a ha
  rw [hbad.1] at hagree
  exact Bool.false_ne_true (hagree.mpr hbad.2)

end Rename
end FtpOverUdp
