import FtpOverUdp.UdpServer.ServerThread

namespace FtpOverUdp

theorem Receiver.handleMsg_sent {self : Receiver} {msg : Msg} {handled : Receiver.Handled}
    (h : self.handleMsg msg = some handled) : ∀ reply ∈ handled.sent, reply.type = .ack := by
  have hack (n : ℤ) : ∀ reply ∈ [self.ackMsg n], reply.type = .ack := by
    intro reply hr
    rw [List.mem_singleton.mp hr]
    rfl
  unfold Receiver.handleMsg at h
  split_ifs at h
  · obtain rfl := Option.some.inj h
    exact hack _
  · obtain rfl := Option.some.inj h
    unfold Receiver.handleEof
    split_ifs
    · exact hack _
    · simp
  · dsimp only [Receiver.handleData] at h
    split at h
    · obtain ⟨slot,_,h⟩ := Option.bind_eq_some_iff.mp h
      split_ifs at h
      · exact Option.some.inj h ▸ hack _
      · obtain ⟨_,_,rfl⟩ := Option.map_eq_some_iff.mp h
        exact hack _
    · exact Option.some.inj h ▸ hack _

namespace ServerThread

def Silent (effects : List Effect) : Prop :=
  ∀ reply, Effect.send reply ∈ effects → reply.type ≠ .handshake

variable {self : ServerThread} {currentMsg : Msg} {out : Outcome} {disk : Disk}

theorem silent_nil : Silent [] := nofun

theorem silent_sendMsg {type : MsgType} {sequenceNumber : ℤ} {data : List UInt8}
    (h : type ≠ .handshake) : Silent [self.sendMsg currentMsg type sequenceNumber data] := by
  intro reply hr
  rw [Effect.send.inj (List.mem_singleton.mp hr)]
  exact h

theorem startSender_spec {self' : ServerThread} {payloadData : List UInt8}
    (h : self.startSender currentMsg payloadData = some self') :
    self'.serverId = self.serverId ∧ self'.currentState = self.currentState := by
  simp only [startSender,Option.bind_eq_some_iff,Option.map_eq_some_iff] at h
  obtain ⟨_,_,_,_,_,_,rfl⟩ := h
  exact ⟨rfl,rfl⟩

structure Begun (before : ServerThread) (out : Outcome) : Prop where
  serverId : out.1.serverId = before.serverId
  state : out.1.currentState ≠ .initializing ∧ out.1.currentState ≠ .startingHandshake

theorem begun_sendFile (h : self.sendFile currentMsg disk = some out) :
    Begun self out ∧ Silent out.2 := by
  dsimp only [sendFile] at h
  split at h
  · rename_i hs
    obtain ⟨_,_,hs⟩ := Option.bind_eq_some_iff.mp hs
    obtain ⟨hid,hstate⟩ := startSender_spec hs
    exact Option.some.inj h ▸ ⟨⟨hid,by simp [hstate]⟩,silent_nil⟩
  · exact Option.some.inj h ▸ ⟨⟨rfl,by simp⟩,silent_sendMsg (by simp)⟩

theorem begun_startRename (hstate : self.currentState = .waitingForRequest) :
    Begun self (self.startRename currentMsg disk) ∧ Silent (self.startRename currentMsg disk).2 := by
  dsimp only [startRename]
  split_ifs
  · exact ⟨⟨rfl,by simp⟩,silent_sendMsg (by simp)⟩
  · exact ⟨⟨rfl,by simp [hstate]⟩,silent_sendMsg (by simp)⟩

theorem begun_handleRequest (hstate : self.currentState = .waitingForRequest)
    (htype : currentMsg.type ≠ .handshake) (h : self.handleRequest currentMsg disk = some out) :
    Begun self out ∧ Silent out.2 := by
  have hkeep : Begun self (self,[]) := ⟨rfl,by simp [hstate]⟩
  unfold handleRequest at h
  split at h
  · rename_i ht
    exact absurd ht htype
  · obtain ⟨started,hs,rfl⟩ := Option.map_eq_some_iff.mp h
    obtain ⟨_,_,hs⟩ := Option.bind_eq_some_iff.mp hs
    obtain ⟨hid,hst⟩ := startSender_spec hs
    exact ⟨⟨hid,by simp [hst]⟩,silent_nil⟩
  · exact begun_sendFile h
  · obtain ⟨_,_,rfl⟩ := Option.map_eq_some_iff.mp h
    exact ⟨⟨rfl,by simp⟩,silent_sendMsg (by simp)⟩
  · exact Option.some.inj h ▸ begun_startRename hstate
  · exact Option.some.inj h ▸ ⟨⟨rfl,by simp [hstate]⟩,silent_sendMsg (by simp)⟩
  · exact Option.some.inj h ▸ ⟨⟨rfl,by simp [hstate]⟩,silent_sendMsg (by simp)⟩
  · exact Option.some.inj h ▸ ⟨hkeep,silent_nil⟩

theorem begun_dispatchToReceiver (hstate : self.currentState = .receiving)
    (h : self.dispatchToReceiver currentMsg = some out) : Begun self out ∧ Silent out.2 := by
  obtain ⟨receiver,_,h⟩ := Option.bind_eq_some_iff.mp h
  obtain ⟨handled,hh,h⟩ := Option.bind_eq_some_iff.mp h
  have hsent := Receiver.handleMsg_sent hh
  have hsilent : Silent (handled.sent.map Effect.send) := by
    intro reply hr
    obtain ⟨msg,hm,he⟩ := List.mem_map.mp hr
    simp [← Effect.send.inj he,hsent msg hm]
  dsimp only at h
  split at h
  · cases h
  · refine Option.some.inj h ▸ ⟨⟨rfl,by simp⟩,fun reply hr => ?_⟩
    rcases List.mem_append.mp hr with hr | hr
    · exact hsilent reply hr
    · cases List.mem_singleton.mp hr
  · exact Option.some.inj h ▸ ⟨⟨rfl,by simp [hstate]⟩,hsilent⟩

theorem begun_handleRename (hstate : self.currentState = .renaming) :
    Begun self (self.handleRename currentMsg disk) ∧
      Silent (self.handleRename currentMsg disk).2 := by
  have hreply : RenameReply self currentMsg (self.handleRename currentMsg disk) :=
    handleRename_reply disk
  generalize self.handleRename currentMsg disk = out at hreply
  cases hreply with
  | ignored => exact ⟨⟨rfl,by simp [hstate]⟩,silent_nil⟩
  | repeated | refused | existing =>
    exact ⟨⟨rfl,by simp [hstate]⟩,silent_sendMsg (by simp)⟩
  | executed =>
    refine ⟨⟨rfl,by simp [hstate]⟩,fun reply hr => ?_⟩
    rcases List.mem_cons.mp hr with hr | hr
    · rw [Effect.send.inj hr]
      simp
    · cases List.mem_singleton.mp hr

theorem startHandshake_spec {effect : Effect} (h : self.startHandshake currentMsg = some effect) :
    ∃ reply, effect = .send reply ∧ reply.type = .handshake ∧ reply.serverId = self.serverId ∧
      reply.clientId = currentMsg.clientId ∧
      reply.buffer = Buffer.copyIn (currentMsg.buffer.copyOut currentMsg.length.toNat) := by
  unfold startHandshake at h
  split_ifs at h
  exact ⟨_,(Option.some.inj h).symm,rfl,rfl,rfl,rfl⟩

theorem run_begun (hstate : self.currentState ≠ .initializing)
    (h : self.run currentMsg disk = some out) : Begun self out ∧
      (Silent out.2 ∨ (self.currentState = .startingHandshake ∨ currentMsg.type = .handshake) ∧
        ∃ reply, out.2 = [.send reply] ∧ reply.type = .handshake ∧
          reply.serverId = self.serverId ∧ reply.clientId = currentMsg.clientId ∧
          reply.buffer = Buffer.copyIn (currentMsg.buffer.copyOut currentMsg.length.toNat)) := by
  unfold run at h
  split at h
  · rename_i hs
    exact absurd hs hstate
  · rename_i hs
    obtain ⟨effect,he,rfl⟩ := Option.map_eq_some_iff.mp h
    obtain ⟨reply,rfl,hreply⟩ := startHandshake_spec he
    exact ⟨⟨rfl,by simp [initServerWithClientData]⟩,.inr ⟨.inl hs,reply,rfl,hreply⟩⟩
  · rename_i hs
    by_cases htype : currentMsg.type = .handshake
    · simp only [handleRequest,htype] at h
      obtain ⟨effect,he,rfl⟩ := Option.map_eq_some_iff.mp h
      obtain ⟨reply,rfl,hreply⟩ := startHandshake_spec he
      exact ⟨⟨rfl,by simp [hs]⟩,.inr ⟨.inr htype,reply,rfl,hreply⟩⟩
    · exact (begun_handleRequest hs htype h).imp id .inl
  · rename_i hs
    split_ifs at h
    · obtain ⟨_,_,h⟩ := Option.bind_eq_some_iff.mp h
      obtain ⟨_,_,rfl⟩ := Option.map_eq_some_iff.mp h
      refine ⟨?_,.inl ?_⟩
      · split_ifs <;> exact ⟨rfl,by simp [hs]⟩
      · split_ifs <;> exact silent_nil
    · exact Option.some.inj h ▸ ⟨⟨rfl,by simp [hs]⟩,.inl silent_nil⟩
  · rename_i hs
    unfold handleUpload at h
    split_ifs at h
    · exact (begun_dispatchToReceiver hs h).imp id .inl
    · exact Option.some.inj h ▸ ⟨⟨rfl,by simp [hs]⟩,.inl (silent_sendMsg (by simp))⟩
    · exact Option.some.inj h ▸ ⟨⟨rfl,by simp [hs]⟩,.inl silent_nil⟩
  · rename_i hs
    exact Option.some.inj h ▸ (begun_handleRename hs).imp id .inl

theorem run_initializing (hstate : self.currentState = .initializing)
    (h : self.run currentMsg disk = some out) :
    out = ({ self with currentState := .startingHandshake },[]) := by
  simp only [run,hstate,Option.some.injEq] at h
  exact h.symm

theorem run_started (h : self.run currentMsg disk = some out) :
    out.1.currentState ≠ .initializing := by
  by_cases hstate : self.currentState = .initializing
  · simp [run_initializing hstate h]
  · exact (run_begun hstate h).1.state.1

theorem run_serverId (h : self.run currentMsg disk = some out) :
    out.1.serverId = self.serverId := by
  by_cases hstate : self.currentState = .initializing
  · rw [run_initializing hstate h]
  · exact (run_begun hstate h).1.serverId

-- where the sender of a thread comes from after one turn
inductive SenderTurn (self : ServerThread) (currentMsg : Msg) (disk : Disk)
    (self' : ServerThread) : Prop
  | kept (hsame : self'.sender = self.sender)
  | created (hnew : self'.sender = some (Sender.create self.serverId currentMsg.clientId))
  | loaded (sender sender' : Sender) (contents : List UInt8)
      (hstate : self.currentState = .waitingForRequest)
      (hrequest : currentMsg.type = .getList ∧ getDirectoryContents disk = some contents ∨
        currentMsg.type = .getFile ∧ getFileContents currentMsg disk = some contents)
      (hold : self.sender = some sender)
      (hload : (sender.initializePayload (some contents) currentMsg.sequenceNumber).bind
        Sender.send = some sender')
      (hnew : self'.sender = some sender')
  | acked (sender sender' : Sender) (hstate : self.currentState = .sending)
      (htype : currentMsg.type = .ack) (hold : self.sender = some sender)
      (hack : sender.processAck currentMsg.sequenceNumber = some sender')
      (hnew : self'.sender = some sender')

theorem startSender_sender {self' : ServerThread} {contents : List UInt8}
    (h : self.startSender currentMsg contents = some self') :
    ∃ sender sender', self.sender = some sender ∧
      (sender.initializePayload (some contents) currentMsg.sequenceNumber).bind Sender.send =
        some sender' ∧ self'.sender = some sender' := by
  obtain ⟨sender,hsender,h⟩ := Option.bind_eq_some_iff.mp h
  obtain ⟨loaded,hload,h⟩ := Option.bind_eq_some_iff.mp h
  obtain ⟨started,hsend,rfl⟩ := Option.map_eq_some_iff.mp h
  exact ⟨sender,started,hsender,Option.bind_eq_some_iff.mpr ⟨loaded,hload,hsend⟩,rfl⟩

theorem handleRequest_sender (hstate : self.currentState = .waitingForRequest)
    (h : self.handleRequest currentMsg disk = some out) :
    SenderTurn self currentMsg disk out.1 := by
  unfold handleRequest at h
  split at h
  · obtain ⟨_,_,rfl⟩ := Option.map_eq_some_iff.mp h
    exact .kept rfl
  · rename_i htype
    obtain ⟨started,hs,rfl⟩ := Option.map_eq_some_iff.mp h
    obtain ⟨contents,hcontents,hs⟩ := Option.bind_eq_some_iff.mp hs
    obtain ⟨sender,sender',hold,hload,hnew⟩ := startSender_sender hs
    exact .loaded sender sender' contents hstate (.inl ⟨htype,hcontents⟩) hold hload hnew
  · rename_i htype
    dsimp only [sendFile] at h
    split at h
    · rename_i started hs
      obtain ⟨contents,hcontents,hs⟩ := Option.bind_eq_some_iff.mp hs
      obtain ⟨sender,sender',hold,hload,hnew⟩ := startSender_sender hs
      obtain rfl := Option.some.inj h
      exact .loaded sender sender' contents hstate (.inr ⟨htype,hcontents⟩) hold hload hnew
    · exact Option.some.inj h ▸ .kept rfl
  · obtain ⟨_,_,rfl⟩ := Option.map_eq_some_iff.mp h
    exact .kept rfl
  · obtain rfl := Option.some.inj h
    dsimp only [startRename]
    split_ifs
    · exact .kept rfl
    · exact .kept rfl
  all_goals exact Option.some.inj h ▸ .kept rfl

theorem handleUpload_sender (h : self.handleUpload currentMsg = some out) :
    out.1.sender = self.sender := by
  unfold handleUpload at h
  split_ifs at h
  · obtain ⟨receiver,_,h⟩ := Option.bind_eq_some_iff.mp h
    obtain ⟨handled,_,h⟩ := Option.bind_eq_some_iff.mp h
    dsimp only at h
    split at h
    · cases h
    · exact Option.some.inj h ▸ rfl
    · exact Option.some.inj h ▸ rfl
  · exact Option.some.inj h ▸ rfl
  · exact Option.some.inj h ▸ rfl

theorem handleRename_sender : (self.handleRename currentMsg disk).1.sender = self.sender := by
  have hreply : RenameReply self currentMsg (self.handleRename currentMsg disk) :=
    handleRename_reply disk
  generalize self.handleRename currentMsg disk = out at hreply
  cases hreply <;> rfl

theorem run_sender (h : self.run currentMsg disk = some out) :
    SenderTurn self currentMsg disk out.1 := by
  unfold run at h
  split at h
  · exact Option.some.inj h ▸ .kept rfl
  · obtain ⟨_,_,rfl⟩ := Option.map_eq_some_iff.mp h
    exact .created rfl
  · rename_i hstate
    exact handleRequest_sender hstate h
  · rename_i hstate
    split_ifs at h with htype
    · obtain ⟨sender,hold,h⟩ := Option.bind_eq_some_iff.mp h
      obtain ⟨acked,hack,rfl⟩ := Option.map_eq_some_iff.mp h
      refine .acked sender acked hstate htype hold hack ?_
      split_ifs
      · rfl
      · rfl
    · exact Option.some.inj h ▸ .kept rfl
  · exact .kept (handleUpload_sender h)
  · exact Option.some.inj h ▸ .kept handleRename_sender

end ServerThread
end FtpOverUdp
