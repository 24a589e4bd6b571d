import FtpOverUdp.UdpServer.RunSpec

namespace FtpOverUdp

namespace Receiver

variable {self self' : Receiver} {msg : Msg} {handled : Handled}

theorem normalizeBuffer_serverId {n : ℕ} (h : normalizeBuffer n self = some self') :
    self'.serverId = self.serverId := by
  induction n generalizing self with
  | zero => exact Option.some.inj h ▸ rfl
  | succ n ih =>
    obtain ⟨slot,_,h⟩ := Option.bind_eq_some_iff.mp h
    split at h
    · exact (ih h).trans rfl
    · exact Option.some.inj h ▸ rfl

theorem handleMsg_serverId (h : self.handleMsg msg = some handled) :
    handled.receiver.serverId = self.serverId ∧
      ∀ reply ∈ handled.sent, reply.serverId = self.serverId := by
  have hack : ∀ reply ∈ [self.ackMsg msg.sequenceNumber], reply.serverId = self.serverId := by
    intro reply hr
    rw [List.mem_singleton.mp hr]
    rfl
  unfold handleMsg at h
  split_ifs at h
  · exact Option.some.inj h ▸ ⟨rfl,hack⟩
  · obtain rfl := Option.some.inj h
    unfold handleEof
    split_ifs
    · exact ⟨rfl,hack⟩
    · exact ⟨rfl,by simp⟩
  · dsimp only [handleData] at h
    split at h
    · obtain ⟨slot,_,h⟩ := Option.bind_eq_some_iff.mp h
      split_ifs at h
      · exact Option.some.inj h ▸ ⟨rfl,hack⟩
      · obtain ⟨receiver,hn,rfl⟩ := Option.map_eq_some_iff.mp h
        exact ⟨(normalizeBuffer_serverId hn).trans rfl,hack⟩
    · exact Option.some.inj h ▸ ⟨rfl,hack⟩

end Receiver

namespace ServerThread

-- whatever the thread sends carries its id
structure Named (thread : ServerThread) (serverId : ℤ) : Prop where
  own : thread.serverId = serverId
  receiver : ∀ receiver ∈ thread.receiver, receiver.serverId = serverId

def RepliesNamed (serverId : ℤ) (effects : List Effect) : Prop :=
  ∀ reply, .send reply ∈ effects → reply.serverId = serverId

variable {self : ServerThread} {currentMsg : Msg} {disk : Disk} {out : Outcome} {serverId : ℤ}

theorem repliesNamed_nil : RepliesNamed serverId [] := nofun

theorem repliesNamed_sendMsg (h : self.serverId = serverId) {type : MsgType} {number : ℤ}
    {data : List UInt8} : RepliesNamed serverId [self.sendMsg currentMsg type number data] := by
  intro reply hr
  rw [Effect.send.inj (List.mem_singleton.mp hr)]
  exact h

theorem Named.init (h : self.serverId = serverId) :
    Named (self.initServerWithClientData currentMsg) serverId :=
  ⟨h,fun _ hr => Option.some.inj hr ▸ h⟩

theorem Named.startSender (h : Named self serverId) {payloadData : List UInt8}
    {started : ServerThread} (hs : self.startSender currentMsg payloadData = some started) :
    Named started serverId := by
  simp only [ServerThread.startSender,Option.bind_eq_some_iff,Option.map_eq_some_iff] at hs
  obtain ⟨_,_,_,_,_,_,rfl⟩ := hs
  exact ⟨h.own,h.receiver⟩

theorem Named.sendFile (h : Named self serverId) (hs : self.sendFile currentMsg disk = some out) :
    Named out.1 serverId ∧ RepliesNamed serverId out.2 := by
  dsimp only [ServerThread.sendFile] at hs
  split at hs
  · rename_i started hs'
    obtain ⟨_,_,hs'⟩ := Option.bind_eq_some_iff.mp hs'
    have hloading : Named { self with
        currentState := .sending
        sequenceNumber := currentMsg.sequenceNumber } serverId := ⟨h.own,h.receiver⟩
    exact Option.some.inj hs ▸ ⟨hloading.startSender hs',repliesNamed_nil⟩
  · exact Option.some.inj hs ▸ ⟨⟨h.own,h.receiver⟩,repliesNamed_sendMsg h.own⟩

theorem Named.handleRequest (h : Named self serverId)
    (hs : self.handleRequest currentMsg disk = some out) :
    Named out.1 serverId ∧ RepliesNamed serverId out.2 := by
  unfold ServerThread.handleRequest at hs
  split at hs
  · obtain ⟨effect,he,rfl⟩ := Option.map_eq_some_iff.mp hs
    obtain ⟨reply,rfl,_,hid,_⟩ := startHandshake_spec he
    refine ⟨h,fun reply' hr => ?_⟩
    rw [Effect.send.inj (List.mem_singleton.mp hr),hid,h.own]
  · obtain ⟨started,hs',rfl⟩ := Option.map_eq_some_iff.mp hs
    obtain ⟨_,_,hs'⟩ := Option.bind_eq_some_iff.mp hs'
    have hloading : Named { self with
        currentState := .sending
        sequenceNumber := currentMsg.sequenceNumber } serverId := ⟨h.own,h.receiver⟩
    exact ⟨hloading.startSender hs',repliesNamed_nil⟩
  · exact h.sendFile hs
  · obtain ⟨receiver,hrc,rfl⟩ := Option.map_eq_some_iff.mp hs
    refine ⟨⟨h.own,fun r hr => ?_⟩,repliesNamed_sendMsg h.own⟩
    obtain rfl := Option.some.inj hr
    exact h.receiver receiver hrc
  · obtain rfl := Option.some.inj hs
    dsimp only [startRename]
    split_ifs
    · exact ⟨⟨h.own,h.receiver⟩,repliesNamed_sendMsg h.own⟩
    · exact ⟨⟨h.own,h.receiver⟩,repliesNamed_sendMsg h.own⟩
  · exact Option.some.inj hs ▸ ⟨h,repliesNamed_sendMsg h.own⟩
  · exact Option.some.inj hs ▸ ⟨h,repliesNamed_sendMsg h.own⟩
  · exact Option.some.inj hs ▸ ⟨h,repliesNamed_nil⟩

theorem Named.dispatchToReceiver (h : Named self serverId)
    (hs : self.dispatchToReceiver currentMsg = some out) :
    Named out.1 serverId ∧ RepliesNamed serverId out.2 := by
  obtain ⟨receiver,hrc,hs⟩ := Option.bind_eq_some_iff.mp hs
  obtain ⟨handled,hh,hs⟩ := Option.bind_eq_some_iff.mp hs
  obtain ⟨hkept,hsent⟩ := Receiver.handleMsg_serverId hh
  have hid := h.receiver receiver hrc
  have hreplies : RepliesNamed serverId (handled.sent.map Effect.send) := by
    intro reply hr
    obtain ⟨msg,hm,he⟩ := List.mem_map.mp hr
    rw [← Effect.send.inj he,hsent msg hm,hid]
  dsimp only at hs
  split at hs
  · cases hs
  · rename_i payload drained _ hgot
    have hdrained : drained.serverId = handled.receiver.serverId := by
      unfold Receiver.getPayload at hgot
      split_ifs at hgot
      rw [← (Prod.mk.inj (Option.some.inj hgot)).2]
    refine Option.some.inj hs ▸ ⟨⟨h.own,fun r hr => ?_⟩,fun reply hr => ?_⟩
    · rw [← Option.some.inj hr,hdrained,hkept,hid]
    · rcases List.mem_append.mp hr with hr | hr
      · exact hreplies reply hr
      · cases List.mem_singleton.mp hr
  · refine Option.some.inj hs ▸ ⟨⟨h.own,fun r hr => ?_⟩,hreplies⟩
    rw [← Option.some.inj hr,hkept,hid]

theorem Named.handleRename (h : Named self serverId) :
    Named (self.handleRename currentMsg disk).1 serverId ∧
      RepliesNamed serverId (self.handleRename currentMsg disk).2 := by
  have hreply : RenameReply self currentMsg (self.handleRename currentMsg disk) :=
    handleRename_reply disk
  generalize self.handleRename currentMsg disk = out at hreply
  cases hreply with
  | ignored => exact ⟨h,repliesNamed_nil⟩
  | repeated | refused => exact ⟨h,repliesNamed_sendMsg h.own⟩
  | existing => exact ⟨⟨h.own,h.receiver⟩,repliesNamed_sendMsg h.own⟩
  | executed =>
    refine ⟨⟨h.own,h.receiver⟩,fun reply hr => ?_⟩
    rcases List.mem_cons.mp hr with hr | hr
    · rw [Effect.send.inj hr]
      exact h.own
    · cases List.mem_singleton.mp hr

theorem Named.run (h : Named self serverId) (hs : self.run currentMsg disk = some out) :
    Named out.1 serverId ∧ RepliesNamed serverId out.2 := by
  unfold ServerThread.run at hs
  split at hs
  · exact Option.some.inj hs ▸ ⟨⟨h.own,h.receiver⟩,repliesNamed_nil⟩
  · obtain ⟨effect,he,rfl⟩ := Option.map_eq_some_iff.mp hs
    obtain ⟨reply,rfl,_,hid,_⟩ := startHandshake_spec he
    refine ⟨.init h.own,fun reply' hr => ?_⟩
    rw [Effect.send.inj (List.mem_singleton.mp hr),hid]
    exact h.own
  · exact h.handleRequest hs
  · split_ifs at hs
    · obtain ⟨sender,_,hs⟩ := Option.bind_eq_some_iff.mp hs
      obtain ⟨acked,_,rfl⟩ := Option.map_eq_some_iff.mp hs
      split_ifs
      · exact ⟨⟨h.own,h.receiver⟩,repliesNamed_nil⟩
      · exact ⟨⟨h.own,h.receiver⟩,repliesNamed_nil⟩
    · exact Option.some.inj hs ▸ ⟨h,repliesNamed_nil⟩
  · unfold handleUpload at hs
    split_ifs at hs
    · exact h.dispatchToReceiver hs
    · exact Option.some.inj hs ▸ ⟨h,repliesNamed_sendMsg h.own⟩
    · exact Option.some.inj hs ▸ ⟨h,repliesNamed_nil⟩
  · exact Option.some.inj hs ▸ h.handleRename

-- a thread that `createServerThread` has started, after the turn that needs no message
def started (serverId : ℤ) : ServerThread :=
  { create serverId with currentState := .startingHandshake }

-- a thread between two requests
structure Ready (thread : ServerThread) (serverId : ℤ) : Prop where
  named : Named thread serverId
  state : thread.currentState = .waitingForRequest
  receiver : thread.receiver.isSome

theorem run_greets (hthread : self = started serverId ∨
      Ready self serverId ∧ currentMsg.type = .handshake)
    (hs : self.run currentMsg disk = some out) : Ready out.1 serverId ∧
      ∃ reply, out.2 = [.send reply] ∧ reply.type = .handshake ∧ reply.serverId = serverId := by
  rcases hthread with rfl | ⟨hready,htype⟩
  · obtain ⟨effect,he,rfl⟩ := Option.map_eq_some_iff.mp hs
    obtain ⟨reply,rfl,hreply,hid,_⟩ := startHandshake_spec he
    exact ⟨⟨.init rfl,rfl,rfl⟩,reply,rfl,hreply,hid⟩
  · simp only [ServerThread.run,hready.state,ServerThread.handleRequest,htype] at hs
    obtain ⟨effect,he,rfl⟩ := Option.map_eq_some_iff.mp hs
    obtain ⟨reply,rfl,hreply,hid,_⟩ := startHandshake_spec he
    exact ⟨hready,reply,rfl,hreply,hid.trans hready.named.own⟩

end ServerThread
end FtpOverUdp
