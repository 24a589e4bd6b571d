import FtpOverUdp.Common.SenderFrame
import FtpOverUdp.UdpServer.RunSpec

namespace FtpOverUdp

theorem Receiver.handleMsg_numbers {self : Receiver} {msg : Msg} {handled : Receiver.Handled}
    (h : self.handleMsg msg = some handled) :
    ∀ reply ∈ handled.sent, reply.sequenceNumber = msg.sequenceNumber := by
  have hack : ∀ reply ∈ [self.ackMsg msg.sequenceNumber],
      reply.sequenceNumber = msg.sequenceNumber := by
    intro reply hr
    rw [List.mem_singleton.mp hr]
    rfl
  unfold Receiver.handleMsg at h
  split_ifs at h
  · exact Option.some.inj h ▸ hack
  · obtain rfl := Option.some.inj h
    unfold Receiver.handleEof
    split_ifs
    · exact hack
    · simp
  · dsimp only [Receiver.handleData] at h
    split at h
    · obtain ⟨slot,_,h⟩ := Option.bind_eq_some_iff.mp h
      split_ifs at h
      · exact Option.some.inj h ▸ hack
      · obtain ⟨_,_,rfl⟩ := Option.map_eq_some_iff.mp h
        exact hack
    · exact Option.some.inj h ▸ hack

namespace ServerThread

-- what a thread can send from now on without being told a number outside the range
structure Numbers (thread : ServerThread) : Prop where
  serverId : 0 ≤ thread.serverId
  sender : ∀ sender, thread.sender = some sender → sender.SendsNumbered

def RepliesNumbered (effects : List Effect) : Prop := ∀ reply, .send reply ∈ effects → Numbered reply

variable {self : ServerThread} {currentMsg : Msg} {disk : Disk} {out : Outcome}

theorem repliesNumbered_nil : RepliesNumbered [] := nofun

theorem repliesNumbered_sendMsg {type : MsgType} {number : ℤ} {data : List UInt8}
    (h : Slotted number) :
    RepliesNumbered [self.sendMsg currentMsg type number data] := by
  intro reply hr
  rw [Effect.send.inj (List.mem_singleton.mp hr)]
  exact h

theorem repliesNumbered_startHandshake {reply : Effect} (hid : 0 ≤ self.serverId)
    (h : self.startHandshake currentMsg = some reply) : RepliesNumbered [reply] := by
  unfold startHandshake at h
  split_ifs at h
  exact Option.some.inj h ▸ repliesNumbered_sendMsg (slotted_wrap hid)

theorem Numbers.run_numbers (h : self.Numbers) (hrun : self.run currentMsg disk = some out) :
    out.1.Numbers := by
  constructor
  · rw [run_serverId hrun]
    exact h.serverId
  · intro s hs
    cases run_sender hrun with
    | kept hsame => exact h.sender s (hsame ▸ hs)
    | created hnew =>
      obtain rfl := Option.some.inj (hnew.symm.trans hs)
      exact fun t ht => by cases ht
    | loaded sender sender' contents _ _ hold hload hnew =>
      obtain rfl := Option.some.inj (hnew.symm.trans hs)
      exact Sender.sendsNumbered_load (h.sender sender hold) hload
    | acked sender sender' _ _ hold hack hnew =>
      obtain rfl := Option.some.inj (hnew.symm.trans hs)
      exact (Sender.advances_processAck hack).numbered (h.sender sender hold)

section Turn

variable (hmsg : Numbered currentMsg)
include hmsg

theorem repliesNumbered_handleRequest (hid : 0 ≤ self.serverId)
    (hrun : self.handleRequest currentMsg disk = some out) : RepliesNumbered out.2 := by
  unfold ServerThread.handleRequest at hrun
  split at hrun
  · obtain ⟨reply,hreply,rfl⟩ := Option.map_eq_some_iff.mp hrun
    exact repliesNumbered_startHandshake hid hreply
  · obtain ⟨started,-,rfl⟩ := Option.map_eq_some_iff.mp hrun
    exact repliesNumbered_nil
  · dsimp only [sendFile] at hrun
    split at hrun
    · exact Option.some.inj hrun ▸ repliesNumbered_nil
    · exact Option.some.inj hrun ▸ repliesNumbered_sendMsg (slotted_next hmsg.1)
  · obtain ⟨receiver,-,rfl⟩ := Option.map_eq_some_iff.mp hrun
    exact repliesNumbered_sendMsg hmsg
  · obtain rfl := Option.some.inj hrun
    dsimp only [startRename]
    split_ifs
    · exact repliesNumbered_sendMsg hmsg
    · exact repliesNumbered_sendMsg hmsg
  · exact Option.some.inj hrun ▸ repliesNumbered_sendMsg hmsg
  · exact Option.some.inj hrun ▸ repliesNumbered_sendMsg hmsg
  · exact Option.some.inj hrun ▸ repliesNumbered_nil

theorem repliesNumbered_dispatchToReceiver (hrun : self.dispatchToReceiver currentMsg = some out) :
    RepliesNumbered out.2 := by
  obtain ⟨receiver,-,hrun⟩ := Option.bind_eq_some_iff.mp hrun
  obtain ⟨handled,hhandled,hrun⟩ := Option.bind_eq_some_iff.mp hrun
  have hsent : RepliesNumbered (handled.sent.map Effect.send) := by
    intro reply hr
    obtain ⟨m,hm,he⟩ := List.mem_map.mp hr
    rw [Numbered,← Effect.send.inj he,Receiver.handleMsg_numbers hhandled m hm]
    exact hmsg
  dsimp only at hrun
  split at hrun
  · cases hrun
  · refine Option.some.inj hrun ▸ fun reply hr => ?_
    rcases List.mem_append.mp hr with hr | hr
    · exact hsent reply hr
    · cases List.mem_singleton.mp hr
  · exact Option.some.inj hrun ▸ hsent

theorem repliesNumbered_handleRename : RepliesNumbered (self.handleRename currentMsg disk).2 := by
  have hreply : RenameReply self currentMsg (self.handleRename currentMsg disk) :=
    handleRename_reply disk
  generalize self.handleRename currentMsg disk = out at hreply
  cases hreply with
  | ignored => exact repliesNumbered_nil
  | repeated | refused | existing => exact repliesNumbered_sendMsg hmsg
  | executed =>
    intro reply hr
    rcases List.mem_cons.mp hr with hr | hr
    · rw [Effect.send.inj hr]
      exact hmsg
    · cases List.mem_singleton.mp hr

theorem repliesNumbered_run (hid : 0 ≤ self.serverId)
    (hrun : self.run currentMsg disk = some out) : RepliesNumbered out.2 := by
  unfold ServerThread.run at hrun
  split at hrun
  · exact Option.some.inj hrun ▸ repliesNumbered_nil
  · obtain ⟨reply,hreply,rfl⟩ := Option.map_eq_some_iff.mp hrun
    exact repliesNumbered_startHandshake hid hreply
  · exact repliesNumbered_handleRequest hmsg hid hrun
  · split_ifs at hrun
    · obtain ⟨sender,-,hrun⟩ := Option.bind_eq_some_iff.mp hrun
      obtain ⟨acked,-,rfl⟩ := Option.map_eq_some_iff.mp hrun
      split_ifs
      · exact repliesNumbered_nil
      · exact repliesNumbered_nil
    · exact Option.some.inj hrun ▸ repliesNumbered_nil
  · unfold handleUpload at hrun
    split_ifs at hrun
    · exact repliesNumbered_dispatchToReceiver hmsg hrun
    · exact Option.some.inj hrun ▸ repliesNumbered_sendMsg hmsg
    · exact Option.some.inj hrun ▸ repliesNumbered_nil
  · exact Option.some.inj hrun ▸ repliesNumbered_handleRename hmsg

theorem Numbers.run (h : self.Numbers) (hrun : self.run currentMsg disk = some out) :
    out.1.Numbers ∧ RepliesNumbered out.2 :=
  ⟨h.run_numbers hrun,repliesNumbered_run hmsg h.serverId hrun⟩

end Turn

-- RENAMING executes one number beyond the one it has served
theorem renaming_executes_iff (hstate : self.currentState = .renaming)
    (htype : currentMsg.type = .resp) (hnew : currentMsg.sequenceNumber ≠ self.sequenceNumber) :
    self.run currentMsg disk = some (self.performRename currentMsg disk) ↔
      currentMsg.sequenceNumber = wrap (self.sequenceNumber + 1) := by
  rw [run_renaming disk hstate,Option.some.injEq,handleRename,if_neg hnew]
  by_cases hnext : currentMsg.sequenceNumber = wrap (self.sequenceNumber + 1)
  · rw [if_pos ⟨hnext,htype⟩]
    exact iff_of_true rfl hnext
  · rw [if_neg fun h => hnext h.1]
    refine iff_of_false (fun he => ?_) hnext
    have heffects := congrArg Prod.snd he
    simp only [performRename] at heffects
    split_ifs at heffects

end ServerThread
end FtpOverUdp
