import FtpOverUdp.Common.Receiver
import FtpOverUdp.Common.SenderWindow
import FtpOverUdp.Library.System
import FtpOverUdp.Router.Path

namespace FtpOverUdp

open Library

-- `thread` and `delayed` record where a datagram comes from; no step reads them
structure Packet where
  msg : Msg
  thread : ℕ
  delayed : Bool

def Packet.mark (p : Packet) : Packet := { p with delayed := true }

structure Transfer where
  sender : Sender
  receiver : Receiver
  path : Path Packet

namespace Transfer

inductive Event
  | attempt (thread : ℕ) (sendtoFails : Bool)
  | route (source : Peer) (isDelayed isDamage : Bool)
  | idle
  | receive (answered : Bool)
  | acknowledge

def start (x : Transmission) (receiver : Receiver) : Option Transfer :=
  (((Sender.create x.serverId x.clientId).initializePayload (some x.contents) x.seed.val).bind
    Sender.send).map fun sender => ⟨sender,receiver.startNewPayload x.seed.val,Path.start⟩

variable (source : Peer)

def attempt (st : Transfer) (k : ℕ) (sendtoFails : Bool) : Option Transfer :=
  (st.sender.attempt k sendtoFails).map fun r =>
    match r.2 with
    | .sent msg => ⟨r.1,st.receiver,st.path.send source ⟨msg,k,false⟩⟩
    | .failed | .left => ⟨r.1,st.receiver,st.path⟩

def reply (path : Path Packet) (answered : Packet) (acks : List Msg) : Path Packet :=
  acks.foldl (fun q ack => q.send source.other ⟨ack,answered.thread,answered.delayed⟩) path

-- once the payload is complete both callers leave the receiver alone, and may answer by themselves
def receive (st : Transfer) (answered : Bool) : Option Transfer :=
  (st.path.take source.other).bind fun taken =>
    if st.receiver.isPayloadComplete then
      let acks := if answered then [st.receiver.ackMsg taken.1.msg.sequenceNumber] else []
      some { st with path := reply source taken.2 taken.1 acks }
    else (st.receiver.handleMsg taken.1.msg).map fun handled =>
      { st with
        receiver := handled.receiver
        path := reply source taken.2 taken.1 handled.sent }

def acknowledge (st : Transfer) : Option Transfer :=
  (st.path.take source).bind fun taken =>
    if st.sender.isPayloadSent then some { st with path := taken.2 }
    else (st.sender.processAck taken.1.msg.sequenceNumber).map fun sender =>
      { st with
        sender := sender
        path := taken.2 }

def step (st : Transfer) : Event → Option Transfer
  | .attempt k sendtoFails => st.attempt source k sendtoFails
  | .route peer isDelayed isDamage =>
    (st.path.route Packet.mark peer isDelayed isDamage).map fun path => { st with path := path }
  | .idle => some { st with path := st.path.idle }
  | .receive answered => st.receive source answered
  | .acknowledge => st.acknowledge source

def system (x : Transmission) : System Transfer Event where
  init st := ∃ receiver, start x receiver = some st
  step := step source

def play (x : Transmission) (events : List Event) : Option Transfer :=
  (start x (Receiver.create x.serverId x.clientId)).bind ((system source x).run · events)

variable {source} {x : Transmission} {st st' : Transfer} {k : ℕ} {fails answered : Bool}

theorem start_spec {rc : Receiver} (hne : x.contents ≠ []) (h : start x rc = some st) :
    st.sender.Running x 0 ∧ st.sender.currentWindowOrigin = 0 ∧
      (∀ i, st.sender.flag i = false) ∧ st.sender.isComplete = false ∧
      x.contents.length < 2 ^ 31 ∧
      st.receiver = rc.startNewPayload x.seed.val ∧
      st.path = Path.start := by
  simp only [start,Option.map_eq_some_iff,Option.bind_eq_some_iff] at h
  obtain ⟨s,⟨s₁,h₁,h₂⟩,rfl⟩ := h
  obtain ⟨hrun,horigin,hflag,hcomplete⟩ := Sender.Running.start hne h₁ h₂
  refine ⟨hrun,horigin,fun i => by simpa [Sender.create] using hflag i,hcomplete,?_,rfl,rfl⟩
  have hcount := (x.count_bounds hne).2.2
  simp only [Sender.initializePayload,Option.bind_some] at h₁
  split_ifs at h₁ with hfits
  exact lt_of_le_of_lt hcount hfits

theorem reachableUnder_of_play {C : Transfer → Event → Prop} {events : List Event}
    (hc : ∀ e ∈ events, ∀ st, C st e) (h : play source x events = some st) :
    (system source x).ReachableUnder C st := by
  obtain ⟨s,hs,hr⟩ := Option.bind_eq_some_iff.mp h
  exact (system source x).reachableUnder_of_run ⟨_,hs⟩
    ((system source x).along_of_forall (fun e he st _ => hc e he st) s) hr

theorem reachable_of_play {events : List Event} (h : play source x events = some st) :
    (system source x).Reachable st :=
  reachableUnder_of_play (fun _ _ _ => trivial) h

theorem line_reply_self (path : Path Packet) (answered : Packet) (acks : List Msg)
    (taken : List Packet) : (reply source path answered acks).line source taken =
      path.line source taken := by
  induction acks generalizing path with
  | nil => rfl
  | cons ack acks ih =>
    simp only [reply,List.foldl_cons] at ih ⊢
    rw [ih,Path.line_send_other _ _ _ (Peer.ne_other source)]

theorem line_reply_other (path : Path Packet) (answered : Packet) (ack : Msg)
    (taken : List Packet) : (reply source path answered [ack]).line source.other taken =
      (path.line source.other taken).push ⟨ack,answered.thread,answered.delayed⟩ :=
  Path.line_send_self ..

theorem line_acknowledge {path path' : Path Packet} {p : Packet} (taken : List Packet)
    (h : path.take source = some (p,path')) :
    path'.line source.other (taken ++ [p]) = path.line source.other taken :=
  Path.line_take_self (by rwa [Peer.other_other])

theorem attempt_spec (h : st.attempt source k fails = some st') :
    ∃ t, st.sender.threads[k]? = some t ∧ st'.receiver = st.receiver ∧
      ((st'.sender = st.sender ∧ t.isAcked = false ∧
          st'.path = st.path.send source ⟨t.msg,k,false⟩) ∨
        (st'.sender = st.sender.stopThread k ∧ st'.path = st.path)) := by
  simp only [attempt,Option.map_eq_some_iff] at h
  obtain ⟨⟨s',a⟩,ha,rfl⟩ := h
  obtain ⟨t,ht,⟨rfl,hacked,rfl⟩ | ⟨hnot,rfl⟩⟩ := Sender.attempt_cases ha
  · exact ⟨t,ht,rfl,.inl ⟨rfl,hacked,rfl⟩⟩
  · cases a with
    | sent m => exact absurd rfl (hnot m)
    | failed => exact ⟨t,ht,rfl,.inr ⟨rfl,rfl⟩⟩
    | left => exact ⟨t,ht,rfl,.inr ⟨rfl,rfl⟩⟩

theorem receive_spec (h : st.receive source answered = some st') :
    ∃ p path acks, st.path.take source.other = some (p,path) ∧ st'.sender = st.sender ∧
      st'.path = reply source path p acks ∧
      (st.receiver.isComplete = true ∧ st'.receiver = st.receiver ∧
          (acks = [] ∨ acks = [st.receiver.ackMsg p.msg.sequenceNumber]) ∨
        st.receiver.isComplete = false ∧ ∃ handled, st.receiver.handleMsg p.msg = some handled ∧
          st'.receiver = handled.receiver ∧ acks = handled.sent) := by
  simp only [receive,Option.bind_eq_some_iff] at h
  obtain ⟨⟨p,path⟩,htake,h⟩ := h
  split_ifs at h with hc ha
  · obtain rfl := Option.some.inj h
    exact ⟨p,path,_,htake,rfl,rfl,.inl ⟨hc,rfl,.inr rfl⟩⟩
  · obtain rfl := Option.some.inj h
    exact ⟨p,path,_,htake,rfl,rfl,.inl ⟨hc,rfl,.inl rfl⟩⟩
  · obtain ⟨handled,hh,rfl⟩ := Option.map_eq_some_iff.mp h
    exact ⟨p,path,_,htake,rfl,rfl,.inr ⟨by simpa [Receiver.isPayloadComplete] using hc,
      handled,hh,rfl,rfl⟩⟩

theorem acknowledge_spec (h : st.acknowledge source = some st') :
    ∃ p path, st.path.take source = some (p,path) ∧ st'.receiver = st.receiver ∧
      st'.path = path ∧ (st'.sender = st.sender ∨
        st.sender.processAck p.msg.sequenceNumber = some st'.sender) := by
  simp only [acknowledge,Option.bind_eq_some_iff] at h
  obtain ⟨⟨p,path⟩,htake,h⟩ := h
  split_ifs at h with hc
  · obtain rfl := Option.some.inj h
    exact ⟨p,path,htake,rfl,rfl,.inl rfl⟩
  · obtain ⟨s,hs,rfl⟩ := Option.map_eq_some_iff.mp h
    exact ⟨p,path,htake,rfl,rfl,.inr hs⟩

end Transfer
end FtpOverUdp
