import FtpOverUdp.Transfer.Acknowledgement

namespace FtpOverUdp

open Library

namespace Transfer

def Unfailing (source : Peer) (st : Transfer) (e : Event) : Prop :=
  HeldOnce source st e ∧ ∀ k, e ≠ .attempt k true

-- a path that never delays a packet: what is sent waits in `up` until it is lost or handed over
def Direct (x : Transmission) (source : Peer) (s : Sender) (rc : Receiver)
    (up : Peer → List Packet) : Prop :=
  (system source x).ReachableUnder (HeldOnce source) ⟨s,rc,Path.fifo up⟩

variable {x : Transmission} {source : Peer} {s s' : Sender} {rc : Receiver}
  {up : Peer → List Packet} {p : Packet} {rest : List Packet}

theorem direct_start {rc₀ : Receiver} {st : Transfer} (hne : x.contents ≠ [])
    (h : start x rc₀ = some st) : Direct x source st.sender st.receiver (fun _ => []) := by
  obtain ⟨_,_,_,_,_,_,hpath⟩ := start_spec hne h
  refine ⟨st,⟨rc₀,h⟩,?_⟩
  have he : st = ⟨st.sender,st.receiver,Path.fifo fun _ => []⟩ :=
    congrArg (Transfer.mk st.sender st.receiver) hpath
  exact he ▸ .refl

theorem heldOnce_route (st : Transfer) (peer : Peer) (isDamage : Bool) :
    HeldOnce source st (.route peer false isDamage) := fun _ _ hdel => by cases hdel

theorem unfailing_route (st : Transfer) (peer : Peer) (isDamage : Bool) :
    Unfailing source st (.route peer false isDamage) :=
  ⟨heldOnce_route st peer isDamage,by simp⟩

theorem Direct.lose (h : Direct x source s rc up) {peer : Peer} (hup : up peer = p :: rest) :
    Direct x source s rc (Function.update up peer rest) :=
  h.step (heldOnce_route _ peer true) (by
    simp only [system,step,Path.route_fifo_damage Packet.mark hup]
    rfl)

theorem Direct.attempt_sent (h : Direct x source s rc up) {k : ℕ} {fails : Bool} {msg : Msg}
    (ha : s.attempt k fails = some (s,.sent msg)) :
    Direct x source s rc (Function.update up source (up source ++ [⟨msg,k,false⟩])) := by
  refine System.ReachableUnder.step h (a := .attempt k fails) trivial ?_
  simp only [system,step,Transfer.attempt,ha,Option.map_some]
  rfl

theorem Direct.attempt_stopped (h : Direct x source s rc up) {k : ℕ} {fails : Bool}
    {a : Sender.Attempt} (ha : s.attempt k fails = some (s',a)) (hnot : ∀ m, a ≠ .sent m) :
    Direct x source s' rc up := by
  refine System.ReachableUnder.step h (a := .attempt k fails) trivial ?_
  simp only [system,step,Transfer.attempt,ha,Option.map_some]
  cases a with
  | sent m => exact absurd rfl (hnot m)
  | failed => rfl
  | left => rfl

theorem reply_fifo (up : Peer → List Packet) (p : Packet) (acks : List Msg) :
    reply source (Path.fifo up) p acks = Path.fifo (Function.update up source.other
      (up source.other ++ acks.map fun ack => ⟨ack,p.thread,p.delayed⟩)) := by
  induction acks generalizing up with
  | nil => simp [reply]
  | cons ack acks ih =>
    simp only [reply,List.foldl_cons] at ih ⊢
    rw [Path.fifo_send,ih]
    simp

-- a packet is forwarded, and the other peer reads it
theorem hop {peer : Peer} {e : Event} {t : Transfer} (hup : up peer = p :: rest)
    (hread : ∀ mid, mid.take peer.other = some (p,Path.fifo (Function.update up peer rest)) →
      (system source x).step ⟨s,rc,mid⟩ e = some t) (he : ∀ st, Unfailing source st e) :
    Relation.ReflTransGen ((system source x).next (Unfailing source)) ⟨s,rc,Path.fifo up⟩ t := by
  obtain ⟨mid,hroute,htake⟩ := Path.route_fifo_forward Packet.mark hup
  have hforward : (system source x).next (Unfailing source) ⟨s,rc,Path.fifo up⟩ ⟨s,rc,mid⟩ := by
    refine ⟨.route peer false false,unfailing_route _ peer false,?_⟩
    simp only [system,step,hroute,Option.map_some]
  exact .tail (.single hforward) ⟨e,he _,hread mid htake⟩

theorem hop_receive (hup : up source = p :: rest) (hc : rc.isComplete = false)
    {handled : Receiver.Handled} (hh : rc.handleMsg p.msg = some handled) :
    Relation.ReflTransGen ((system source x).next (Unfailing source)) ⟨s,rc,Path.fifo up⟩
      ⟨s,handled.receiver,Path.fifo (Function.update (Function.update up source rest)
        source.other (up source.other ++ handled.sent.map fun ack =>
          ⟨ack,p.thread,p.delayed⟩))⟩ := by
  refine hop (e := .receive true) hup (fun mid htake => ?_) fun _ => ⟨trivial,by simp⟩
  simp [system,step,Transfer.receive,htake,Receiver.isPayloadComplete,hc,hh,reply_fifo]

theorem hop_answer (hup : up source = p :: rest) (hc : rc.isComplete = true) :
    Relation.ReflTransGen ((system source x).next (Unfailing source)) ⟨s,rc,Path.fifo up⟩
      ⟨s,rc,Path.fifo (Function.update (Function.update up source rest) source.other
        (up source.other ++ [⟨rc.ackMsg p.msg.sequenceNumber,p.thread,p.delayed⟩]))⟩ := by
  refine hop (e := .receive true) hup (fun mid htake => ?_) fun _ => ⟨trivial,by simp⟩
  simp [system,step,Transfer.receive,htake,Receiver.isPayloadComplete,hc,reply_fifo]

theorem hop_acknowledge (hup : up source.other = p :: rest) (hc : s.isPayloadSent = false)
    (hack : s.processAck p.msg.sequenceNumber = some s') :
    Relation.ReflTransGen ((system source x).next (Unfailing source)) ⟨s,rc,Path.fifo up⟩
      ⟨s',rc,Path.fifo (Function.update up source.other rest)⟩ := by
  refine hop (e := .acknowledge) hup (fun mid htake => ?_) fun _ => ⟨trivial,by simp⟩
  rw [Peer.other_other] at htake
  simp [system,step,Transfer.acknowledge,htake,hc,hack]

theorem Direct.goes (h : Direct x source s rc up) {rc' : Receiver} {up' : Peer → List Packet}
    (hgoes : Relation.ReflTransGen ((system source x).next (Unfailing source))
      ⟨s,rc,Path.fifo up⟩ ⟨s',rc',Path.fifo up'⟩) : Direct x source s' rc' up' := by
  obtain ⟨st,hinit,hreach⟩ := h
  refine ⟨st,hinit,hreach.trans (Relation.ReflTransGen.mono ?_ _ _ hgoes)⟩
  rintro _ _ ⟨e,hc,hs⟩
  exact ⟨e,hc.1,hs⟩

theorem Direct.message (hne : x.contents ≠ []) (h : Direct x source s rc up)
    (hp : p ∈ up source) : p.msg = x.message p.thread := by
  obtain ⟨seen,acked,hex⟩ := exact_reachable hne h
  exact (hex.inv.faithful p (by simp [Path.line,Path.fifo,DelayLine.waiting,hp])).2

theorem Direct.slid_accepted (hne : x.contents ≠ []) (h : Direct x source s rc up) {i : ℕ}
    (hi : i < s.currentWindowOrigin) : rc.Accepted x i := by
  obtain ⟨seen,acked,hex⟩ := exact_reachable hne h
  exact hex.accepted (lt_of_lt_of_le hi hex.inv.sender.le)
    (by simpa using hex.inv.sender.window.past i hi)

theorem Direct.complete_origin (hne : x.contents ≠ []) (h : Direct x source s rc up)
    (hc : rc.isComplete = true) :
    rc.windowOrigin = x.count + 1 ∧ s.currentWindowOrigin ≤ x.count := by
  obtain ⟨seen,acked,hex⟩ := exact_reachable hne h
  exact ⟨(hex.inv.complete hc).origin,hex.inv.sender.le⟩

end Transfer
end FtpOverUdp
