import FtpOverUdp.Common.SenderRun
import FtpOverUdp.Transfer.Acknowledgement

namespace FtpOverUdp

open Library

namespace Transfer

structure Settled (x : Transmission) (source : Peer) (st : Transfer) : Prop where
  exact : ∃ seen acked, Exact x source st seen acked
  answered : (st.path.line source.other []).All fun p =>
    x.count ≤ p.thread → st.receiver.isComplete = true
  sent : st.sender.isComplete = true → st.receiver.isComplete = true

variable {x : Transmission} {source : Peer} {st st' : Transfer} {seen acked : List Packet}

theorem settled_start {rc : Receiver} (hne : x.contents ≠ []) (h : start x rc = some st) :
    Settled x source st := by
  obtain ⟨_,_,_,hcomplete,_,_,hpath⟩ := start_spec hne h
  refine ⟨⟨[],[],exact_start hne h⟩,?_,fun hc => ?_⟩
  · rw [hpath]
    exact fun p hp => absurd hp List.not_mem_nil
  · rw [hcomplete] at hc
    cases hc

theorem Settled.attempt (h : Settled x source st) {k : ℕ} {fails : Bool}
    (hs : st.attempt source k fails = some st') : Settled x source st' := by
  obtain ⟨seen,acked,hexact⟩ := h.exact
  have hexact' := hexact.attempt hs
  obtain ⟨t,_,hr,⟨hsend,_,hp⟩ | ⟨hstop,hp⟩⟩ := attempt_spec hs
  · refine ⟨⟨seen,acked,hexact'⟩,?_,hr ▸ hsend ▸ h.sent⟩
    rw [hp,Path.line_send_other _ _ _ (Peer.other_ne source),hr]
    exact h.answered
  · exact ⟨⟨seen,acked,hexact'⟩,hp ▸ hr ▸ h.answered,hr ▸ hstop ▸ h.sent⟩

theorem Settled.path {path : Path Packet} {admits : Peer → Packet → Prop}
    (h : Settled x source st) (hl : st.path.Evolves Packet.mark admits path)
    (hadm : ∀ p, admits source.other p → ¬Late p) : Settled x source { st with path := path } := by
  obtain ⟨seen,acked,hexact⟩ := h.exact
  exact ⟨⟨seen,acked,hexact.path hl hadm⟩,hl.all (fun _ hp => hp) h.answered,h.sent⟩

theorem receive_complete {answered : Bool} (hs : st.receive source answered = some st')
    (hc : st.receiver.isComplete = true) : st'.receiver.isComplete = true := by
  obtain ⟨_,_,_,_,_,_,⟨_,hr,_⟩ | ⟨hopen,_⟩⟩ := receive_spec hs
  · exact hr ▸ hc
  · exact absurd hc (by simp [hopen])

-- an EOF is answered only by a receiver that it completes or that was complete before
theorem Settled.receive_answered (h : Settled x source st) {answered : Bool}
    (hs : st.receive source answered = some st') :
    (st'.path.line source.other []).All fun p =>
      x.count ≤ p.thread → st'.receiver.isComplete = true := by
  obtain ⟨seen,acked,hexact⟩ := h.exact
  obtain ⟨p,path,acks,htake,_,hpath,hcase⟩ := receive_spec hs
  obtain ⟨_,_,hp,_⟩ := hexact.inv.take htake
  have hbefore : (path.line source.other []).All fun q =>
      x.count ≤ q.thread → st'.receiver.isComplete = true := by
    rw [Path.line_take_other htake]
    exact fun q hq hge => receive_complete hs (h.answered q hq hge)
  have hacks : acks = [] ∨
      ∃ ack, acks = [ack] ∧ (x.count ≤ p.thread → st'.receiver.isComplete = true) := by
    rcases hcase with ⟨hc,_,hacks⟩ | ⟨hc,handled,hh,hr,rfl⟩
    · exact hacks.imp_right fun he => ⟨_,he,fun _ => receive_complete hs hc⟩
    · rcases handled_cases (hexact.inv.pending hc) hc hexact.inv.fits hp.2 hh with
        ⟨hlt,_,_,hsent⟩ | ⟨_,_,he,hsent⟩ | ⟨_,_,hsent⟩
      · exact .inr ⟨_,hsent,fun hge => absurd hge (Nat.not_le.mpr hlt)⟩
      · exact .inr ⟨_,hsent,fun _ => by rw [hr,he]⟩
      · exact .inl hsent
  rw [hpath]
  rcases hacks with rfl | ⟨ack,rfl,hdone⟩
  · exact hbefore
  · rw [line_reply_other]
    exact hbefore.push hdone

theorem Settled.receive (hne : x.contents ≠ []) (h : Settled x source st)
    {answered : Bool} (hs : st.receive source answered = some st') : Settled x source st' := by
  obtain ⟨seen,acked,hexact⟩ := h.exact
  obtain ⟨p,hp⟩ := hexact.receive hne hs
  obtain ⟨_,_,_,_,hsend,_⟩ := receive_spec hs
  refine ⟨⟨_,_,hp⟩,h.receive_answered hs,fun hc => receive_complete hs (h.sent ?_)⟩
  rw [← hsend]
  exact hc

theorem Exact.answer_bounds (h : Exact x source st seen acked) {p : Packet} {path : Path Packet}
    (htake : st.path.take source = some (p,path)) :
    p.msg.sequenceNumber = (residue x.seed p.thread).val ∧
      st.sender.currentWindowOrigin ≤ p.thread + windowSize + 1 ∧ p.thread ≤ x.count := by
  have hline := line_acknowledge acked htake
  have hp : Answers x seen p := by
    apply h.inv.answers
    rw [← hline]
    simp [Path.line]
  refine ⟨hp.1,?_,?_⟩
  · apply h.thread_ge
    have hstragglers := h.answers.line
    rw [← hline,Path.line,List.append_assoc,List.append_assoc,stragglers_append] at hstragglers
    simpa [Stragglers] using hstragglers.2.1
  · obtain ⟨q,hq,hqp⟩ := hp.2
    have hhigh := h.inv.seen_lt hq
    have hspan := (x.span_le _ h.inv.sender.le).2.2
    omega

theorem Settled.acknowledge (hne : x.contents ≠ []) (h : Settled x source st)
    (hs : st.acknowledge source = some st') : Settled x source st' := by
  obtain ⟨seen,acked,hexact⟩ := h.exact
  obtain ⟨_,hexact'⟩ := hexact.acknowledge hne hs
  obtain ⟨p,path,htake,hr,hpath,hcase⟩ := acknowledge_spec hs
  obtain ⟨hnumber,hlo,hhi⟩ := hexact.answer_bounds htake
  have hline : st'.path.line source.other ([] ++ [p]) = st.path.line source.other [] :=
    hpath ▸ line_acknowledge [] htake
  have hanswered : (st'.path.line source.other ([] ++ [p])).All fun q =>
      x.count ≤ q.thread → st'.receiver.isComplete = true := hline ▸ hr ▸ h.answered
  refine ⟨⟨_,_,hexact'⟩,fun q hq => hanswered q ?_,fun hc => ?_⟩
  · exact List.mem_append.mpr ((List.mem_append.mp hq).imp_left fun hq => .tail p hq)
  · rcases hcase with hsend | hack
    · exact hr ▸ h.sent (hsend ▸ hc)
    · rw [hnumber] at hack
      rw [hexact.inv.sender.processAck_isComplete hne hack] at hc
      split_ifs at hc with heof
      · -- within four of the origin only the EOF itself carries its number
        have hthread : p.thread = x.count :=
          residue_inj (of_decide_eq_true hc) hhi (by simp only [windowSize,sequenceRange] at *; omega)
        exact hanswered p (by simp [DelayLine.waiting,Path.line]) hthread.ge
      · exact hr ▸ h.sent hc

theorem Settled.step (hne : x.contents ≠ []) (h : Settled x source st) {e : Event}
    (hheld : HeldOnce source st e) (hs : (system source x).step st e = some st') :
    Settled x source st' := by
  cases e with
  | attempt k fails => exact h.attempt hs
  | route peer isDelayed isDamage =>
    obtain ⟨path,hp,rfl⟩ := Option.map_eq_some_iff.mp hs
    have hl : Path.Evolves Packet.mark (fun origin p => origin = source.other → ¬Late p) st.path
        path := Path.evolves_route hp fun ack rest hup hbuf hdel hpeer => by
      simp [hheld hpeer hbuf hdel ack rest hup]
    exact h.path hl fun p hp => hp rfl
  | idle =>
    obtain rfl := Option.some.inj hs
    exact h.path (Path.evolves_idle Packet.mark (fun _ p => ¬Late p) st.path) fun _ hp => hp
  | receive answered => exact h.receive hne hs
  | acknowledge => exact h.acknowledge hne hs

theorem settled_reachable (hne : x.contents ≠ [])
    (h : (system source x).ReachableUnder (HeldOnce source) st) : Settled x source st :=
  (system source x).reachableUnder_invariant (fun _ ⟨_,hs⟩ => settled_start hne hs)
    (fun _ _ _ hi hc hs => hi.step hne hc hs) h

theorem payload_sent_is_received (hne : x.contents ≠ [])
    (h : (system source x).ReachableUnder (HeldOnce source) st)
    (hsent : st.sender.isPayloadSent = true) :
    st.receiver.isPayloadComplete = true ∧
      st.receiver.getPayload.map Prod.fst = some ⟨x.contents.length,x.contents⟩ ∧
      st.receiver.finalSequenceNumber = st.sender.finalSequenceNumber := by
  have hsettled := settled_reachable hne h
  obtain ⟨seen,acked,hexact⟩ := hsettled.exact
  have hc := hsettled.sent hsent
  obtain ⟨hpayload,hfinal⟩ := (hexact.inv.complete hc).getPayload hne hc
  refine ⟨hc,hpayload,hfinal.trans ?_⟩
  have hcarries := hexact.inv.sender.window.carries
  rw [Sender.finalSequenceNumber,hcarries.seed,hcarries.count]

theorem payload_sent_is_received_one_byte : ∃ st,
    (system .one oneByte).ReachableUnder (HeldOnce .one) st ∧ st.sender.isPayloadSent = true ∧
      st.receiver.getPayload.map Prod.fst = some ⟨1,[65]⟩ := by
  have hrun : (play .one oneByte (oneByteEvents ++ [.attempt 1 false,.route .one false false,
      .receive true,.route .two false false,.acknowledge,.route .two false false,
      .acknowledge])).any (·.sender.isPayloadSent) = true := by decide
  obtain ⟨st,hst,hsent⟩ := (Option.any_eq_true _ _).mp hrun
  have hheld : ∀ e ∈ oneByteEvents ++ [.attempt 1 false,.route .one false false,
      .receive true,.route .two false false,.acknowledge,.route .two false false,
      .acknowledge], ∀ st, HeldOnce .one st e := by
    simp [oneByteEvents,HeldOnce,Peer.other]
  have hr := reachableUnder_of_play hheld hst
  exact ⟨st,hr,hsent,(payload_sent_is_received (by decide) hr hsent).2.1⟩

end Transfer
end FtpOverUdp
