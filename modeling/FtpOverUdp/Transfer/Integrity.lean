import FtpOverUdp.Transfer.System
import FtpOverUdp.Common.ReceiverView

namespace FtpOverUdp

open Library

namespace Transfer

abbrev near (a b : ℕ) : Prop := a < b + windowSize

abbrev Late (p : Packet) : Prop := p.delayed = true

def Faithful (x : Transmission) (n : ℕ) (p : Packet) : Prop :=
  p.thread < n ∧ p.msg = x.message p.thread

def delivered (x : Transmission) (seen : List Packet) : List ℕ :=
  (seen.filter fun p => p.thread < x.count).map Packet.thread

def reassembled (x : Transmission) (seen : List Packet) : Reassembly :=
  (delivered x seen).foldl (Reassembly.deliver windowSize sequenceRange) Reassembly.empty

def Answers (x : Transmission) (seen : List Packet) (p : Packet) : Prop :=
  p.msg.sequenceNumber = (residue x.seed p.thread).val ∧ ∃ q ∈ seen, q.thread = p.thread

structure Whole (x : Transmission) (rc : Receiver) : Prop where
  seed : rc.sequenceSeed = x.seed.val
  size : rc.totalPayloadSize = x.contents.length
  packets : rc.completedSet = (List.range x.count).map x.packet
  origin : rc.windowOrigin = x.count + 1

structure Inv (x : Transmission) (source : Peer) (st : Transfer) (seen acked : List Packet) :
    Prop where
  sender : st.sender.Running x 0
  fits : x.contents.length < 2 ^ 31
  line : (st.path.line source seen).Ordered Packet.thread near Late
  faithful : (st.path.line source seen).All (Faithful x st.sender.threads.length)
  answers : (st.path.line source.other acked).All (Answers x seen)
  pending : st.receiver.isComplete = false → st.receiver.Represents x (reassembled x seen)
  complete : st.receiver.isComplete = true → Whole x st.receiver

variable {x : Transmission} {source : Peer} {st st' : Transfer} {seen acked : List Packet}

theorem packets_flatten (hle : x.contents.length ≤ x.count * bufferLength) :
    ((List.range x.count).map x.packet).flatten = x.contents := by
  have hpart : ∀ n, ((List.range n).map x.packet).flatten = x.contents.take (n * bufferLength) := by
    intro n
    induction n with
    | zero => simp
    | succ n ih =>
      rw [List.range_succ,List.map_append,List.flatten_append,ih,Nat.succ_mul,List.take_add]
      simp [Transmission.packet]
  rw [hpart,List.take_of_length_le hle]

theorem delivered_lt (x : Transmission) (seen : List Packet) : ∀ a ∈ delivered x seen, a < x.count := by
  intro a ha
  simp only [delivered,List.mem_map,List.mem_filter,decide_eq_true_eq] at ha
  obtain ⟨p,⟨_,hp⟩,rfl⟩ := ha
  exact hp

theorem reassembled_data {p : Packet} (hp : p.thread < x.count) :
    reassembled x (seen ++ [p]) =
      (reassembled x seen).deliver windowSize sequenceRange p.thread := by
  simp [reassembled,delivered,hp]

theorem reassembled_eof {p : Packet} (hp : x.count ≤ p.thread) :
    reassembled x (seen ++ [p]) = reassembled x seen := by
  simp [reassembled,delivered,Nat.not_lt.mpr hp]

theorem sound_reassembled (h : OvertakenOnce Packet.thread near Late seen) :
    (reassembled x seen).Sound windowSize sequenceRange (delivered x seen) :=
  Reassembly.sound_of_overtakenOnce (by decide) (by decide) (h.filter _)

theorem whole_of_load {rc : Receiver} (hne : x.contents ≠ [])
    (hsound : (reassembled x seen).Sound windowSize sequenceRange (delivered x seen))
    (h : rc.Represents x (reassembled x seen)) (hsize : rc.totalPayloadSize = x.contents.length) :
    Whole x { rc with windowOrigin := rc.windowOrigin + 1,isComplete := true } := by
  have horigin : (reassembled x seen).origin = x.count := by
    refine hsound.origin_eq (delivered_lt x seen) x.packet_length_le ?_
    rw [← h.total,hsize]
    exact (x.count_bounds hne).2.1
  have hself := hsound.eq_self (by decide) (by decide) horigin (delivered_lt x seen)
  refine ⟨h.view.seed,hsize,?_,congrArg (· + 1) (h.view.origin.trans horigin)⟩
  change rc.completedSet = _
  rw [h.view.completed,horigin]
  refine List.map_congr_left fun v hv => ?_
  rw [hself v (List.mem_range.mp hv)]
  rfl

theorem Whole.getPayload {rc : Receiver} (h : Whole x rc) (hne : x.contents ≠ [])
    (hc : rc.isComplete = true) :
    rc.getPayload.map Prod.fst = some ⟨x.contents.length,x.contents⟩ ∧
      rc.finalSequenceNumber = wrap (x.seed.val + x.count + 1) := by
  constructor
  · rw [Receiver.getPayload,if_pos hc,h.size,h.packets,packets_flatten (x.count_bounds hne).2.2]
    rfl
  · rw [Receiver.finalSequenceNumber,h.seed,h.origin,Int.natCast_succ,← add_assoc]

theorem inv_start {rc : Receiver} (hne : x.contents ≠ []) (h : start x rc = some st) :
    Inv x source st [] [] := by
  obtain ⟨hrun,_,_,_,hfits,hrc,hpath⟩ := start_spec hne h
  have hline : ∀ peer, st.path.line peer [] = ⟨[],none,[]⟩ := fun peer => by
    rw [hpath]
    rfl
  have hall : ∀ P : Packet → Prop, DelayLine.All P ⟨[],none,[]⟩ := fun P => by
    simp [DelayLine.All,DelayLine.waiting]
  refine ⟨hrun,hfits,hline source ▸ DelayLine.ordered_empty,hline source ▸ hall _,
    hline source.other ▸ hall _,fun _ => ?_,fun hc => ?_⟩
  · rw [hrc]
    exact Receiver.represents_startNewPayload _ x
  · rw [hrc] at hc
    cases hc

theorem Faithful.mono {n n' : ℕ} (h : n ≤ n') (p : Packet) (hp : Faithful x n p) :
    Faithful x n' p :=
  ⟨lt_of_lt_of_le hp.1 h,hp.2⟩

theorem Answers.mono (q p : Packet) (hp : Answers x seen p) : Answers x (seen ++ [q]) p :=
  ⟨hp.1,hp.2.imp fun _ hr => ⟨List.mem_append_left _ hr.1,hr.2⟩⟩

theorem Inv.path {path : Path Packet} {admits : Peer → Packet → Prop}
    (h : Inv x source st seen acked) (hl : st.path.Evolves Packet.mark admits path) :
    Inv x source { st with path := path } seen acked := by
  refine ⟨h.sender,h.fits,?_,hl.all (fun _ hp => hp) h.faithful,
    hl.all (fun _ hp => hp) h.answers,h.pending,h.complete⟩
  rcases hl source seen with he | hs
  · exact he ▸ h.line
  · refine h.line.step ?_ ?_ hs
    all_goals exact fun _ => rfl

theorem Inv.attempt (h : Inv x source st seen acked) {k : ℕ} {fails : Bool}
    (hs : st.attempt source k fails = some st') : Inv x source st' seen acked := by
  obtain ⟨t,ht,hr,⟨hsend,hacked,hp⟩ | ⟨hstop,hp⟩⟩ := attempt_spec hs
  · have hw := h.sender.window
    have hk : k < st.sender.threads.length := (List.getElem?_eq_some_iff.mp ht).1
    have hge : st.sender.currentWindowOrigin ≤ k := by
      by_contra hlt
      have := hw.past k (by omega)
      simp [Sender.flag,ht,hacked] at this
    have hlen := hw.length
    have hspan := hw.span
    refine ⟨hsend ▸ h.sender,h.fits,?_,?_,?_,hr ▸ h.pending,hr ▸ h.complete⟩
    · rw [hp,Path.line_send_self]
      refine h.line.push fun y hy => ?_
      have := (h.faithful y hy).1
      simp only [near]
      omega
    · rw [hp,hsend,Path.line_send_self]
      refine h.faithful.push ⟨hk,?_⟩
      have := hw.message k (by omega)
      simpa [ht] using this
    · rw [hp,Path.line_send_other _ _ _ (Peer.other_ne source)]
      exact h.answers
  · refine ⟨hstop ▸ h.sender.stopThread k,h.fits,hp ▸ h.line,?_,hp ▸ h.answers,hr ▸ h.pending,
      hr ▸ h.complete⟩
    rw [hp,hstop]
    simpa [Sender.stopThread] using h.faithful

theorem Inv.take {p : Packet} {path : Path Packet} (h : Inv x source st seen acked)
    (ht : st.path.take source.other = some (p,path)) :
    path.line source (seen ++ [p]) = st.path.line source seen ∧
      path.line source.other acked = st.path.line source.other acked ∧
      Faithful x st.sender.threads.length p ∧
      OvertakenOnce Packet.thread near Late (seen ++ [p]) := by
  have hline : path.line source (seen ++ [p]) = st.path.line source seen := Path.line_take_self ht
  have hpassed : (st.path.line source seen).passed = seen ++ [p] ++ path.down source.other := by
    rw [← hline]
    rfl
  refine ⟨hline,Path.line_take_other ht,h.faithful p (by simp [hpassed]),?_⟩
  have hall := h.line.passed
  rw [hpassed] at hall
  exact hall.of_append

theorem handled_cases {rc : Receiver} {p : Packet} {handled : Receiver.Handled}
    (hrep : rc.Represents x (reassembled x seen)) (hc : rc.isComplete = false)
    (hfits : x.contents.length < 2 ^ 31) (hmsg : p.msg = x.message p.thread)
    (hh : rc.handleMsg p.msg = some handled) :
    (p.thread < x.count ∧ handled.receiver.Represents x (reassembled x (seen ++ [p])) ∧
      handled.receiver.isComplete = false ∧
      handled.sent = [rc.ackMsg (residue x.seed p.thread).val]) ∨
    (x.count ≤ p.thread ∧ rc.totalPayloadSize = x.contents.length ∧
      handled.receiver = { rc with windowOrigin := rc.windowOrigin + 1,isComplete := true } ∧
      handled.sent = [rc.ackMsg (residue x.seed p.thread).val]) ∨
    (x.count ≤ p.thread ∧ handled.receiver = rc ∧ handled.sent = []) := by
  rw [hmsg] at hh
  rcases Nat.lt_or_ge p.thread x.count with hlt | hge
  · obtain ⟨rc',e,hrep',hc'⟩ := hrep.handleMsg_data hlt
    obtain rfl := Option.some.inj (hh.symm.trans e)
    exact .inl ⟨hlt,reassembled_data hlt ▸ hrep',hc'.trans hc,rfl⟩
  · rw [Receiver.handleMsg_eof _ hge hfits] at hh
    obtain rfl := Option.some.inj hh
    split_ifs with hsize
    · exact .inr (.inl ⟨hge,hsize,rfl,rfl⟩)
    · exact .inr (.inr ⟨hge,rfl,rfl⟩)

theorem message_sequenceNumber (x : Transmission) (i : ℕ) :
    (x.message i).sequenceNumber = (residue x.seed i).val := by
  rcases Nat.lt_or_ge i x.count with hlt | hge
  · exact (x.message_data hlt).2.2.1
  · exact (x.message_eof hge).2.1

structure Received (x : Transmission) (source : Peer) (st st' : Transfer)
    (seen acked : List Packet) (p : Packet) : Prop where
  inv : Inv x source st' (seen ++ [p]) acked
  sender : st'.sender = st.sender
  pending : st'.receiver.isComplete = false → st.receiver.isComplete = false
  once : OvertakenOnce Packet.thread near Late (seen ++ [p])
  sent : st'.path.line source.other acked = st.path.line source.other acked ∨
    ∃ ack, st'.path.line source.other acked =
      (st.path.line source.other acked).push ⟨ack,p.thread,p.delayed⟩

theorem Inv.receive (hne : x.contents ≠ []) (h : Inv x source st seen acked) {answered : Bool}
    (hs : st.receive source answered = some st') : ∃ p, Received x source st st' seen acked p := by
  obtain ⟨p,path,acks,htake,hsend,hpath,hcase⟩ := receive_spec hs
  obtain ⟨hline,hother,hp,honce⟩ := h.take htake
  have hreceiver : (st'.receiver.isComplete = false →
      st'.receiver.Represents x (reassembled x (seen ++ [p]))) ∧
      (st'.receiver.isComplete = true → Whole x st'.receiver) ∧
      (acks = [] ∨ ∃ ack, acks = [ack] ∧ ack.sequenceNumber = (residue x.seed p.thread).val) := by
    rcases hcase with ⟨hc,hr,hacks⟩ | ⟨hc,handled,hh,hr,rfl⟩
    · rw [hr]
      refine ⟨fun hc' => absurd hc (by simp [hc']),h.complete,?_⟩
      rw [hp.2,message_sequenceNumber] at hacks
      exact hacks.imp_right fun he => ⟨_,he,rfl⟩
    · rw [hr]
      rcases handled_cases (h.pending hc) hc h.fits hp.2 hh with
        ⟨_,hrep,hc',hsent⟩ | ⟨_,hsize,he,hsent⟩ | ⟨hge,he,hsent⟩
      · exact ⟨fun _ => hrep,fun hc'' => absurd hc'' (by simp [hc']),.inr ⟨_,hsent,rfl⟩⟩
      · have hsound := sound_reassembled (x := x) honce.of_append
        exact ⟨fun hc' => by simp [he] at hc',
          fun _ => he ▸ whole_of_load hne hsound (h.pending hc) hsize,.inr ⟨_,hsent,rfl⟩⟩
      · rw [he,reassembled_eof hge]
        exact ⟨h.pending,h.complete,.inl hsent⟩
  obtain ⟨hpending,hcomplete,hacks⟩ := hreceiver
  have hanswers : (st.path.line source.other acked).All (Answers x (seen ++ [p])) :=
    fun q hq => (h.answers q hq).mono p q
  have hbefore : st'.receiver.isComplete = false → st.receiver.isComplete = false := by
    rcases hcase with ⟨_,hr,_⟩ | ⟨hc,_⟩
    · exact hr ▸ id
    · exact fun _ => hc
  refine ⟨p,⟨hsend ▸ h.sender,h.fits,?_,?_,?_,hpending,hcomplete⟩,hsend,hbefore,honce,?_⟩
  · rw [hpath,line_reply_self,hline]
    exact h.line
  · rw [hpath,line_reply_self,hline,hsend]
    exact h.faithful
  · rcases hacks with rfl | ⟨ack,rfl,hnum⟩
    · rw [hpath]
      exact hother ▸ hanswers
    · rw [hpath,line_reply_other,hother]
      exact hanswers.push ⟨hnum,p,by simp,rfl⟩
  · rcases hacks with rfl | ⟨ack,rfl,_⟩
    · exact .inl (hpath ▸ hother)
    · exact .inr ⟨ack,by rw [hpath,line_reply_other,hother]⟩

structure Acknowledged (x : Transmission) (source : Peer) (st st' : Transfer)
    (seen acked : List Packet) (p : Packet) : Prop where
  inv : Inv x source st' seen (acked ++ [p])
  receiver : st'.receiver = st.receiver
  line : st'.path.line source.other (acked ++ [p]) = st.path.line source.other acked
  answer : Answers x seen p
  flag : ∀ j, st'.sender.flag j = true → st.sender.flag j = true ∨
    st.sender.windowState (residue x.seed p.thread) = some j

theorem Inv.acknowledge (hne : x.contents ≠ []) (h : Inv x source st seen acked)
    (hs : st.acknowledge source = some st') :
    ∃ p, Acknowledged x source st st' seen acked p := by
  obtain ⟨p,path,htake,hr,hpath,hcase⟩ := acknowledge_spec hs
  have hline : path.line source seen = st.path.line source seen := Path.line_take_other htake
  have hother := line_acknowledge acked htake
  have hp : Answers x seen p := by
    apply h.answers
    rw [← hother]
    simp [Path.line]
  have hpathinv : ∀ n, st.sender.threads.length ≤ n →
      (st'.path.line source seen).Ordered Packet.thread near Late ∧
      (st'.path.line source seen).All (Faithful x n) ∧
      (st'.path.line source.other (acked ++ [p])).All (Answers x seen) := by
    intro n hn
    rw [hpath,hline,hother]
    exact ⟨h.line,fun q hq => (h.faithful q hq).mono hn,h.answers⟩
  rcases hcase with hsend | hack
  · obtain ⟨h1,h2,h3⟩ := hpathinv _ le_rfl
    exact ⟨p,⟨hsend ▸ h.sender,h.fits,h1,hsend ▸ h2,h3,hr ▸ h.pending,hr ▸ h.complete⟩,hr,
      hpath ▸ hother,hp,fun j hj => .inl (hsend ▸ hj)⟩
  · obtain ⟨s,e,hrun,hmono,hflag⟩ := h.sender.processAck hne (residue x.seed p.thread)
    rw [hp.1] at hack
    obtain rfl := Option.some.inj (hack.symm.trans e)
    have hlen : st.sender.threads.length ≤ st'.sender.threads.length := by
      rw [h.sender.window.length,hrun.window.length]
      exact Nat.add_le_add_left (x.span_mono hmono) 0
    obtain ⟨h1,h2,h3⟩ := hpathinv _ hlen
    refine ⟨p,⟨hrun,h.fits,h1,h2,h3,hr ▸ h.pending,hr ▸ h.complete⟩,hr,hpath ▸ hother,hp,?_⟩
    intro j hj
    simpa [hflag] using hj

theorem Inv.step (hne : x.contents ≠ []) (h : Inv x source st seen acked) {e : Event}
    (hs : (system source x).step st e = some st') : ∃ seen' acked', Inv x source st' seen' acked' := by
  cases e with
  | attempt k fails => exact ⟨seen,acked,h.attempt hs⟩
  | route peer isDelayed isDamage =>
    obtain ⟨path,hp,rfl⟩ := Option.map_eq_some_iff.mp hs
    have hl : Path.Evolves Packet.mark (fun _ _ => True) st.path path :=
      Path.evolves_route hp fun _ _ _ _ _ => trivial
    exact ⟨seen,acked,h.path hl⟩
  | idle =>
    obtain rfl := Option.some.inj hs
    exact ⟨seen,acked,h.path (Path.evolves_idle Packet.mark (fun _ _ => True) st.path)⟩
  | receive answered =>
    obtain ⟨p,hp⟩ := h.receive hne hs
    exact ⟨seen ++ [p],acked,hp.inv⟩
  | acknowledge =>
    obtain ⟨p,hp⟩ := h.acknowledge hne hs
    exact ⟨seen,acked ++ [p],hp.inv⟩

theorem inv_reachable (hne : x.contents ≠ []) (h : (system source x).Reachable st) :
    ∃ seen acked, Inv x source st seen acked :=
  (system source x).reachable_invariant (I := fun st => ∃ seen acked, Inv x source st seen acked)
    (fun _ ⟨_,hs⟩ => ⟨[],[],inv_start hne hs⟩) (fun _ _ _ ⟨_,_,hi⟩ hs => hi.step hne hs) h

theorem transfer_delivers_payload (hne : x.contents ≠ [])
    (h : (system source x).Reachable st) (hc : st.receiver.isPayloadComplete = true) :
    st.receiver.getPayload.map Prod.fst = some ⟨x.contents.length,x.contents⟩ ∧
      st.receiver.finalSequenceNumber = st.sender.finalSequenceNumber := by
  obtain ⟨seen,acked,hi⟩ := inv_reachable hne h
  obtain ⟨hpayload,hfinal⟩ := (hi.complete hc).getPayload hne hc
  refine ⟨hpayload,hfinal.trans ?_⟩
  rw [Sender.finalSequenceNumber,hi.sender.window.carries.seed,hi.sender.window.carries.count]

def oneByte : Transmission := ⟨5,7,[65],2⟩

def oneByteEvents : List Event := [.attempt 0 false,.route .one true false,.attempt 0 false,
  .route .one false false,.receive true,.receive true,.route .two false false,.acknowledge]

theorem transfer_delivers_payload_one_byte : ∃ st, (system .one oneByte).Reachable st ∧
    st.receiver.isPayloadComplete = true ∧
      st.receiver.getPayload.map Prod.fst = some ⟨1,[65]⟩ := by
  have hrun : (play .one oneByte (oneByteEvents ++
      [.attempt 1 false,.route .one false false,.receive true])).any
      (·.receiver.isPayloadComplete) = true := by decide
  obtain ⟨st,hst,hc⟩ := (Option.any_eq_true _ _).mp hrun
  have hr := reachable_of_play hst
  exact ⟨st,hr,hc,(transfer_delivers_payload (by decide) hr hc).1⟩

end Transfer
end FtpOverUdp
