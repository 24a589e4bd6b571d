import FtpOverUdp.Common.SenderThreads
import FtpOverUdp.Library.Progress
import FtpOverUdp.Router.Backlog
import FtpOverUdp.Transfer.Completion
import FtpOverUdp.Transfer.Fifo

namespace FtpOverUdp

open Library

namespace Transfer

structure Live (x : Transmission) (source : Peer) (st : Transfer) : Prop where
  settled : Settled x source st
  transmits : st.sender.Transmits x 0
  alive : st.sender.Alive 0
  calm : st.path.router.Calm

def Concluded (x : Transmission) (st : Transfer) : Prop :=
  st.sender.isPayloadSent = true ∧ st.receiver.isPayloadComplete = true ∧
    st.receiver.getPayload.map Prod.fst = some ⟨x.contents.length,x.contents⟩

variable {x : Transmission} {source : Peer} {st st' : Transfer}

theorem live_start {rc : Receiver} (hne : x.contents ≠ []) (h : start x rc = some st) :
    Live x source st := by
  have hsettled : Settled x source st := settled_start hne h
  obtain ⟨_,_,_,_,_,_,hpath⟩ := start_spec hne h
  obtain ⟨s,hs,rfl⟩ := Option.map_eq_some_iff.mp h
  have hstart : (Sender.create x.serverId x.clientId).startTransmission x.contents x.seed =
      some s := hs
  exact ⟨hsettled,Sender.Transmits.start hne hstart,Sender.alive_of_start hstart,fun _ => rfl⟩

theorem acknowledge_open (hs : st.acknowledge source = some st')
    (hopen : st.sender.isPayloadSent = false) : ∃ p path, st.path.take source = some (p,path) ∧
      st.sender.processAck p.msg.sequenceNumber = some st'.sender ∧
      st' = ⟨st'.sender,st.receiver,path⟩ := by
  obtain ⟨⟨p,path⟩,htake,hs⟩ := Option.bind_eq_some_iff.mp hs
  rw [hopen,if_neg Bool.false_ne_true] at hs
  obtain ⟨s,hack,rfl⟩ := Option.map_eq_some_iff.mp hs
  exact ⟨p,path,htake,hack,rfl⟩

-- what a step does to the sender: nothing, one turn of a thread, or one acknowledgement
theorem Live.sender_cases (h : Live x source st) {e : Event}
    (hs : (system source x).step st e = some st') : st'.sender = st.sender ∨
      (∃ k fails, e = .attempt k fails ∧
        st.sender.step (.attempt k fails) = some st'.sender) ∨
      ∃ k, st.sender.step (.ack k) = some st'.sender := by
  cases e with
  | attempt k fails =>
    obtain ⟨r,hr,rfl⟩ := Option.map_eq_some_iff.mp hs
    refine .inr (.inl ⟨k,fails,rfl,Option.map_eq_some_iff.mpr ⟨r,hr,?_⟩⟩)
    obtain ⟨s',a⟩ := r
    cases a <;> rfl
  | route peer isDelayed isDamage =>
    obtain ⟨path,_,rfl⟩ := Option.map_eq_some_iff.mp hs
    exact .inl rfl
  | idle =>
    obtain rfl := Option.some.inj hs
    exact .inl rfl
  | receive answered =>
    obtain ⟨_,_,_,_,hsend,_⟩ := receive_spec hs
    exact .inl hsend
  | acknowledge =>
    obtain ⟨seen,acked,hexact⟩ := h.settled.exact
    cases hopen : st.sender.isPayloadSent with
    | true =>
      obtain ⟨⟨p,path⟩,_,hs⟩ := Option.bind_eq_some_iff.mp hs
      rw [hopen,if_pos rfl] at hs
      exact .inl (Option.some.inj hs ▸ rfl)
    | false =>
      obtain ⟨p,path,htake,hack,_⟩ := acknowledge_open hs hopen
      refine .inr (.inr ⟨residue x.seed p.thread,?_⟩)
      rw [Sender.step,hopen,if_neg Bool.false_ne_true,← (hexact.answer_bounds htake).1]
      exact hack

theorem calm_step (h : st.path.router.Calm) {e : Event}
    (hs : (system source x).step st e = some st') : st'.path.router.Calm := by
  cases e with
  | attempt k fails =>
    obtain ⟨_,_,_,⟨_,_,hp⟩ | ⟨_,hp⟩⟩ := attempt_spec hs
    all_goals exact hp ▸ h
  | route peer isDelayed isDamage =>
    obtain ⟨path,hroute,rfl⟩ := Option.map_eq_some_iff.mp hs
    obtain ⟨packet,rest,_,rfl⟩ := Path.route_spec hroute
    exact Router.Calm.receive h _ _ _ _
  | idle =>
    obtain rfl := Option.some.inj hs
    exact Router.Calm.idle h
  | receive answered =>
    obtain ⟨p,path,acks,htake,_,hp,_⟩ := receive_spec hs
    have hkept : ∀ (q : Path Packet) (acks : List Msg), (reply source q p acks).router = q.router := by
      intro q acks
      induction acks generalizing q with
      | nil => rfl
      | cons ack acks ih => exact ih _
    rw [hp,hkept,(Path.take_spec htake).2]
    exact h
  | acknowledge =>
    obtain ⟨p,path,htake,_,hp,_⟩ := acknowledge_spec hs
    rw [hp,(Path.take_spec htake).2]
    exact h

theorem Live.step (hne : x.contents ≠ []) (h : Live x source st) {e : Event}
    (hc : Unfailing source st e) (hs : (system source x).step st e = some st') :
    Live x source st' ∧ st.sender.currentWindowOrigin ≤ st'.sender.currentWindowOrigin := by
  have hsettled := h.settled.step hne hc.1 hs
  have hcalm := calm_step h.calm hs
  rcases h.sender_cases hs with he | ⟨k,fails,rfl,hturn⟩ | ⟨k,hack⟩
  · exact ⟨⟨hsettled,he ▸ h.transmits,he ▸ h.alive,hcalm⟩,he ▸ le_rfl⟩
  · obtain ⟨htransmits,horigin,_⟩ := h.transmits.attempt hturn
    refine ⟨⟨hsettled,htransmits,h.alive.attempt ?_ hturn,hcalm⟩,horigin.ge⟩
    rintro k' _ he
    injection he with hk hf
    exact absurd (hf ▸ rfl) (hc.2 k)
  · obtain ⟨htransmits,horigin,_⟩ := h.transmits.ack hne hack
    exact ⟨⟨hsettled,htransmits,h.alive.ack h.transmits hne hack,hcalm⟩,horigin⟩

theorem Live.receive_total (h : Live x source st) {p : Packet} {path : Path Packet}
    (htake : st.path.take source.other = some (p,path)) :
    ∃ st', st.receive source true = some st' ∧ st'.path.backlog source ≤ path.backlog source + 1 := by
  obtain ⟨seen,acked,hexact⟩ := h.settled.exact
  obtain ⟨_,_,hp,_⟩ := hexact.inv.take htake
  have hbacklog : ∀ ack, (reply source path p [ack]).backlog source = path.backlog source + 1 :=
    fun ack => Path.backlog_send ..
  cases hc : st.receiver.isComplete with
  | true =>
    refine ⟨{ st with path := reply source path p [st.receiver.ackMsg p.msg.sequenceNumber] },?_,
      (hbacklog _).le⟩
    simp only [Transfer.receive,htake,Option.bind_some,Receiver.isPayloadComplete,hc,if_true]
  | false =>
    have hhandled : ∃ handled, st.receiver.handleMsg p.msg = some handled ∧
        (handled.sent = [] ∨ ∃ ack, handled.sent = [ack]) := by
      rw [hp.2]
      rcases Nat.lt_or_ge p.thread x.count with hlt | hge
      · obtain ⟨rc',e,_,_⟩ := (hexact.inv.pending hc).handleMsg_data hlt
        exact ⟨_,e,.inr ⟨_,rfl⟩⟩
      · refine ⟨_,Receiver.handleMsg_eof _ hge hexact.inv.fits,?_⟩
        split_ifs
        · exact .inr ⟨_,rfl⟩
        · exact .inl rfl
    obtain ⟨handled,hh,hsent⟩ := hhandled
    refine ⟨⟨st.sender,handled.receiver,reply source path p handled.sent⟩,?_,?_⟩
    · simp only [Transfer.receive,htake,Option.bind_some,Receiver.isPayloadComplete,hc,
        Bool.false_eq_true,if_false,hh,Option.map_some]
    · rcases hsent with he | ⟨ack,he⟩
      · rw [he]
        exact Nat.le_succ _
      · rw [he]
        exact (hbacklog ack).le

theorem Live.acknowledge_total (h : Live x source st) (hne : x.contents ≠ []) {p : Packet}
    {path : Path Packet} (htake : st.path.take source = some (p,path)) :
    ∃ st', st.acknowledge source = some st' ∧ st'.path = path := by
  obtain ⟨seen,acked,hexact⟩ := h.settled.exact
  cases hc : st.sender.isPayloadSent with
  | true =>
    exact ⟨{ st with path := path },by
      simp only [Transfer.acknowledge,htake,Option.bind_some,hc,if_true],rfl⟩
  | false =>
    obtain ⟨s,hack,_⟩ := hexact.inv.sender.processAck hne (residue x.seed p.thread)
    rw [← (hexact.answer_bounds htake).1] at hack
    exact ⟨⟨s,st.receiver,path⟩,by simp only [Transfer.acknowledge,htake,Option.bind_some,hc,
      Bool.false_eq_true,if_false,hack,Option.map_some],rfl⟩

-- losing what waits, letting the router time out and reading what has arrived empties the path
theorem Live.drain_step (h : Live x source st) (hne : x.contents ≠ [])
    (hb : st.path.backlog source ≠ 0) : ∃ e st', Unfailing source st e ∧
      (system source x).step st e = some st' ∧
      st'.path.backlog source < st.path.backlog source := by
  rcases Path.backlog_cases hb with ⟨peer,packet,rest,hup⟩ | ⟨held,hbuf⟩ | ⟨peer,p,path,htake⟩
  · obtain ⟨path,hroute,hlt⟩ := Path.backlog_damage Packet.mark hup source
    exact ⟨.route peer false true,{ st with path := path },⟨heldOnce_route st peer true,by simp⟩,
      by simp only [system,Transfer.step,hroute,Option.map_some],hlt⟩
  · exact ⟨.idle,_,⟨trivial,by simp⟩,rfl,Path.backlog_idle hbuf source⟩
  · have hbefore := Path.backlog_take htake source
    rcases Peer.eq_or_eq_other source peer with rfl | rfl
    · obtain ⟨st',hs,hp⟩ := h.acknowledge_total hne htake
      rw [if_pos rfl] at hbefore
      exact ⟨.acknowledge,st',⟨trivial,by simp⟩,hs,by rw [hp]; omega⟩
    · obtain ⟨st',hs,hle⟩ := h.receive_total htake
      rw [if_neg (Peer.other_ne source)] at hbefore
      exact ⟨.receive true,st',⟨trivial,by simp⟩,hs,by omega⟩

theorem Live.drains (h : Live x source st) (hne : x.contents ≠ []) :
    (system source x).Leads (Unfailing source) st fun t =>
      (Live x source t ∧ st.sender.currentWindowOrigin ≤ t.sender.currentWindowOrigin) ∧
        t.path = Path.fifo fun _ => [] := by
  have hdrained : (system source x).Leads (Unfailing source) st fun t =>
      (Live x source t ∧ st.sender.currentWindowOrigin ≤ t.sender.currentWindowOrigin) ∧
        t.path.backlog source = 0 := by
    apply System.leads_of_variant (fun t => t.path.backlog source) _ ⟨h,le_rfl⟩
    rintro t ⟨hlive,hle⟩ hb
    obtain ⟨e,t',hc,hs,hlt⟩ := hlive.drain_step hne hb
    obtain ⟨hlive',hle'⟩ := hlive.step hne hc hs
    exact System.leads_step hc hs (System.leads_now ⟨⟨hlive',hle.trans hle'⟩,hlt⟩)
  exact hdrained.mono fun t ht => ⟨ht.1,Path.fifo_of_backlog ht.1.1.calm ht.2⟩

theorem sum_packet_length (hne : x.contents ≠ []) :
    ∑ v ∈ Finset.range x.count, (x.packet v).length = x.contents.length := by
  have hflat := congrArg List.length (packets_flatten (x.count_bounds hne).2.2)
  rw [List.length_flatten,List.map_map] at hflat
  rw [← hflat]
  rfl

theorem total_of_slid {seen acked : List Packet} (hne : x.contents ≠ [])
    (h : Exact x source st seen acked) (hc : st.receiver.isComplete = false)
    (horigin : st.sender.currentWindowOrigin = x.count) :
    st.receiver.totalPayloadSize = x.contents.length := by
  have hrep := h.inv.pending hc
  have hsound : (reassembled x seen).Sound windowSize sequenceRange (delivered x seen) :=
    sound_reassembled h.inv.line.passed.of_append
  have hself : ∀ i < x.count, (reassembled x seen).slot i = some i := by
    intro i hi
    have hpast := h.inv.sender.window.past i (by omega)
    rw [Nat.zero_add] at hpast
    exact h.accepted_flag hc hi hpast
  have hbeyond : ∀ v, x.count ≤ v → (reassembled x seen).slot v = none := by
    intro v hv
    cases ha : (reassembled x seen).slot v with
    | none => rfl
    | some a =>
      obtain ⟨hva,_,hmem⟩ := hsound.source v a ha
      have := delivered_lt x seen a hmem
      omega
  have hn : x.count ≤ (reassembled x seen).origin + windowSize := by
    by_contra hlt
    have hpos := (x.count_bounds hne).1
    have hnone := hsound.valid.beyond (x.count - 1) (by omega)
    rw [hself _ (by omega)] at hnone
    cases hnone
  rw [hrep.total,Reassembly.load_eq_sum hn hself hbeyond,sum_packet_length hne]

-- what the receiver does with a copy of the packet at the head of the sender's window
theorem Live.answers_head (h : Live x source st) (hne : x.contents ≠ []) {o : ℕ}
    (ho : st.sender.currentWindowOrigin = o) :
    ∃ rc', st.receiver.isComplete = true ∧ rc' = st.receiver ∨
      st.receiver.isComplete = false ∧ st.receiver.handleMsg (x.message o) =
        some ⟨rc',[st.receiver.ackMsg (x.message o).sequenceNumber],none⟩ := by
  obtain ⟨seen,acked,hexact⟩ := h.settled.exact
  cases hc : st.receiver.isComplete with
  | true => exact ⟨_,.inl ⟨rfl,rfl⟩⟩
  | false =>
    rw [message_sequenceNumber]
    rcases Nat.lt_or_eq_of_le (ho ▸ hexact.inv.sender.le) with hlt | rfl
    · obtain ⟨rc',e,_,_⟩ := (hexact.inv.pending hc).handleMsg_data hlt
      exact ⟨rc',.inr ⟨rfl,e⟩⟩
    · have hh := Receiver.handleMsg_eof st.receiver (le_refl x.count) hexact.inv.fits
      rw [if_pos (total_of_slid hne hexact hc ho)] at hh
      exact ⟨_,.inr ⟨rfl,hh⟩⟩

theorem Live.head_attempt (h : Live x source st) (hopen : st.sender.isPayloadSent = false) :
    st.sender.attempt st.sender.currentWindowOrigin false =
        some (st.sender,.sent (x.message st.sender.currentWindowOrigin)) ∧
      st.sender.windowState (residue x.seed st.sender.currentWindowOrigin) =
        some st.sender.currentWindowOrigin := by
  have hrun := h.transmits.running
  have hlt : st.sender.currentWindowOrigin < x.span st.sender.currentWindowOrigin := by
    have := hrun.le
    simp only [Transmission.span,windowSize]
    split_ifs <;> omega
  have hin : st.sender.currentWindowOrigin < st.sender.threads.length := by
    rw [hrun.window.length]
    omega
  have hflag : st.sender.flag st.sender.currentWindowOrigin = false := by
    rcases Nat.lt_or_eq_of_le hrun.le with hlt | heof
    · simpa using hrun.head hlt
    · have := h.transmits.eof heof
      rw [Nat.zero_add,← heof] at this
      exact this.trans hopen
  have hruns := h.alive _ (Nat.zero_le _) hin hflag
  have hmsg := hrun.window.message _ hlt
  refine ⟨?_,by simpa using hrun.state_residue le_rfl hlt⟩
  rw [Nat.zero_add,List.getElem?_eq_getElem hin,Option.map_some] at hmsg
  simp only [Sender.flag,Sender.runs,List.getElem?_eq_getElem hin,Option.any_some] at hflag hruns
  simp only [Sender.attempt,List.getElem?_eq_getElem hin,Option.bind_some,hruns,hflag,if_true,
    Bool.false_eq_true,if_false,Option.some.inj hmsg]

theorem Live.head_acknowledged (h : Live x source st) (hne : x.contents ≠ [])
    (hopen : st.sender.isPayloadSent = false) :
    ∃ s', st.sender.processAck (residue x.seed st.sender.currentWindowOrigin).val = some s' ∧
      (st.sender.currentWindowOrigin < s'.currentWindowOrigin ∨ s'.isPayloadSent = true) := by
  have hrun := h.transmits.running
  obtain ⟨s',hack,hrun',hmono,hflag⟩ :=
    hrun.processAck hne (residue x.seed st.sender.currentWindowOrigin)
  refine ⟨s',hack,?_⟩
  rcases Nat.lt_or_eq_of_le hrun.le with hlt | heof
  · left
    refine lt_of_le_of_ne hmono fun he => ?_
    have hhead := hrun'.head (he ▸ hlt)
    rw [← he,Nat.zero_add,hflag,(h.head_attempt hopen).2] at hhead
    simp at hhead
  · right
    rw [Sender.isPayloadSent,hrun.processAck_isComplete hne hack,if_pos heof,heof]
    simp

theorem Live.exchange (h : Live x source st) (hne : x.contents ≠ [])
    (hpath : st.path = Path.fifo fun _ => []) (hopen : st.sender.isPayloadSent = false) :
    (system source x).Leads (Unfailing source) st fun t =>
      st.sender.currentWindowOrigin < t.sender.currentWindowOrigin ∨
        t.sender.isPayloadSent = true := by
  obtain ⟨hattempt,_⟩ := h.head_attempt hopen
  obtain ⟨rc',hrc⟩ := h.answers_head hne rfl
  obtain ⟨s',hack,hdone⟩ := h.head_acknowledged hne hopen
  have hst : st = ⟨st.sender,st.receiver,Path.fifo fun _ => []⟩ :=
    congrArg (Transfer.mk st.sender st.receiver) hpath
  let p : Packet := ⟨x.message st.sender.currentWindowOrigin,st.sender.currentWindowOrigin,false⟩
  let up : Peer → List Packet := Function.update (fun _ => []) source [p]
  have hup : up source = [p] := Function.update_self ..
  have hsent : (system source x).step ⟨st.sender,st.receiver,Path.fifo fun _ => []⟩
      (.attempt st.sender.currentWindowOrigin false) =
        some ⟨st.sender,st.receiver,Path.fifo up⟩ := by
    simp only [system,Transfer.step,Transfer.attempt,hattempt,Option.map_some]
    rfl
  rw [hst]
  have hc : Unfailing source ⟨st.sender,st.receiver,Path.fifo fun _ => []⟩
      (.attempt st.sender.currentWindowOrigin false) := ⟨trivial,by simp⟩
  refine System.leads_step hc hsent ?_
  let ack : Packet := ⟨st.receiver.ackMsg p.msg.sequenceNumber,p.thread,p.delayed⟩
  have hup' : Function.update (Function.update up source []) source.other
      (up source.other ++ [ack]) source.other = [ack] := by
    rw [Function.update_self,show up source.other = [] from
      Function.update_of_ne (Peer.other_ne source) ..]
    rfl
  have hreceived : Relation.ReflTransGen ((system source x).next (Unfailing source))
      ⟨st.sender,st.receiver,Path.fifo up⟩ ⟨st.sender,rc',Path.fifo (Function.update
        (Function.update up source []) source.other (up source.other ++ [ack]))⟩ := by
    rcases hrc with ⟨hc,rfl⟩ | ⟨hc,hh⟩
    · exact hop_answer hup hc
    · exact hop_receive hup hc hh
  have hread : st.sender.processAck ack.msg.sequenceNumber = some s' := by
    change st.sender.processAck (x.message st.sender.currentWindowOrigin).sequenceNumber = _
    rw [message_sequenceNumber]
    exact hack
  refine System.leads_goes hreceived ?_
  exact System.leads_goes (hop_acknowledge hup' hopen hread) (System.leads_now hdone)

-- the transfer ends, or the window has this far to go
def remaining (x : Transmission) (st : Transfer) : ℕ :=
  if st.sender.isPayloadSent then 0 else x.count + 1 - st.sender.currentWindowOrigin

theorem Live.round (h : Live x source st) (hne : x.contents ≠ [])
    (hopen : st.sender.isPayloadSent = false) :
    (system source x).Leads (Unfailing source) st fun t =>
      Live x source t ∧ remaining x t < remaining x st := by
  have hle := h.transmits.running.le
  refine (h.drains hne).trans fun t ⟨⟨hlive,hmono⟩,hpath⟩ => ?_
  have hkeep : ∀ s e s', Live x source s → Unfailing source s e →
      (system source x).step s e = some s' → Live x source s' := fun s e s' hi hc hs =>
    (hi.step hne hc hs).1
  cases hsent : t.sender.isPayloadSent with
  | true =>
    refine System.leads_now ⟨hlive,?_⟩
    simp only [remaining,hsent,hopen,if_true,Bool.false_eq_true,if_false]
    omega
  | false =>
    refine ((hlive.exchange hne hpath hsent).invariant hlive hkeep).mono fun u ⟨hu,hdone⟩ => ?_
    refine ⟨hu,?_⟩
    simp only [remaining,hopen,Bool.false_eq_true,if_false]
    split_ifs with hend
    · omega
    · have := hdone.resolve_right hend
      omega

theorem transfer_can_conclude (hne : x.contents ≠ [])
    (h : (system source x).ReachableUnder (Unfailing source) st) :
    (system source x).Leads (Unfailing source) st (Concluded x) := by
  have hlive : Live x source st := (system source x).reachableUnder_invariant
    (fun _ ⟨_,hs⟩ => live_start hne hs) (fun _ _ _ hi hc hs => (hi.step hne hc hs).1) h
  have hends : (system source x).Leads (Unfailing source) st fun t =>
      Live x source t ∧ t.sender.isPayloadSent = true :=
    System.leads_of_variant (remaining x)
      (fun s hs hopen => hs.round hne (Bool.eq_false_iff.mpr hopen)) hlive
  refine hends.mono fun t ⟨ht,hsent⟩ => ?_
  obtain ⟨seen,acked,hexact⟩ := ht.settled.exact
  have hc := ht.settled.sent hsent
  exact ⟨hsent,hc,((hexact.inv.complete hc).getPayload hne hc).1⟩

theorem transfer_can_conclude_one_byte : ∃ st, play .one oneByte (oneByteEvents.take 6) = some st ∧
    st.sender.isPayloadSent = false ∧
      (system .one oneByte).Leads (Unfailing .one) st (Concluded oneByte) := by
  have hrun : (play .one oneByte (oneByteEvents.take 6)).any
      (fun st => !st.sender.isPayloadSent) = true := by decide
  obtain ⟨st,hst,hopen⟩ := (Option.any_eq_true _ _).mp hrun
  have hc : ∀ e ∈ oneByteEvents.take 6, ∀ st, Unfailing .one st e := by
    simp [oneByteEvents,Unfailing,HeldOnce,Peer.other]
  exact ⟨st,hst,by simpa using hopen,
    transfer_can_conclude (by decide) (reachableUnder_of_play hc hst)⟩

end Transfer
end FtpOverUdp
