import FtpOverUdp.Transfer.Integrity

namespace FtpOverUdp

open Library

def Receiver.Accepted (x : Transmission) (rc : Receiver) (i : ℕ) : Prop :=
  rc.completedSet[i]? = some (x.packet i) ∨
    rc.windowOrigin ≤ i ∧ i < rc.windowOrigin + windowSize ∧
      rc.currentWindow (residue x.seed i) = some (x.packet i)

instance (x : Transmission) (rc : Receiver) (i : ℕ) : Decidable (rc.Accepted x i) :=
  inferInstanceAs (Decidable (_ ∨ _ ∧ _ ∧ _))

namespace Transfer

def HeldOnce (source : Peer) (st : Transfer) : Event → Prop
  | .route peer isDelayed _ => peer = source.other → st.path.router.fileBuf = none →
      isDelayed = true → ∀ ack rest, st.path.up peer = ack :: rest → ack.delayed = false
  | _ => True

structure Exact (x : Transmission) (source : Peer) (st : Transfer) (seen acked : List Packet) :
    Prop where
  inv : Inv x source st seen acked
  answers : (st.path.line source.other acked).Bounded Packet.thread near Late
  own : st.receiver.isComplete = false → ∀ v a, (reassembled x seen).slot v = some a → a = v
  filled : st.receiver.isComplete = false → ∀ p ∈ seen, p.thread < x.count →
    (reassembled x seen).slot p.thread = some p.thread
  flagged : ∀ i, st.sender.flag i = true → ∃ p ∈ acked, p.thread = i

variable {x : Transmission} {source : Peer} {st st' : Transfer} {seen acked : List Packet}

theorem Inv.answered_seen (h : Inv x source st seen acked) {p : Packet} (hp : p ∈ acked) :
    ∃ q ∈ seen, q.thread = p.thread :=
  (h.answers p (by simp [Path.line,hp])).2

theorem Inv.seen_lt (h : Inv x source st seen acked) {p : Packet} (hp : p ∈ seen) :
    p.thread < x.span st.sender.currentWindowOrigin := by
  have hlt := (h.faithful p (by simp [Path.line,hp])).1
  have := h.sender.window.length
  omega

theorem Exact.accepted_flag (h : Exact x source st seen acked)
    (hc : st.receiver.isComplete = false) {i : ℕ} (hi : i < x.count)
    (hf : st.sender.flag i = true) : (reassembled x seen).slot i = some i := by
  obtain ⟨p,hp,rfl⟩ := h.flagged i hf
  obtain ⟨q,hq,hqp⟩ := h.inv.answered_seen hp
  rw [← hqp] at hi ⊢
  exact h.filled hc q hq hi

theorem Exact.accepted (h : Exact x source st seen acked) {i : ℕ} (hi : i < x.count)
    (hf : st.sender.flag i = true) : st.receiver.Accepted x i := by
  cases hc : st.receiver.isComplete with
  | true =>
    left
    rw [(h.inv.complete hc).packets,List.getElem?_map,List.getElem?_range hi]
    rfl
  | false =>
    obtain ⟨hview,hvalid,_⟩ := h.inv.pending hc
    have hslot := h.accepted_flag hc hi hf
    rcases Nat.lt_or_ge i (reassembled x seen).origin with hlt | hge
    · left
      rw [hview.completed,List.getElem?_map,List.getElem?_range hlt,Option.map_some,hslot]
      rfl
    · have hlt : i < (reassembled x seen).origin + windowSize := by
        by_contra hout
        rw [hvalid.beyond i (Nat.not_lt.mp hout)] at hslot
        cases hslot
      refine .inr ⟨hview.origin ▸ hge,hview.origin ▸ hlt,?_⟩
      rw [hview.window i hge (lt_trans hlt (Nat.add_lt_add_left (by decide) _)),hslot]
      rfl

theorem Exact.origin_le (h : Exact x source st seen acked)
    (hc : st.receiver.isComplete = false) :
    st.sender.currentWindowOrigin ≤ (reassembled x seen).origin := by
  by_contra hlt
  have hpast := h.inv.sender.window.past (reassembled x seen).origin (by omega)
  rw [Nat.zero_add] at hpast
  have hle := h.inv.sender.le
  have hslot := h.accepted_flag hc (by omega) hpast
  rw [(h.inv.pending hc).valid.head] at hslot
  cases hslot

theorem exact_start {rc : Receiver} (hne : x.contents ≠ []) (h : start x rc = some st) :
    Exact x source st [] [] := by
  obtain ⟨_,_,hflag,_,_,_,hpath⟩ := start_spec hne h
  refine ⟨inv_start hne h,?_,fun _ v a hv => ?_,by simp,fun i hi => ?_⟩
  · rw [hpath]
    exact DelayLine.bounded_empty
  · cases hv
  · simp [hflag] at hi

theorem deliver_own {r : Reassembly} {l : List ℕ} {j : ℕ} (hvalid : r.Valid windowSize)
    (hown : ∀ v a, r.slot v = some a → a = v) (hj : j < r.origin + windowSize)
    (hsound : (r.deliver windowSize sequenceRange j).Sound windowSize sequenceRange l) :
    (∀ v a, (r.deliver windowSize sequenceRange j).slot v = some a → a = v) ∧
      (r.deliver windowSize sequenceRange j).slot j = some j ∧
      ∀ v a, r.slot v = some a → (r.deliver windowSize sequenceRange j).slot v = some a := by
  have hmod := Reassembly.position_mod (m := sequenceRange) (by decide) r j
  have hge := Reassembly.position_ge (m := sequenceRange) r j
  rcases Reassembly.deliver_cases windowSize sequenceRange r j with ⟨hlt,hnone,he⟩ | ⟨hfull,he⟩
  · have hslot : ∀ u, (r.deliver windowSize sequenceRange j).slot u =
        if u = r.position sequenceRange j then some j else r.slot u := by
      rw [he]
      exact fun u => Function.update_apply ..
    have hle := (hsound.source (r.position sequenceRange j) j (by rw [hslot,if_pos rfl])).1
    have hpos : r.position sequenceRange j = j :=
      Reassembly.eq_of_mod_eq hmod hle (by simp only [windowSize,sequenceRange] at *; omega)
    rw [hpos] at hslot hnone
    refine ⟨fun v a hv => ?_,by rw [hslot,if_pos rfl],fun v a hv => ?_⟩
    · rw [hslot] at hv
      split_ifs at hv with hvj
      · exact (Option.some.inj hv).symm.trans hvj.symm
      · exact hown v a hv
    · rw [hslot,if_neg (fun hvj => by simp [hvj,hnone] at hv)]
      exact hv
  · rw [he]
    refine ⟨hown,?_,fun _ _ hv => hv⟩
    have hsome : (r.slot j).isSome := by
      rcases Nat.lt_or_ge j r.origin with hlt | hge'
      · exact hvalid.filled j hlt
      · have hpos : r.position sequenceRange j = j :=
          Reassembly.position_eq (by decide) r hge' (lt_trans hj (Nat.add_lt_add_left (by decide) _)) rfl
        rw [hpos] at hfull
        exact Option.isSome_iff_ne_none.mpr (hfull hj)
    obtain ⟨a,ha⟩ := Option.isSome_iff_exists.mp hsome
    rw [ha,hown j a ha]

theorem Exact.path {path : Path Packet} {admits : Peer → Packet → Prop}
    (h : Exact x source st seen acked) (hl : st.path.Evolves Packet.mark admits path)
    (hadm : ∀ p, admits source.other p → ¬Late p) :
    Exact x source { st with path := path } seen acked := by
  refine ⟨h.inv.path hl,?_,h.own,h.filled,h.flagged⟩
  rcases hl source.other acked with he | hs
  · exact he ▸ h.answers
  · refine h.answers.step ?_ ?_ hadm hs
    all_goals exact fun _ => rfl

theorem Exact.attempt (h : Exact x source st seen acked) {k : ℕ} {fails : Bool}
    (hs : st.attempt source k fails = some st') : Exact x source st' seen acked := by
  have hinv := h.inv.attempt hs
  obtain ⟨t,_,hr,⟨hsend,_,hp⟩ | ⟨hstop,hp⟩⟩ := attempt_spec hs
  · refine ⟨hinv,?_,hr ▸ h.own,hr ▸ h.filled,hsend ▸ h.flagged⟩
    rw [hp,Path.line_send_other _ _ _ (Peer.other_ne source)]
    exact h.answers
  · refine ⟨hinv,hp ▸ h.answers,hr ▸ h.own,hr ▸ h.filled,fun i hi => h.flagged i ?_⟩
    rwa [hstop,Sender.flag_stopThread] at hi

theorem Exact.receive_answers (h : Exact x source st seen acked) {p : Packet}
    (hp : Received x source st st' seen acked p) :
    (st'.path.line source.other acked).Bounded Packet.thread near Late := by
  rcases hp.sent with he | ⟨ack,he⟩
  · exact he ▸ h.answers
  · rw [he]
    refine h.answers.push (hp.once.straggles.anti ?_)
    rintro _ ⟨y,hy,rfl⟩
    exact (h.inv.answers y hy).2

theorem Exact.receive (hne : x.contents ≠ []) (h : Exact x source st seen acked)
    {answered : Bool} (hs : st.receive source answered = some st') :
    ∃ p, Exact x source st' (seen ++ [p]) acked := by
  obtain ⟨p,hp⟩ := h.inv.receive hne hs
  have hkept : st'.receiver.isComplete = false →
      (∀ v a, (reassembled x (seen ++ [p])).slot v = some a → a = v) ∧
      ∀ q ∈ seen ++ [p], q.thread < x.count →
        (reassembled x (seen ++ [p])).slot q.thread = some q.thread := by
    intro hc'
    have hc := hp.pending hc'
    rcases Nat.lt_or_ge p.thread x.count with hlt | hge
    · have hthread := hp.inv.seen_lt (p := p) (by simp)
      have hspan := x.span_le _ hp.inv.sender.le
      rw [hp.sender] at hthread hspan
      have horigin := h.origin_le hc
      have hsound := sound_reassembled (x := x) hp.once
      rw [reassembled_data hlt] at hsound ⊢
      obtain ⟨hown,hself,hkeep⟩ := deliver_own (h.inv.pending hc).valid (h.own hc) (by omega) hsound
      refine ⟨hown,fun q hq hqlt => ?_⟩
      rcases List.mem_append.mp hq with hq | hq
      · exact hkeep _ _ (h.filled hc q hq hqlt)
      · exact List.mem_singleton.mp hq ▸ hself
    · rw [reassembled_eof hge]
      refine ⟨h.own hc,fun q hq hqlt => ?_⟩
      rcases List.mem_append.mp hq with hq | hq
      · exact h.filled hc q hq hqlt
      · rw [List.mem_singleton.mp hq] at hqlt
        exact absurd hge (Nat.not_le.mpr hqlt)
  exact ⟨p,hp.inv,h.receive_answers hp,fun hc => (hkept hc).1,fun hc => (hkept hc).2,
    hp.sender ▸ h.flagged⟩

-- the two packets just below the window are acknowledged, and at most one of them can be
-- the exception that an overtaken answer allows
theorem Exact.thread_ge (h : Exact x source st seen acked) {p : Packet}
    (hp : Straggles Packet.thread near Late {k | ∃ q ∈ acked, q.thread = k} p) :
    st.sender.currentWindowOrigin ≤ p.thread + windowSize + 1 := by
  by_contra hlt
  have hacked : ∀ i, i < st.sender.currentWindowOrigin → ∃ q ∈ acked, q.thread = i :=
    fun i hi => h.flagged i (by simpa using h.inv.sender.window.past i hi)
  have h1 := hacked (st.sender.currentWindowOrigin - 1) (by omega)
  have h2 := hacked (st.sender.currentWindowOrigin - 2) (by omega)
  rcases hp with hall | ⟨_,e,hall⟩
  · have := hall _ h1
    simp only [near] at this
    omega
  · have hn1 := hall _ h1
    have hn2 := hall _ h2
    simp only [near] at hn1 hn2
    omega

theorem Exact.acknowledge (hne : x.contents ≠ []) (h : Exact x source st seen acked)
    (hs : st.acknowledge source = some st') : ∃ p, Exact x source st' seen (acked ++ [p]) := by
  obtain ⟨p,hp⟩ := h.inv.acknowledge hne hs
  refine ⟨p,hp.inv,hp.line ▸ h.answers,hp.receiver ▸ h.own,hp.receiver ▸ h.filled,fun i hi => ?_⟩
  rcases hp.flag i hi with hold | hstate
  · obtain ⟨q,hq,hqi⟩ := h.flagged i hold
    exact ⟨q,List.mem_append_left _ hq,hqi⟩
  · obtain ⟨j,hge,hlt,hres,hj⟩ := (h.inv.sender.window.state _ _).mp hstate
    obtain rfl : i = j := by omega
    have hstraggles : Straggles Packet.thread near Late {k | ∃ q ∈ acked, q.thread = k} p := by
      have hline := h.answers.line
      rw [← hp.line,Path.line,List.append_assoc,List.append_assoc,stragglers_append] at hline
      simpa [Stragglers] using hline.2.1
    have hlow := h.thread_ge hstraggles
    obtain ⟨q,hq,hqp⟩ := hp.answer.2
    have hhigh := h.inv.seen_lt hq
    have hspan := x.span_le _ h.inv.sender.le
    refine ⟨p,by simp,?_⟩
    simp only [windowSize] at hlow hspan
    rcases Nat.le_total p.thread i with hle | hle
    · exact residue_inj hres.symm hle (by simp only [sequenceRange]; omega)
    · exact (residue_inj hres hle (by simp only [sequenceRange]; omega)).symm

theorem Exact.step (hne : x.contents ≠ []) (h : Exact x source st seen acked) {e : Event}
    (hheld : HeldOnce source st e) (hs : (system source x).step st e = some st') :
    ∃ seen' acked', Exact x source st' seen' acked' := by
  cases e with
  | attempt k fails => exact ⟨seen,acked,h.attempt hs⟩
  | route peer isDelayed isDamage =>
    obtain ⟨path,hp,rfl⟩ := Option.map_eq_some_iff.mp hs
    have hl : Path.Evolves Packet.mark (fun origin p => origin = source.other → ¬Late p) st.path
        path := Path.evolves_route hp fun ack rest hup hbuf hdel hpeer => by
      simp [hheld hpeer hbuf hdel ack rest hup]
    exact ⟨seen,acked,h.path hl fun p hp => hp rfl⟩
  | idle =>
    obtain rfl := Option.some.inj hs
    exact ⟨seen,acked,h.path (Path.evolves_idle Packet.mark (fun _ p => ¬Late p) st.path)
      fun _ hp => hp⟩
  | receive answered =>
    obtain ⟨p,hp⟩ := h.receive hne hs
    exact ⟨seen ++ [p],acked,hp⟩
  | acknowledge =>
    obtain ⟨p,hp⟩ := h.acknowledge hne hs
    exact ⟨seen,acked ++ [p],hp⟩

theorem exact_reachable (hne : x.contents ≠ [])
    (h : (system source x).ReachableUnder (HeldOnce source) st) :
    ∃ seen acked, Exact x source st seen acked :=
  (system source x).reachableUnder_invariant
    (I := fun st => ∃ seen acked, Exact x source st seen acked)
    (fun _ ⟨_,hs⟩ => ⟨[],[],exact_start hne hs⟩) (fun _ _ _ ⟨_,_,hi⟩ hc hs => hi.step hne hc hs) h

theorem processAck_flags_accepted (hne : x.contents ≠ [])
    (h : (system source x).ReachableUnder (HeldOnce source) st)
    (hs : (system source x).step st .acknowledge = some st') {i : ℕ} (hi : i < x.count)
    (hnew : st'.sender.flag i = true) : st.receiver.Accepted x i := by
  obtain ⟨seen,acked,hex⟩ := exact_reachable hne h
  obtain ⟨p,hp⟩ := hex.inv.acknowledge hne hs
  obtain ⟨_,hex'⟩ := hex.acknowledge hne hs
  exact hp.receiver ▸ hex'.accepted hi hnew

theorem processAck_flags_accepted_one_byte : ∃ st st',
    (system .one oneByte).ReachableUnder (HeldOnce .one) st ∧ st.receiver.Accepted oneByte 0 ∧
      (system .one oneByte).step st .acknowledge = some st' ∧ st'.sender.flag 0 = true := by
  have hrun : (play .one oneByte oneByteEvents.dropLast).any (fun st =>
      ((system .one oneByte).step st .acknowledge).any (·.sender.flag 0)) = true := by decide
  obtain ⟨st,hst,hnext⟩ := (Option.any_eq_true _ _).mp hrun
  obtain ⟨st',hs,hf⟩ := (Option.any_eq_true _ _).mp hnext
  have hheld : ∀ e ∈ oneByteEvents.dropLast, ∀ st, HeldOnce .one st e := by
    simp [oneByteEvents,HeldOnce,Peer.other]
  have hr := reachableUnder_of_play hheld hst
  exact ⟨st,st',hr,processAck_flags_accepted (by decide) hr hs (by decide) hf,hs,hf⟩

def eightPackets : Transmission := ⟨5,7,List.replicate 1793 0,0⟩

-- the copy of packet 0 and its answer are both held, so the answer arrives when the window
-- has reached packet 7, which has the same number
def heldTwice : List Event := [.attempt 0 false,.attempt 1 false,.attempt 2 false,
  .route .one false false,.route .one false false,.route .one false false,
  .receive true,.receive true,.receive true,.attempt 0 false,.route .one true false,
  .route .two false false,.route .two false false,.route .two false false,
  .acknowledge,.acknowledge,.acknowledge,.attempt 3 false,.route .one false false,
  .receive true,.receive true,.route .two false false,.route .two true false,
  .attempt 4 false,.route .one false false,.receive true,.route .two false false,
  .acknowledge,.acknowledge]

theorem stale_ack_flags_unsent_packet : ¬∀ (x : Transmission) (source : Peer) (st st' : Transfer)
    (i : ℕ), x.contents ≠ [] → (system source x).Reachable st →
      (system source x).step st .acknowledge = some st' → i < x.count →
      st.sender.flag i = false → st'.sender.flag i = true → st.receiver.Accepted x i := by
  have hrun : (play .one eightPackets heldTwice).any (fun st => !st.sender.flag 7 &&
      !decide (st.receiver.Accepted eightPackets 7) &&
      ((system .one eightPackets).step st .acknowledge).any (·.sender.flag 7)) = true := by
    decide +kernel
  obtain ⟨st,hst,hnext⟩ := (Option.any_eq_true _ _).mp hrun
  simp only [Bool.and_eq_true,Bool.not_eq_true',decide_eq_false_iff_not] at hnext
  obtain ⟨⟨hold,hnot⟩,hnext⟩ := hnext
  obtain ⟨st',hs,hf⟩ := (Option.any_eq_true _ _).mp hnext
  intro hall
  exact hnot (hall eightPackets .one st st' 7 (by decide) (reachable_of_play hst) hs
    (by decide +kernel) hold hf)

end Transfer
end FtpOverUdp
