import FtpOverUdp.Common.SenderFrame
import FtpOverUdp.Common.SenderRun

namespace FtpOverUdp

open Library

namespace Sender

variable {x : Transmission} {base : ℕ} {s s' s'' s₀ : Sender} {contents : List UInt8} {seed : Slot}

def Retransmits (s : Sender) (base : ℕ) : Prop :=
  ∃ j t, base ≤ j ∧ s.threads[j]? = some t ∧ t.running = true ∧ t.isAcked = false

def NotStalled (s : Sender) (base : ℕ) : Prop := s.isPayloadSent = false → s.Retransmits base

-- whatever ACK numbers come next, with no further failure of `sendto`
def NeverStalls (s : Sender) (base : ℕ) : Prop :=
  ∀ (acks : List Slot) (t : Sender),
    (acks.foldlM (fun s index => s.step (.ack index)) s) = some t → t.NotStalled base

def KeepsSending (s : Sender) (base : ℕ) (e : Event) : Prop :=
  ∀ k t, e = .attempt k true → base ≤ k → s.threads[k]? = some t → t.isAcked = true

-- every packet that is not acknowledged has its thread in the loop
def Alive (s : Sender) (base : ℕ) : Prop :=
  ∀ j, base ≤ j → j < s.threads.length → s.flag j = false → s.runs j = true

theorem retransmits_iff : s.Retransmits base ↔
    ∃ j, base ≤ j ∧ s.runs j = true ∧ j < s.threads.length ∧ s.flag j = false := by
  constructor
  · rintro ⟨j,t,hj,ht,hrun,hack⟩
    have hlt := (List.getElem?_eq_some_iff.mp ht).1
    exact ⟨j,hj,by simp [runs,ht,hrun],hlt,by simp [flag,ht,hack]⟩
  · rintro ⟨j,hj,hrun,hlt,hflag⟩
    refine ⟨j,s.threads[j],hj,List.getElem?_eq_getElem hlt,?_,?_⟩
    · simpa [runs,List.getElem?_eq_getElem hlt] using hrun
    · simpa [flag,List.getElem?_eq_getElem hlt] using hflag

theorem Transmits.notStalled (h : s.Transmits x base) (ha : s.Alive base) : s.NotStalled base := by
  intro hopen
  have hspan := x.span_le _ h.running.le
  have hlength := h.running.window.length
  rw [retransmits_iff]
  rcases Nat.lt_or_eq_of_le h.running.le with hlt | heof
  · have hflag := h.running.head hlt
    have hin : base + s.currentWindowOrigin < s.threads.length := by
      rw [hlength,Transmission.span,if_pos hlt]
      simp only [windowSize]
      omega
    exact ⟨_,Nat.le_add_right _ _,ha _ (Nat.le_add_right _ _) hin hflag,hin,hflag⟩
  · have hflag : s.flag (base + x.count) = false := (h.eof heof).trans hopen
    have hin : base + x.count < s.threads.length := by
      rw [hlength,Transmission.span,if_neg (by omega)]
      omega
    exact ⟨_,Nat.le_add_right _ _,ha _ (Nat.le_add_right _ _) hin hflag,hin,hflag⟩

theorem Alive.ack (ha : s.Alive base) (h : s.Transmits x base) (hne : x.contents ≠ []) {k : Slot}
    (hs : s.step (.ack k) = some s') : s'.Alive base := by
  have hgrows := (advances_processAck (step_ack hs).2).threads
  have hflag := (h.ack hne hs).2.2
  intro j hj hlt hf
  rcases Nat.lt_or_ge j s.threads.length with hin | hout
  · rw [hflag,Bool.or_eq_false_iff] at hf
    rw [hgrows.old j hin]
    exact ha j hj hin hf.1
  · exact hgrows.new j hout hlt

theorem attempt_spec {k : ℕ} {fails : Bool} (hs : s.step (.attempt k fails) = some s') :
    ∃ t, s.threads[k]? = some t ∧ t.running = true ∧
      (t.isAcked = false ∧ fails = false ∧ s' = s ∨
        (t.isAcked = true ∨ fails = true) ∧ s' = s.stopThread k) := by
  obtain ⟨r,hr,rfl⟩ := Option.map_eq_some_iff.mp hs
  obtain ⟨t,ht,hr⟩ := Option.bind_eq_some_iff.mp hr
  refine ⟨t,ht,?_⟩
  split_ifs at hr with hrun hack hfail
  · exact ⟨hrun,.inr ⟨.inl hack,by rw [← Option.some.inj hr]⟩⟩
  · exact ⟨hrun,.inr ⟨.inr hfail,by rw [← Option.some.inj hr]⟩⟩
  · exact ⟨hrun,.inl ⟨by simpa using hack,by simpa using hfail,by rw [← Option.some.inj hr]⟩⟩

theorem runs_stopThread (s : Sender) (k j : ℕ) :
    (s.stopThread k).runs j = (s.runs j && decide (j ≠ k)) := by
  simp only [runs,stopThread,List.getElem?_modify]
  cases s.threads[j]? with
  | none => rfl
  | some t => by_cases hk : k = j <;> simp [hk,eq_comm]

theorem Alive.attempt (ha : s.Alive base) {k : ℕ} {fails : Bool}
    (hc : s.KeepsSending base (.attempt k fails)) (hs : s.step (.attempt k fails) = some s') :
    s'.Alive base := by
  obtain ⟨t,ht,-,⟨-,-,rfl⟩ | ⟨hwhy,rfl⟩⟩ := attempt_spec hs
  · exact ha
  · intro j hj hlt hf
    rw [flag_stopThread] at hf
    have hin : j < s.threads.length := by simpa [stopThread] using hlt
    rw [runs_stopThread,ha j hj hin hf,Bool.true_and,decide_eq_true_eq]
    rintro rfl
    have hacked : t.isAcked = true := by
      rcases hwhy with hacked | rfl
      · exact hacked
      · exact hc j t rfl hj ht
    simp [flag,ht,hacked] at hf

theorem NeverStalls.now (h : s.NeverStalls base) : s.NotStalled base := h [] s rfl

theorem NeverStalls.ack (h : s.NeverStalls base) {k : Slot} (hs : s.step (.ack k) = some s') :
    s'.NeverStalls base := by
  intro acks t ht
  apply h (k :: acks) t
  rw [List.foldlM_cons,hs]
  exact ht

theorem Transmits.neverStalls (h : s.Transmits x base) (hne : x.contents ≠ []) (ha : s.Alive base) :
    s.NeverStalls base := by
  intro acks
  induction acks generalizing s with
  | nil => exact fun t ht => Option.some.inj ht ▸ h.notStalled ha
  | cons k acks ih =>
    intro t ht
    obtain ⟨mid,hmid,ht⟩ := Option.bind_eq_some_iff.mp ht
    exact ih (h.ack hne hmid).1 (ha.ack h hne hmid) t ht

-- a data packet that nobody sends any more although it is not acknowledged
structure Abandoned (s : Sender) (x : Transmission) (base i : ℕ) : Prop where
  transmits : s.Transmits x base
  data : i < x.count
  started : i < x.span s.currentWindowOrigin
  flag : s.flag (base + i) = false
  runs : s.runs (base + i) = false

theorem Abandoned.origin_le {i : ℕ} (h : s.Abandoned x base i) : s.currentWindowOrigin ≤ i := by
  by_contra hgt
  have hpast := h.transmits.running.window.past i (by omega)
  rw [h.flag] at hpast
  cases hpast

theorem Abandoned.not_sent {i : ℕ} (h : s.Abandoned x base i) : s.isComplete = false := by
  rw [Bool.eq_false_iff]
  intro hsent
  have horigin := h.transmits.sent hsent
  have hle := h.origin_le
  have hdata := h.data
  omega

theorem Abandoned.ack {i : ℕ} (h : s.Abandoned x base i) (hne : x.contents ≠ []) {k : Slot}
    (hk : k ≠ residue x.seed i) :
    ∃ s', s.step (.ack k) = some s' ∧ s'.Abandoned x base i ∧
      s.currentWindowOrigin ≤ s'.currentWindowOrigin ∧
      ∀ j, s'.flag j = (s.flag j || decide (s.windowState k = some j)) := by
  obtain ⟨s',hack,-⟩ := h.transmits.running.processAck hne k
  have hs : s.step (.ack k) = some s' := by
    rw [step,isPayloadSent,h.not_sent]
    exact hack
  obtain ⟨ht,hmono,hflag⟩ := h.transmits.ack hne hs
  refine ⟨s',hs,⟨ht,h.data,h.started.trans_le (x.span_mono hmono),?_,?_⟩,hmono,hflag⟩
  · have hother : s.windowState k ≠ some (base + i) := by
      intro hstate
      obtain ⟨i',-,-,hr,he⟩ := (h.transmits.running.window.state k _).mp hstate
      obtain rfl : i = i' := by omega
      exact hk hr.symm
    simp [hflag,h.flag,hother]
  · have hin : base + i < s.threads.length := by
      rw [h.transmits.running.window.length]
      exact Nat.add_lt_add_left h.started base
    rw [(advances_processAck hack).threads.old _ hin]
    exact h.runs

theorem Running.state_residue (h : s.Running x base) {i : ℕ} (hlo : s.currentWindowOrigin ≤ i)
    (hhi : i < x.span s.currentWindowOrigin) :
    s.windowState (residue x.seed i) = some (base + i) :=
  (h.window.state _ _).mpr ⟨i,hlo,hhi,rfl,rfl⟩

theorem Abandoned.stalls_at_head {i : ℕ} (h : s.Abandoned x base i) (hne : x.contents ≠ [])
    (horigin : s.currentWindowOrigin = i) : ¬s.NeverStalls base := by
  intro hnever
  have hdistinct {d : ℕ} (hd : 0 < d) (hlt : d < sequenceRange) :
      residue x.seed (i + d) ≠ residue x.seed i := by
    intro he
    have := residue_inj he.symm (Nat.le_add_right i d) (by omega)
    omega
  obtain ⟨s₁,hs₁,h₁,hmono₁,hflag₁⟩ := h.ack hne (hdistinct (d := 1) (by decide) (by decide))
  obtain ⟨s₂,hs₂,h₂,hmono₂,hflag₂⟩ := h₁.ack hne (hdistinct (d := 2) (by decide) (by decide))
  have ho₁ : s₁.currentWindowOrigin = i := le_antisymm h₁.origin_le (horigin ▸ hmono₁)
  have ho₂ : s₂.currentWindowOrigin = i := le_antisymm h₂.origin_le (ho₁ ▸ hmono₂)
  obtain ⟨j,hj,hrun,hlt,hflag⟩ :=
    retransmits_iff.mp (((hnever.ack hs₁).ack hs₂).now h₂.not_sent)
  rw [h₂.transmits.running.window.length,ho₂] at hlt
  obtain ⟨m,rfl⟩ := Nat.exists_eq_add_of_le hj
  have hm : m < x.span i := by omega
  have hspan := (x.span_le i h.data.le).2.1
  simp only [windowSize] at hspan
  rcases Nat.lt_trichotomy m i with hpast | rfl | hahead
  · rw [h₂.transmits.running.window.past m (ho₂ ▸ hpast)] at hflag
    cases hflag
  · rw [h₂.runs] at hrun
    cases hrun
  · rw [hflag₂,hflag₁] at hflag
    obtain rfl | rfl : m = i + 1 ∨ m = i + 2 := by omega
    · have hstate := h.transmits.running.state_residue (i := i + 1) (by omega) (horigin ▸ hm)
      simp [hstate] at hflag
    · have hstate := h₁.transmits.running.state_residue (i := i + 2) (by omega) (ho₁ ▸ hm)
      simp [hstate] at hflag

theorem Abandoned.stalls {i : ℕ} (h : s.Abandoned x base i) (hne : x.contents ≠ []) :
    ¬s.NeverStalls base := by
  induction hn : i - s.currentWindowOrigin using Nat.strong_induction_on generalizing s with
  | _ n ih =>
    rcases Nat.lt_or_eq_of_le h.origin_le with hlt | horigin
    · intro hnever
      have hspan := (x.span_le _ h.transmits.running.le).2.1
      have hstarted := h.started
      have hhead : residue x.seed s.currentWindowOrigin ≠ residue x.seed i := by
        intro he
        have := residue_inj he hlt.le (by simp only [windowSize,sequenceRange] at *; omega)
        omega
      obtain ⟨s',hs,h',hmono,hflag⟩ := h.ack hne hhead
      have hstate := h.transmits.running.state_residue le_rfl (hlt.trans hstarted)
      have hslid : s'.currentWindowOrigin ≠ s.currentWindowOrigin := by
        intro he
        have hunacked := h'.transmits.running.head (h'.origin_le.trans_lt h.data)
        rw [he,hflag,hstate] at hunacked
        simp at hunacked
      have hle := h'.origin_le
      exact ih (i - s'.currentWindowOrigin) (by omega) h' rfl (hnever.ack hs)
    · exact h.stalls_at_head hne horigin

theorem Transmits.stalls_at_eof (h : s.Transmits x base) (hflag : s.flag (base + x.count) = false)
    (heof : s.currentWindowOrigin = x.count) (hruns : s.runs (base + x.count) = false) :
    ¬s.NeverStalls base := by
  intro hnever
  have hopen : s.isComplete = false := (h.eof heof).symm.trans hflag
  obtain ⟨j,hj,hrun,hlt,hunacked⟩ := retransmits_iff.mp (hnever.now hopen)
  obtain ⟨m,rfl⟩ := Nat.exists_eq_add_of_le hj
  have hspan : x.span s.currentWindowOrigin = x.count + 1 := by
    rw [Transmission.span,if_neg (by omega)]
  rw [h.running.window.length,hspan] at hlt
  rcases Nat.lt_or_eq_of_le (Nat.lt_succ_iff.mp (by omega : m < x.count + 1)) with hpast | rfl
  · rw [h.running.window.past m (heof ▸ hpast)] at hunacked
    cases hunacked
  · rw [hruns] at hrun
    cases hrun

theorem Transmits.stalls_of_failure (h : s.Transmits x base) (hne : x.contents ≠ []) {k : ℕ}
    {t : SenderThread} (ht : s.threads[k]? = some t) (hk : base ≤ k) (hacked : t.isAcked = false) :
    ¬(s.stopThread k).NeverStalls base := by
  obtain ⟨m,rfl⟩ := Nat.exists_eq_add_of_le hk
  have hlt := (List.getElem?_eq_some_iff.mp ht).1
  rw [h.running.window.length] at hlt
  have hflag : (s.stopThread (base + m)).flag (base + m) = false := by
    rw [flag_stopThread]
    simp [flag,ht,hacked]
  have hruns : (s.stopThread (base + m)).runs (base + m) = false := by simp [runs_stopThread]
  have hstopped : (s.stopThread (base + m)).Transmits x base := by
    refine ⟨h.running.stopThread _,h.sent,fun ho => ?_⟩
    rw [flag_stopThread]
    exact h.eof ho
  rcases Nat.lt_or_ge m x.count with hdata | heof
  · have habandoned : (s.stopThread (base + m)).Abandoned x base m :=
      ⟨hstopped,hdata,by simpa [stopThread] using hlt,hflag,hruns⟩
    exact habandoned.stalls hne
  · have hspan := (x.span_le _ h.running.le).2.2
    obtain rfl : m = x.count := by omega
    have horigin : s.currentWindowOrigin = x.count := by
      by_contra hne'
      rw [Transmission.span,if_pos (lt_of_le_of_ne h.running.le hne')] at hlt
      omega
    exact hstopped.stalls_at_eof hflag horigin hruns

theorem Transmits.neverStalls_iff (h : s.Transmits x base) (hne : x.contents ≠ [])
    (ha : s.Alive base) {e : Event} (hs : s.step e = some s') :
    (s'.NeverStalls base ↔ s.KeepsSending base e) ∧
      (s'.NeverStalls base → s'.Transmits x base ∧ s'.Alive base) := by
  have hnext := (h.step hne hs).1
  by_cases hc : s.KeepsSending base e
  · have hlive : s'.Alive base := by
      cases e with
      | ack k => exact ha.ack h hne hs
      | attempt k fails => exact ha.attempt hc hs
    exact ⟨iff_of_true (hnext.neverStalls hne hlive) hc,fun _ => ⟨hnext,hlive⟩⟩
  · have hstalls : ¬s'.NeverStalls base := by
      simp only [KeepsSending,not_forall] at hc
      obtain ⟨k,t,rfl,hk,ht,hacked⟩ := hc
      obtain ⟨t',-,-,⟨-,hfails,-⟩ | ⟨-,rfl⟩⟩ := attempt_spec hs
      · cases hfails
      · exact h.stalls_of_failure hne ht hk (by simpa using hacked)
    exact ⟨iff_of_false hstalls hc,fun hnever => absurd hnever hstalls⟩

theorem alive_of_start (hs : s₀.startTransmission contents seed = some s) :
    s.Alive s₀.threads.length := by
  obtain ⟨s₁,h₁,h₂⟩ := startTransmission_spec hs
  have hthreads : s₁.threads = s₀.threads := by
    simp only [initializePayload,Option.bind_some] at h₁
    split_ifs at h₁
    rw [← Option.some.inj h₁]
  have hgrows : s₁.Grows s := (advances_foldlM _ h₂).threads
  intro j hj hlt _
  exact hgrows.new j (by rw [hthreads]; exact hj) hlt

theorem populateSlot_isSome (hseed : s.sequenceSeed = seed.val) (i : ℕ) :
    (s.populateSlot i).isSome := by
  unfold populateSlot
  split_ifs
  · have hslot := slotOf_wrap seed (s.currentWindowOrigin + i)
    rw [Int.natCast_add,Int.add_right_comm] at hslot
    rw [hseed,hslot]
    rfl
  · rfl

theorem populateSlots_isSome (hseed : s.sequenceSeed = seed.val) (is : List ℕ) :
    (is.foldlM populateSlot s).isSome := by
  induction is generalizing s with
  | nil => rfl
  | cons i is ih =>
    obtain ⟨mid,hmid⟩ := Option.isSome_iff_exists.mp (populateSlot_isSome hseed i)
    rw [List.foldlM_cons,hmid]
    exact ih ((advances_populateSlot hmid).seed.trans hseed)

theorem startTransmission_isSome (hfits : packetCount contents.length * bufferLength < 2 ^ 31) :
    (s₀.startTransmission contents seed).isSome := by
  rw [startTransmission,initializePayload,Option.bind_some,if_pos hfits]
  exact populateSlots_isSome rfl _

theorem start_carries (hs : s₀.startTransmission contents seed = some s) :
    contents.length < 2 ^ 31 ∧ s.numberOfPackets = packetCount contents.length ∧
      s.sequenceSeed = seed.val := by
  obtain ⟨s₁,h₁,h₂⟩ := startTransmission_spec hs
  have hadvances := advances_foldlM _ h₂
  simp only [initializePayload,Option.bind_some] at h₁
  split_ifs at h₁ with hfits
  obtain rfl := Option.some.inj h₁
  refine ⟨?_,hadvances.packets,hadvances.seed⟩
  rcases eq_or_ne contents [] with rfl | hne
  · decide
  · have hle := ((⟨0,0,contents,0⟩ : Transmission).count_bounds hne).2.2
    exact hle.trans_lt hfits

theorem start_empty (hs : s₀.startTransmission [] seed = some s) :
    s.threads = s₀.threads ∧ s.isComplete = false := by
  obtain ⟨s₁,h₁,h₂⟩ := startTransmission_spec hs
  simp only [initializePayload,Option.bind_some] at h₁
  split_ifs at h₁
  obtain rfl := Option.some.inj h₁
  have hcount : packetCount ([] : List UInt8).length = 0 := rfl
  simp only [hcount] at h₂
  exact Option.some.inj h₂ ▸ ⟨rfl,rfl⟩

theorem transmission_never_stalls_iff (hs : s₀.startTransmission contents seed = some s)
    (events : List Event) :
    (s.NeverStalls s₀.threads.length ∧ (transmission s₀ contents seed).Along
      (fun _ _ t => t.NeverStalls s₀.threads.length) s events) ↔
    contents ≠ [] ∧ (transmission s₀ contents seed).Along
      (fun s e _ => s.KeepsSending s₀.threads.length e) s events := by
  by_cases hne : contents = []
  · subst hne
    obtain ⟨hthreads,hopen⟩ := start_empty hs
    refine iff_of_false (fun hall => ?_) (fun hall => hall.1 rfl)
    obtain ⟨j,t,hj,ht,-⟩ := hall.1.now hopen
    rw [hthreads,List.getElem?_eq_none hj] at ht
    cases ht
  · have ht := Transmits.start hne hs
    have hlive := alive_of_start hs
    have hruns := System.along_iff_of_step (transmission s₀ contents seed)
      (I := fun s => s.Transmits ⟨s₀.serverId,s₀.clientId,contents,seed⟩ s₀.threads.length ∧
        s.Alive s₀.threads.length)
      (fun s e s' hi hstep => hi.1.neverStalls_iff hne hi.2 hstep) ⟨ht,hlive⟩ events
    exact and_congr (iff_of_true (ht.neverStalls hne hlive) hne) hruns

theorem transmission_never_stalls_one_byte : ∃ s t : Sender,
    (Sender.create 5 9).startTransmission [7] 6 = some s ∧
    (transmission (Sender.create 5 9) [7] 6).run s
      [.attempt 0 false,.ack 6,.attempt 0 false,.attempt 1 false] = some t ∧
    t.isPayloadSent = false ∧ t.NeverStalls 0 := by
  let events : List Event := [.attempt 0 false,.ack 6,.attempt 0 false,.attempt 1 false]
  have hrun : ((Sender.create 5 9).startTransmission [7] 6).any (fun s =>
      ((transmission (Sender.create 5 9) [7] 6).run s events).any fun t =>
        !t.isPayloadSent) = true := by decide +kernel
  obtain ⟨s,hs,hrun⟩ := (Option.any_eq_true _ _).mp hrun
  obtain ⟨t,ht,hopen⟩ := (Option.any_eq_true _ _).mp hrun
  have hkeeps : ∀ e ∈ events, ∀ s : Sender, s.KeepsSending 0 e := by
    simp [events,KeepsSending]
  obtain ⟨hstart,hall⟩ := (transmission_never_stalls_iff hs events).mpr ⟨by decide,
    (transmission _ _ _).along_of_forall (fun e he s _ => hkeeps e he s) s⟩
  exact ⟨s,t,hs,ht,by simpa using hopen,(transmission _ _ _).along_final hstart hall ht⟩

theorem empty_payload_stalls : ∃ s : Sender,
    (Sender.create 5 9).startTransmission [] 2 = some s ∧ ¬s.NotStalled 0 := by
  have hstarts : ((Sender.create 5 9).startTransmission [] 2).isSome = true := by decide
  obtain ⟨s,hs⟩ := Option.isSome_iff_exists.mp hstarts
  obtain ⟨hthreads,hopen⟩ := start_empty hs
  refine ⟨s,hs,fun hlive => ?_⟩
  obtain ⟨j,t,-,ht,-⟩ := hlive hopen
  simp [hthreads,create] at ht

section Terminate

def terminateSlot (s : Sender) (slot : Slot) : Sender :=
  match s.windowState slot with
  | some flag => { s.setFlag flag with
      windowState := Function.update s.windowState slot none
      currentWindow := Function.update s.currentWindow slot none }
  | none => s

theorem terminate_eq (s : Sender) : s.terminateCurrentTransmission =
    ([0,1,2] : List Slot).foldl terminateSlot { s with isComplete := true } := rfl

theorem length_terminateSlot (s : Sender) (slot : Slot) :
    (s.terminateSlot slot).threads.length = s.threads.length := by
  unfold terminateSlot
  cases s.windowState slot with
  | none => rfl
  | some f => simp [setFlag]

theorem flag_terminateSlot (slot : Slot)
    (hstate : ∀ k j, s.windowState k = some j → j < s.threads.length) (j : ℕ) :
    (s.terminateSlot slot).flag j = (s.flag j || decide (s.windowState slot = some j)) := by
  unfold terminateSlot
  cases hf : s.windowState slot with
  | none => simp
  | some f =>
    have hset := flag_setFlag s f j (hstate slot f hf)
    have hflag : decide (some f = some j) = decide (j = f) :=
      decide_eq_decide.mpr (by rw [Option.some_inj,eq_comm])
    rw [hflag]
    exact hset

theorem state_terminateSlot (s : Sender) (slot k : Slot) :
    (s.terminateSlot slot).windowState k = if k = slot then none else s.windowState k := by
  unfold terminateSlot
  cases hf : s.windowState slot with
  | none =>
    split_ifs with hk
    · exact hk ▸ hf
    · rfl
  | some f => exact Function.update_apply ..

theorem flag_terminateSlots {slots : List Slot} (hslots : slots.Nodup)
    (hstate : ∀ k j, s.windowState k = some j → j < s.threads.length) (j : ℕ) :
    (slots.foldl terminateSlot s).flag j =
      (s.flag j || slots.any fun k => decide (s.windowState k = some j)) := by
  induction slots generalizing s with
  | nil => simp
  | cons slot slots ih =>
    obtain ⟨hfresh,hrest⟩ := List.nodup_cons.mp hslots
    have hnext : ∀ k j, (s.terminateSlot slot).windowState k = some j →
        j < (s.terminateSlot slot).threads.length := by
      intro k j hk
      rw [state_terminateSlot] at hk
      rw [length_terminateSlot]
      split_ifs at hk
      exact hstate k j hk
    have hsame : (slots.any fun k => decide ((s.terminateSlot slot).windowState k = some j)) =
        slots.any fun k => decide (s.windowState k = some j) := by
      rw [Bool.eq_iff_iff,List.any_eq_true,List.any_eq_true]
      refine exists_congr fun k => and_congr_right fun hk => ?_
      rw [state_terminateSlot,if_neg]
      rintro rfl
      exact hfresh hk
    rw [List.foldl_cons,ih hrest hnext,flag_terminateSlot slot hstate,hsame,List.any_cons,
      Bool.or_assoc]

-- every thread of this payload is acknowledged or has its flag in `windowState`
structure Tracked (s s₀ : Sender) : Prop where
  old : ∀ j < s₀.threads.length, s.flag j = s₀.flag j
  length : s₀.threads.length ≤ s.threads.length
  inside : ∀ k j, s.windowState k = some j → s₀.threads.length ≤ j ∧ j < s.threads.length
  distinct : ∀ k k' j, s.windowState k = some j → s.windowState k' = some j → k = k'
  tracked : ∀ j, s₀.threads.length ≤ j → j < s.threads.length →
    s.flag j = true ∨ ∃ k, s.windowState k = some j

theorem flag_foldlM {l : List ℕ} (h : l.foldlM populateSlot s = some s') (j : ℕ) :
    s'.flag j = s.flag j := by
  induction l generalizing s with
  | nil => exact Option.some.inj h ▸ rfl
  | cons i l ih =>
    obtain ⟨mid,hmid,h⟩ := Option.bind_eq_some_iff.mp h
    rw [ih h]
    simp only [populateSlot] at hmid
    split_ifs at hmid
    · obtain ⟨index,-,rfl⟩ := Option.map_eq_some_iff.mp hmid
      split_ifs
      · exact flag_startThread ..
      · rfl
    · exact Option.some.inj hmid ▸ rfl

theorem Transmits.tracked (h : s.Transmits x s₀.threads.length)
    (hold : ∀ j < s₀.threads.length, s.flag j = s₀.flag j) : s.Tracked s₀ := by
  have hlength := h.running.window.length
  constructor
  · exact hold
  · omega
  · intro k j hk
    obtain ⟨i,-,hi,-,rfl⟩ := (h.running.window.state k j).mp hk
    omega
  · exact fun k k' j hk hk' => h.running.window.state_inj hk hk'
  · intro j hj hlt
    obtain ⟨m,rfl⟩ := Nat.exists_eq_add_of_le hj
    rcases Nat.lt_or_ge m s.currentWindowOrigin with hpast | hin
    · exact .inl (h.running.window.past m hpast)
    · exact .inr ⟨_,h.running.state_residue hin (by omega)⟩

theorem old_of_reachable (hne : contents ≠ []) (h : (transmission s₀ contents seed).Reachable s) :
    s.Transmits ⟨s₀.serverId,s₀.clientId,contents,seed⟩ s₀.threads.length ∧
      ∀ j < s₀.threads.length, s.flag j = s₀.flag j := by
  refine (transmission s₀ contents seed).reachable_invariant
    (I := fun s => s.Transmits ⟨s₀.serverId,s₀.clientId,contents,seed⟩ s₀.threads.length ∧
      ∀ j < s₀.threads.length, s.flag j = s₀.flag j) (fun s hs => ?_) (fun s e s' hi hs => ?_) h
  · refine ⟨.start hne hs,fun j _ => ?_⟩
    obtain ⟨s₁,h₁,h₂⟩ := startTransmission_spec hs
    simp only [initializePayload,Option.bind_some] at h₁
    split_ifs at h₁
    rw [flag_foldlM h₂,← Option.some.inj h₁]
    rfl
  · refine ⟨(hi.1.step hne hs).1,fun j hj => ?_⟩
    rw [← hi.2 j hj]
    cases e with
    | ack k =>
      have hother : s.windowState k ≠ some j := by
        intro hk
        obtain ⟨i,-,-,-,rfl⟩ := (hi.1.running.window.state k j).mp hk
        omega
      simp [(hi.1.ack hne hs).2.2,hother]
    | attempt k fails => exact (hi.1.attempt hs).2.2 j

structure Hollow (s s₀ : Sender) : Prop where
  state : s.windowState = fun _ => none
  origin : s.currentWindowOrigin = s.numberOfPackets
  length : s.threads.length = s₀.threads.length
  flag : ∀ j, s.flag j = s₀.flag j

theorem Hollow.step (h : s.Hollow s₀) {e : Event} (hs : s.step e = some s') : s'.Hollow s₀ := by
  cases e with
  | ack k =>
    have hack := (step_ack hs).2
    simp only [processAck,slotOf_slot,Option.bind_some,acknowledgeSlot,h.state,h.origin,
      if_true] at hack
    obtain rfl := Option.some.inj hack
    exact ⟨rfl,rfl,h.length,h.flag⟩
  | attempt k fails =>
    obtain ⟨t,-,-,⟨-,-,rfl⟩ | ⟨-,rfl⟩⟩ := attempt_spec hs
    · exact h
    · refine ⟨h.state,h.origin,by simpa [stopThread] using h.length,fun j => ?_⟩
      rw [flag_stopThread]
      exact h.flag j

theorem hollow_of_reachable (h : (transmission s₀ [] seed).Reachable s) : s.Hollow s₀ := by
  refine (transmission s₀ [] seed).reachable_invariant (I := fun s => s.Hollow s₀)
    (fun s hs => ?_) (fun _ _ _ hi hs => hi.step hs) h
  obtain ⟨s₁,h₁,h₂⟩ := startTransmission_spec hs
  simp only [initializePayload,Option.bind_some] at h₁
  split_ifs at h₁
  obtain rfl := Option.some.inj h₁
  have hcount : packetCount ([] : List UInt8).length = 0 := rfl
  simp only [hcount] at h₂
  exact Option.some.inj h₂ ▸ ⟨rfl,rfl,rfl,fun _ => rfl⟩

theorem tracked_of_reachable (h : (transmission s₀ contents seed).Reachable s) : s.Tracked s₀ := by
  by_cases hne : contents = []
  · subst hne
    have hh := hollow_of_reachable h
    have hnone (k : Slot) (j : ℕ) : s.windowState k ≠ some j := by simp [hh.state]
    refine ⟨fun j _ => hh.flag j,hh.length.ge,fun k j hk => absurd hk (hnone k j),
      fun k _ j hk => absurd hk (hnone k j),fun j hj hlt => ?_⟩
    · have := hh.length
      omega
  · obtain ⟨ht,hold⟩ := old_of_reachable hne h
    exact ht.tracked hold

theorem acked_iff (s : Sender) : (∀ t ∈ s.threads, t.isAcked = true) ↔
    ∀ j < s.threads.length, s.flag j = true := by
  rw [List.forall_mem_iff_getElem]
  refine forall₂_congr fun j hj => ?_
  simp [flag,List.getElem?_eq_getElem hj]

theorem terminate_flag (h : s.Tracked s₀) (j : ℕ) :
    s.terminateCurrentTransmission.flag j = true ↔
      s.flag j = true ∨ ∃ k : Slot, k.val < windowSize ∧ s.windowState k = some j := by
  have hslots : ∀ k : Slot, k ∈ ([0,1,2] : List Slot) ↔ k.val < windowSize := by decide
  have hinside : ∀ k j, s.windowState k = some j → j < s.threads.length :=
    fun k j hk => (h.inside k j hk).2
  have hnodup : ([0,1,2] : List Slot).Nodup := by decide
  have hflags := flag_terminateSlots (s := { s with isComplete := true }) hnodup hinside j
  rw [terminate_eq,hflags,Bool.or_eq_true,List.any_eq_true]
  refine or_congr Iff.rfl (exists_congr fun k => ?_)
  rw [hslots,decide_eq_true_eq]

theorem terminate_length (s : Sender) :
    s.terminateCurrentTransmission.threads.length = s.threads.length := by
  have hall : ∀ slots : List Slot, ∀ s : Sender,
      (slots.foldl terminateSlot s).threads.length = s.threads.length := by
    intro slots
    induction slots with
    | nil => exact fun _ => rfl
    | cons slot slots ih => exact fun s => (ih _).trans (length_terminateSlot s slot)
  exact hall [0,1,2] { s with isComplete := true }

theorem terminate_stops_every_thread_iff (h : (transmission s₀ contents seed).Reachable s) :
    (∀ t ∈ s.terminateCurrentTransmission.threads, t.isAcked = true) ↔
      (∀ t ∈ s₀.threads, t.isAcked = true) ∧
      ∀ (k : Slot) (j : ℕ), s.windowState k = some j → s.flag j = false → k.val < windowSize := by
  have ht := tracked_of_reachable h
  rw [acked_iff,acked_iff,terminate_length]
  constructor
  · intro hall
    constructor
    · intro j hj
      rcases (terminate_flag ht j).mp (hall j (hj.trans_le ht.length)) with hflag | ⟨k,-,hk⟩
      · rw [← ht.old j hj]
        exact hflag
      · have := (ht.inside k j hk).1
        omega
    · intro k j hk hopen
      rcases (terminate_flag ht j).mp (hall j (ht.inside k j hk).2) with hflag | ⟨k',hlt,hk'⟩
      · rw [hopen] at hflag
        cases hflag
      · exact ht.distinct k k' j hk hk' ▸ hlt
  · rintro ⟨hold,hwindow⟩ j hj
    rw [terminate_flag ht]
    rcases Nat.lt_or_ge j s₀.threads.length with hlo | hhi
    · rw [ht.old j hlo]
      exact .inl (hold j hlo)
    · rcases ht.tracked j hhi hj with hflag | ⟨k,hk⟩
      · exact .inl hflag
      · cases hopen : s.flag j with
        | true => exact .inl rfl
        | false => exact .inr ⟨k,hwindow k j hk hopen,hk⟩

theorem terminate_stops_every_thread_seed_zero : ∃ s : Sender,
    (Sender.create 5 9).startTransmission [7] 0 = some s ∧
      ∀ t ∈ s.terminateCurrentTransmission.threads, t.isAcked = true := by
  have hrun : ((Sender.create 5 9).startTransmission [7] 0).any (fun s =>
      decide (∀ k : Slot, (s.windowState k).isSome → k.val < windowSize)) = true := by
    decide +kernel
  obtain ⟨s,hs,hend⟩ := (Option.any_eq_true _ _).mp hrun
  refine ⟨s,hs,(terminate_stops_every_thread_iff ⟨s,hs,.refl⟩).mpr ⟨by simp [create],?_⟩⟩
  exact fun k j hk _ => of_decide_eq_true hend k (by simp [hk])

theorem thread_sends_after_termination : ∃ s : Sender,
    (Sender.create 5 9).startTransmission [7] 3 = some s ∧
      ∃ t ∈ s.terminateCurrentTransmission.threads, t.running = true ∧ t.isAcked = false := by
  have hrun : ((Sender.create 5 9).startTransmission [7] 3).any (fun s =>
      decide (∃ t ∈ s.terminateCurrentTransmission.threads, t.running = true ∧
        t.isAcked = false)) = true := by
    decide +kernel
  obtain ⟨s,hs,hend⟩ := (Option.any_eq_true _ _).mp hrun
  exact ⟨s,hs,of_decide_eq_true hend⟩

end Terminate

end Sender
end FtpOverUdp
