import FtpOverUdp.Common.SenderWindow
import FtpOverUdp.Library.System

namespace FtpOverUdp

open Library

namespace Sender

def startTransmission (self : Sender) (contents : List UInt8) (seed : Slot) : Option Sender :=
  (self.initializePayload (some contents) seed.val).bind Sender.send

-- an ACK number handed to `processAck`, or one turn of a SenderThread's loop
inductive Event
  | ack (index : Slot)
  | attempt (thread : ℕ) (sendtoFails : Bool)

def step (self : Sender) : Event → Option Sender
  | .ack index => if self.isPayloadSent then none else self.processAck index.val
  | .attempt k sendtoFails => (self.attempt k sendtoFails).map Prod.fst

def transmission (s₀ : Sender) (contents : List UInt8) (seed : Slot) : System Sender Event where
  init s := s₀.startTransmission contents seed = some s
  step := step

variable {x : Transmission} {base : ℕ} {s s' s₀ : Sender} {contents : List UInt8} {seed : Slot}

structure Transmits (x : Transmission) (base : ℕ) (s : Sender) : Prop where
  running : s.Running x base
  sent : s.isComplete = true → s.currentWindowOrigin = x.count
  eof : s.currentWindowOrigin = x.count → s.flag (base + x.count) = s.isComplete

theorem startTransmission_spec (h : s₀.startTransmission contents seed = some s) :
    ∃ s₁, s₀.initializePayload (some contents) seed.val = some s₁ ∧ s₁.send = some s :=
  Option.bind_eq_some_iff.mp h

theorem Transmits.start (hne : contents ≠ []) (h : s₀.startTransmission contents seed = some s) :
    s.Transmits ⟨s₀.serverId,s₀.clientId,contents,seed⟩ s₀.threads.length := by
  obtain ⟨s₁,h₁,h₂⟩ := startTransmission_spec h
  obtain ⟨hrun,horigin,hflag,hcomplete⟩ := Running.start hne h₁ h₂
  constructor
  · exact hrun
  · rw [hcomplete]
    nofun
  · rw [hflag,hcomplete]
    exact fun _ => rfl

theorem Running.processAck_isComplete (h : s.Running x base) (hne : x.contents ≠ []) {k : Slot}
    (hs : s.processAck k.val = some s') :
    s'.isComplete = if s.currentWindowOrigin = x.count then decide (k = residue x.seed x.count)
      else s.isComplete := by
  obtain ⟨hw,hle,hhead⟩ := h
  obtain ⟨ha,-,hcomplete⟩ := hw.acknowledgeSlot k
  simp only [Sender.processAck,slotOf_slot,Option.bind_some,ha.carries.count,ha.origin] at hs
  split_ifs at hs ⊢ with heof
  · obtain rfl := Option.some.inj hs
    have hwrap := wrap_add x.seed x.count
    simp only [checkEofAck,ha.origin,ha.carries.seed,heof,hwrap,residue,Fin.ext_iff,sequenceRange]
    exact decide_eq_decide.mpr (by omega)
  · have hlt : s.currentWindowOrigin < x.count := by omega
    obtain ⟨s₁,o',e₁,h₁,-,hcount,-,-,hc₁⟩ := ha.slide (if_pos hlt) hle
    rw [e₁,Option.bind_some,h₁.origin,h₁.carries.count] at hs
    rw [← hcomplete,← hc₁]
    split_ifs at hs with hdone
    · obtain ⟨index,-,rfl⟩ := Option.map_eq_some_iff.mp hs
      rfl
    · have hn : x.span s.currentWindowOrigin ≤ x.count := by
        rw [Transmission.span,if_pos hlt]
        exact Nat.min_le_right ..
      obtain ⟨s₂,e₂,-,-,hc₂⟩ := h₁.normalizeCurrentWindow hne hn
      exact Option.some.inj (hs.symm.trans e₂) ▸ hc₂

theorem step_ack {k : Slot} (hs : s.step (.ack k) = some s') :
    s.isComplete = false ∧ s.processAck k.val = some s' := by
  by_cases hsent : s.isPayloadSent = true
  · rw [step,if_pos hsent] at hs
    cases hs
  · rw [step,if_neg hsent] at hs
    exact ⟨Bool.eq_false_iff.mpr hsent,hs⟩

theorem Running.eof_flag (h : s.Running x base) (hlt : s.currentWindowOrigin < x.count) :
    s.flag (base + x.count) = false ∧ ∀ k, s.windowState k ≠ some (base + x.count) := by
  have hspan : x.span s.currentWindowOrigin ≤ x.count := by
    rw [Transmission.span,if_pos hlt]
    exact Nat.min_le_right ..
  constructor
  · apply flag_of_length_le
    rw [h.window.length]
    omega
  · intro k hk
    obtain ⟨i,-,hi,-,hj⟩ := (h.window.state k _).mp hk
    omega

theorem Running.eof_slot (h : s.Running x base) (heof : s.currentWindowOrigin = x.count) (k : Slot) :
    s.windowState k = some (base + x.count) ↔ k = residue x.seed x.count := by
  have hspan : x.span s.currentWindowOrigin = x.count + 1 := by
    rw [Transmission.span,if_neg (by omega)]
  rw [h.window.state,heof]
  rw [heof] at hspan
  constructor
  · rintro ⟨i,hlo,hhi,hr,-⟩
    obtain rfl : i = x.count := by omega
    exact hr.symm
  · rintro rfl
    exact ⟨x.count,le_rfl,by omega,rfl,rfl⟩

theorem Transmits.ack (h : s.Transmits x base) (hne : x.contents ≠ []) {k : Slot}
    (hs : s.step (.ack k) = some s') :
    s'.Transmits x base ∧ s.currentWindowOrigin ≤ s'.currentWindowOrigin ∧
      ∀ j, s'.flag j = (s.flag j || decide (s.windowState k = some j)) := by
  obtain ⟨hopen,hack⟩ := step_ack hs
  obtain ⟨s'',e,hrun,hmono,hflag⟩ := h.running.processAck hne k
  obtain rfl := Option.some.inj (hack.symm.trans e)
  have hcomplete := h.running.processAck_isComplete hne hack
  refine ⟨⟨hrun,fun hc => ?_,fun ho => ?_⟩,hmono,hflag⟩
  · rw [hcomplete,hopen] at hc
    split_ifs at hc with heof
    exact le_antisymm hrun.le (heof ▸ hmono)
  · rw [hcomplete,hflag]
    split_ifs with heof
    · rw [h.eof heof,hopen,Bool.false_or]
      exact decide_eq_decide.mpr (h.running.eof_slot heof k)
    · have hlt := lt_of_le_of_ne h.running.le heof
      obtain ⟨hnone,hslot⟩ := h.running.eof_flag hlt
      simp [hnone,hslot k,hopen]

theorem Transmits.attempt (h : s.Transmits x base) {k : ℕ} {fails : Bool}
    (hs : s.step (.attempt k fails) = some s') :
    s'.Transmits x base ∧ s'.currentWindowOrigin = s.currentWindowOrigin ∧
      ∀ j, s'.flag j = s.flag j := by
  obtain ⟨⟨s'',a⟩,ha,rfl⟩ := Option.map_eq_some_iff.mp hs
  obtain ⟨t,-,⟨-,-,rfl⟩ | ⟨-,rfl⟩⟩ := attempt_cases ha
  · exact ⟨h,rfl,fun _ => rfl⟩
  · refine ⟨⟨h.running.stopThread k,h.sent,fun ho => ?_⟩,rfl,flag_stopThread s k⟩
    rw [flag_stopThread]
    exact h.eof ho

theorem Transmits.step (h : s.Transmits x base) (hne : x.contents ≠ []) {e : Event}
    (hs : s.step e = some s') :
    s'.Transmits x base ∧ s.currentWindowOrigin ≤ s'.currentWindowOrigin := by
  cases e with
  | ack k => exact (h.ack hne hs).imp id And.left
  | attempt k fails => exact (h.attempt hs).imp id fun ho => ho.1.ge

theorem transmits_of_reachable (hne : contents ≠ [])
    (h : (transmission s₀ contents seed).Reachable s) :
    s.Transmits ⟨s₀.serverId,s₀.clientId,contents,seed⟩ s₀.threads.length :=
  (transmission s₀ contents seed).reachable_invariant (fun _ hs => .start hne hs)
    (fun _ _ _ ht hs => (ht.step hne hs).1) h

def slice (contents : List UInt8) (first last : ℕ) : List UInt8 :=
  (contents.drop first).take (last - first)

def dataBytes (contents : List UInt8) (i : ℕ) : List UInt8 :=
  slice contents (bufferLength * i) (min (bufferLength * (i + 1)) contents.length)

-- the packets that a payload is cut into and the EOF, as they leave the sender
structure Packetized (s s₀ : Sender) (contents : List UInt8) (seed : Slot) : Prop where
  occupied : ∀ k : Slot, (s.windowState k).isSome ↔
    if s.currentWindowOrigin < packetCount contents.length
    then ∃ i, s.currentWindowOrigin ≤ i ∧
      i < min (s.currentWindowOrigin + windowSize) (packetCount contents.length) ∧
      k.val = (seed.val + i) % sequenceRange
    else k.val = (seed.val + packetCount contents.length) % sequenceRange
  origin : s.currentWindowOrigin ≤ packetCount contents.length
  started : (s.threads.drop s₀.threads.length).map (·.msg) =
    (List.range (min (s.currentWindowOrigin + windowSize) (packetCount contents.length))).map
      (fun i => (SenderThread.create s₀.serverId s₀.clientId .resp
        ((seed.val + i) % sequenceRange : ℕ) (dataBytes contents i)).msg) ++
    if s.currentWindowOrigin = packetCount contents.length then
      [(SenderThread.create s₀.serverId s₀.clientId .respErr
        ((seed.val + packetCount contents.length) % sequenceRange : ℕ)
        (eofText ++ [0] ++ encodeInt contents.length)).msg]
    else []
  acknowledged : s.currentWindowOrigin = packetCount contents.length →
    ∀ i < packetCount contents.length, s.flag (s₀.threads.length + i) = true
  complete : s.isPayloadSent = true → s.currentWindowOrigin = packetCount contents.length

theorem packetCount_eq_ceil (L : ℕ) :
    packetCount L = (L + bufferLength - 1) / bufferLength := by
  simp only [packetCount,bufferLength]
  split_ifs <;> omega

theorem dataBytes_eq (x : Transmission) (i : ℕ) : dataBytes x.contents i = x.packet i := by
  simp only [dataBytes,slice,Transmission.packet,Nat.mul_comm i]
  rw [List.take_eq_take_iff,List.length_drop]
  simp only [bufferLength]
  omega

theorem flatMap_packet (x : Transmission) (n : ℕ) :
    (List.range n).flatMap x.packet = x.contents.take (n * bufferLength) := by
  induction n with
  | zero => simp
  | succ n ih =>
    rw [List.range_succ,List.flatMap_append,ih,List.flatMap_singleton,Transmission.packet,
      Nat.succ_mul,List.take_add]

theorem dataBytes_concat (contents : List UInt8) :
    (List.range (packetCount contents.length)).flatMap (dataBytes contents) = contents := by
  have hbytes : dataBytes contents = (⟨0,0,contents,0⟩ : Transmission).packet :=
    funext (dataBytes_eq ⟨0,0,contents,0⟩)
  rw [hbytes,flatMap_packet]
  apply List.take_of_length_le
  simp only [packetCount,bufferLength]
  split_ifs <;> omega

theorem Running.started (h : s.Running x base) :
    (s.threads.drop base).map (·.msg) =
      (List.range (x.span s.currentWindowOrigin)).map x.message := by
  have hlength := h.window.length
  apply List.ext_getElem?
  intro i
  rw [List.getElem?_map,List.getElem?_drop,List.getElem?_map]
  by_cases hi : i < x.span s.currentWindowOrigin
  · rw [h.window.message i hi,List.getElem?_range hi]
    rfl
  · rw [List.getElem?_eq_none (by omega),List.getElem?_eq_none (by simpa using hi)]
    rfl

theorem message_of_lt (x : Transmission) {i : ℕ} (hi : i < x.count) :
    x.message i = (SenderThread.create x.serverId x.clientId .resp
      ((x.seed.val + i) % sequenceRange : ℕ) (dataBytes x.contents i)).msg := by
  rw [Transmission.message,if_pos hi,dataBytes_eq]
  rfl

theorem message_count (x : Transmission) :
    x.message x.count = (SenderThread.create x.serverId x.clientId .respErr
      ((x.seed.val + x.count) % sequenceRange : ℕ) (eofText ++ [0] ++ encodeInt x.contents.length)).msg := by
  rw [Transmission.message,if_neg (lt_irrefl _)]
  rfl

theorem Running.occupied (h : s.Running x base) (k : Slot) :
    (s.windowState k).isSome ↔ ∃ i, s.currentWindowOrigin ≤ i ∧
      i < x.span s.currentWindowOrigin ∧ k.val = (x.seed.val + i) % sequenceRange := by
  rw [Option.isSome_iff_exists]
  constructor
  · rintro ⟨j,hj⟩
    obtain ⟨i,hlo,hhi,rfl,-⟩ := (h.window.state k j).mp hj
    exact ⟨i,hlo,hhi,rfl⟩
  · rintro ⟨i,hlo,hhi,hk⟩
    exact ⟨base + i,(h.window.state k _).mpr ⟨i,hlo,hhi,Fin.ext hk.symm,rfl⟩⟩

theorem map_message (x : Transmission) {n : ℕ} (hn : n ≤ x.count) :
    (List.range n).map x.message = (List.range n).map fun i =>
      (SenderThread.create x.serverId x.clientId .resp ((x.seed.val + i) % sequenceRange : ℕ)
        (dataBytes x.contents i)).msg := by
  apply List.map_congr_left
  intro i hi
  have hlt := List.mem_range.mp hi
  exact message_of_lt x (by omega)

theorem map_message_span (x : Transmission) {o : ℕ} (ho : o ≤ x.count) :
    (List.range (x.span o)).map x.message = (List.range (min (o + windowSize) x.count)).map (fun i =>
      (SenderThread.create x.serverId x.clientId .resp ((x.seed.val + i) % sequenceRange : ℕ)
        (dataBytes x.contents i)).msg) ++
    if o = x.count then
      [(SenderThread.create x.serverId x.clientId .respErr
        ((x.seed.val + x.count) % sequenceRange : ℕ)
        (eofText ++ [0] ++ encodeInt x.contents.length)).msg]
    else [] := by
  rw [Transmission.span]
  rcases Nat.lt_or_eq_of_le ho with hlt | heof
  · rw [if_pos hlt,if_neg hlt.ne,List.append_nil]
    exact map_message x (Nat.min_le_right ..)
  · have hmin : min (o + windowSize) x.count = x.count := by omega
    rw [if_neg (by omega),if_pos heof,hmin,List.range_succ,List.map_append,map_message x le_rfl,
      List.map_singleton,message_count]

theorem Running.occupied_iff (h : s.Running x base) (k : Slot) :
    (s.windowState k).isSome ↔ if s.currentWindowOrigin < x.count
      then ∃ i, s.currentWindowOrigin ≤ i ∧ i < min (s.currentWindowOrigin + windowSize) x.count ∧
        k.val = (x.seed.val + i) % sequenceRange
      else k.val = (x.seed.val + x.count) % sequenceRange := by
  have hle := h.le
  rw [h.occupied,Transmission.span]
  split_ifs with hlt
  · rfl
  · constructor
    · rintro ⟨i,hlo,hhi,hk⟩
      obtain rfl : i = x.count := by omega
      exact hk
    · exact fun hk => ⟨x.count,hle,Nat.lt_succ_self _,hk⟩

theorem Transmits.packetized {s₀ : Sender} {contents : List UInt8} {seed : Slot}
    (h : s.Transmits ⟨s₀.serverId,s₀.clientId,contents,seed⟩ s₀.threads.length) :
    s.Packetized s₀ contents seed := by
  constructor
  · exact h.running.occupied_iff
  · exact h.running.le
  · exact h.running.started.trans (map_message_span _ h.running.le)
  · intro heof i hi
    exact h.running.window.past i (heof ▸ hi)
  · exact h.sent

theorem sender_window_and_packets (hne : contents ≠ [])
    (h : (transmission s₀ contents seed).Reachable s) :
    s.Packetized s₀ contents seed ∧
      (List.range (packetCount contents.length)).flatMap (dataBytes contents) = contents ∧
      ∀ e s', s.step e = some s' → s.currentWindowOrigin ≤ s'.currentWindowOrigin := by
  have ht := transmits_of_reachable hne h
  exact ⟨ht.packetized,dataBytes_concat contents,fun e s' hs => (ht.step hne hs).2⟩

theorem sender_window_and_packets_one_byte : ∃ s : Sender, s.isPayloadSent = false ∧
    s.currentWindowOrigin = 1 ∧ s.Packetized (Sender.create 5 9) [7] 6 := by
  have hrun : (((Sender.create 5 9).startTransmission [7] 6).bind
      ((transmission (Sender.create 5 9) [7] 6).run · [.ack 6])).any
        (fun s => decide (s.isPayloadSent = false ∧ s.currentWindowOrigin = 1)) = true := by
    decide +kernel
  obtain ⟨s,hs,hend⟩ := (Option.any_eq_true _ _).mp hrun
  obtain ⟨s₁,hstart,hack⟩ := Option.bind_eq_some_iff.mp hs
  obtain ⟨hsent,horigin⟩ := of_decide_eq_true hend
  exact ⟨s,hsent,horigin,(sender_window_and_packets (by decide)
    (System.reachable_of_run _ hstart hack)).1⟩

end Sender
end FtpOverUdp
