import FtpOverUdp.Common.Receiver
import Mathlib.Algebra.BigOperators.Group.Finset.Basic
import Mathlib.Data.Finset.Range

namespace FtpOverUdp

-- a payload cut into packets that fit the buffer, with the number of its first packet
structure Cut where
  seed : Slot
  packets : List (List UInt8)
  sized : ∀ p ∈ packets, p ≠ [] ∧ p.length ≤ bufferLength

namespace Cut

variable (x : Cut)

def packet (i : ℕ) : List UInt8 := (x.packets[i]?).getD []

structure IsPacket (i : ℕ) (msg : Msg) : Prop where
  index : i < x.packets.length
  type : msg.type = .resp
  number : msg.sequenceNumber = (residue x.seed i).val
  length : msg.length = (x.packet i).length
  buffer : msg.buffer.copyOut (x.packet i).length = x.packet i

theorem packet_length_le (i : ℕ) : (x.packet i).length ≤ bufferLength := by
  unfold packet
  cases hi : x.packets[i]? with
  | none => exact Nat.zero_le _
  | some p => exact (x.sized p (List.mem_of_getElem? hi)).2

end Cut

namespace Receiver

variable {x : Cut} {rc rc' rc₀ : Receiver} {i : ℕ} {msg : Msg}

structure InRange (rc : Receiver) (i : ℕ) : Prop where
  lower : rc.windowOrigin ≤ i + 4
  upper : i ≤ rc.windowOrigin + 2

inductive Delivered (x : Cut) (rc₀ : Receiver) : List ℕ → Receiver → Prop
  | start : Delivered x rc₀ [] (rc₀.startNewPayload x.seed.val)
  | deliver {seen : List ℕ} {rc : Receiver} {i : ℕ} {msg : Msg} {handled : Handled} :
      Delivered x rc₀ seen rc → x.IsPacket i msg → rc.InRange i →
      rc.handleMsg msg = some handled → Delivered x rc₀ (seen ++ [i]) handled.receiver

-- what one reference reassembly of the accepted packets would hold
structure Assembled (x : Cut) (accepted : Finset ℕ) (rc : Receiver) : Prop where
  completed : rc.completedSet = (List.range rc.windowOrigin).map x.packet
  below : ∀ i < rc.windowOrigin, i ∈ accepted
  window : ∀ k data, rc.currentWindow k = some data ↔
    ∃ i ∈ accepted, rc.windowOrigin < i ∧ residue x.seed i = k ∧ data = x.packet i
  head : rc.currentWindow (residue x.seed rc.windowOrigin) = none
  total : rc.totalPayloadSize = ∑ i ∈ accepted, (x.packet i).length

-- the same before the window has been moved over the packets that are there
structure Loaded (x : Cut) (accepted : Finset ℕ) (rc : Receiver) : Prop where
  seed : rc.sequenceSeed = x.seed.val
  completed : rc.completedSet = (List.range rc.windowOrigin).map x.packet
  below : ∀ i < rc.windowOrigin, i ∈ accepted
  within : ∀ i ∈ accepted, i < rc.windowOrigin + windowSize
  window : ∀ k data, rc.currentWindow k = some data ↔
    ∃ i ∈ accepted, rc.windowOrigin ≤ i ∧ residue x.seed i = k ∧ data = x.packet i
  total : rc.totalPayloadSize = ∑ i ∈ accepted, (x.packet i).length

variable {accepted : Finset ℕ}

theorem Loaded.slot (h : rc.Loaded x accepted) (hlo : rc.windowOrigin ≤ i)
    (hhi : i < rc.windowOrigin + windowSize) :
    rc.currentWindow (residue x.seed i) = if i ∈ accepted then some (x.packet i) else none := by
  split_ifs with hi
  · exact (h.window _ _).mpr ⟨i,hi,hlo,rfl,rfl⟩
  · rw [Option.eq_none_iff_forall_ne_some]
    intro data hdata
    obtain ⟨j,hj,hjlo,hr,-⟩ := (h.window _ _).mp hdata
    have hjhi := h.within j hj
    apply hi
    rcases Nat.le_total i j with hle | hle
    · rwa [residue_inj hr.symm hle (by simp only [windowSize,sequenceRange] at *; omega)]
    · rwa [← residue_inj hr hle (by simp only [windowSize,sequenceRange] at *; omega)]

theorem Loaded.assembled (h : rc.Loaded x accepted) (hhead : rc.windowOrigin ∉ accepted) :
    rc.Assembled x accepted := by
  constructor
  · exact h.completed
  · exact h.below
  · intro k data
    rw [h.window]
    refine exists_congr fun i => and_congr_right fun hi => and_congr_left fun _ => ?_
    constructor
    · exact fun hle => lt_of_le_of_ne hle fun he => hhead (he ▸ hi)
    · exact Nat.le_of_lt
  · rw [h.slot le_rfl (by simp only [windowSize]; omega),if_neg hhead]
  · exact h.total

theorem Loaded.completeHead (h : rc.Loaded x accepted) (hhead : rc.windowOrigin ∈ accepted) :
    (rc.completeHead (residue x.seed rc.windowOrigin) (x.packet rc.windowOrigin)).Loaded x
      accepted := by
  constructor
  · exact h.seed
  · change rc.completedSet ++ [_] = (List.range (rc.windowOrigin + 1)).map x.packet
    rw [h.completed,List.range_succ,List.map_append,List.map_singleton]
  · intro i hi
    rcases Nat.lt_succ_iff_lt_or_eq.mp hi with hi | rfl
    · exact h.below i hi
    · exact hhead
  · intro i hi
    have := h.within i hi
    change i < rc.windowOrigin + 1 + windowSize
    omega
  · intro k data
    change Function.update rc.currentWindow _ none k = some data ↔
      ∃ i ∈ accepted, rc.windowOrigin + 1 ≤ i ∧ _
    by_cases hk : k = residue x.seed rc.windowOrigin
    · subst hk
      rw [Function.update_self]
      refine iff_of_false nofun ?_
      rintro ⟨i,hi,hlo,hr,-⟩
      have hhi := h.within i hi
      have := residue_inj hr.symm (by omega) (by simp only [windowSize,sequenceRange] at *; omega)
      omega
    · rw [Function.update_of_ne hk,h.window]
      refine exists_congr fun i => and_congr_right fun _ => ?_
      constructor
      · rintro ⟨hlo,hr,hd⟩
        exact ⟨lt_of_le_of_ne hlo fun he => hk (he ▸ hr.symm),hr,hd⟩
      · rintro ⟨hlo,hr,hd⟩
        exact ⟨by omega,hr,hd⟩
  · exact h.total

theorem Loaded.normalizeBuffer {n : ℕ} (h : rc.Loaded x accepted)
    (hn : ∀ i ∈ accepted, i < rc.windowOrigin + n) :
    ∃ rc', rc.normalizeBuffer n = some rc' ∧ rc'.Loaded x accepted ∧
      rc'.windowOrigin ∉ accepted := by
  induction n generalizing rc with
  | zero => exact ⟨rc,rfl,h,fun hi => absurd (hn _ hi) (by omega)⟩
  | succ n ih =>
    have hslot : slotOf (wrap (rc.windowOrigin + rc.sequenceSeed)) =
        some (residue x.seed rc.windowOrigin) := by
      rw [h.seed]
      exact slotOf_wrap x.seed rc.windowOrigin
    have hhead := h.slot le_rfl (by simp only [windowSize]; omega)
    simp only [Receiver.normalizeBuffer,hslot,Option.bind_some,hhead]
    split_ifs with hmem
    · apply ih (h.completeHead hmem)
      intro i hi
      have := hn i hi
      change i < rc.windowOrigin + 1 + n
      omega
    · exact ⟨rc,rfl,h,hmem⟩

theorem Loaded.register (h : rc.Loaded x accepted) (hlo : rc.windowOrigin ≤ i)
    (hhi : i < rc.windowOrigin + windowSize) (hnew : i ∉ accepted) :
    (rc.register (residue x.seed i) (x.packet i)).Loaded x (insert i accepted) := by
  constructor
  · exact h.seed
  · exact h.completed
  · exact fun j hj => Finset.mem_insert_of_mem (h.below j hj)
  · intro j hj
    rcases Finset.mem_insert.mp hj with rfl | hj
    · exact hhi
    · exact h.within j hj
  · intro k data
    change Function.update rc.currentWindow _ _ k = some data ↔ _
    by_cases hk : k = residue x.seed i
    · subst hk
      rw [Function.update_self]
      constructor
      · intro hd
        exact ⟨i,Finset.mem_insert_self ..,hlo,rfl,(Option.some.inj hd).symm⟩
      · rintro ⟨j,hj,hjlo,hr,rfl⟩
        rcases Finset.mem_insert.mp hj with rfl | hj
        · rfl
        · have hslot := h.slot hlo hhi
          rw [if_neg hnew,← hr,h.slot hjlo (h.within j hj),if_pos hj] at hslot
          cases hslot
    · rw [Function.update_of_ne hk,h.window]
      refine exists_congr fun j => ?_
      rw [Finset.mem_insert]
      constructor
      · rintro ⟨hj,hrest⟩
        exact ⟨.inr hj,hrest⟩
      · rintro ⟨rfl | hj,hrest⟩
        · exact absurd hrest.2.1.symm hk
        · exact ⟨hj,hrest⟩
  · change rc.totalPayloadSize + _ = _
    rw [h.total,Finset.sum_insert hnew,Nat.add_comm]

theorem inWindow_iff (hseed : rc.sequenceSeed = x.seed.val) (hrange : rc.InRange i) :
    rc.isSequenceNumberInWindow (residue x.seed i).val = true ↔ rc.windowOrigin ≤ i := by
  have hhead : wrap ((rc.windowOrigin : ℤ) + x.seed.val) =
      ((x.seed.val + rc.windowOrigin) % 7 : ℕ) := wrap_add x.seed rc.windowOrigin
  obtain ⟨hlower,hupper⟩ := hrange
  simp only [isSequenceNumberInWindow,hseed,hhead,residue,sequenceRange,windowSize,
    Bool.and_eq_true,decide_eq_true_eq]
  split_ifs <;> omega

structure Accepts (x : Cut) (accepted : Finset ℕ) (rc : Receiver) (i : ℕ) (handled : Handled) :
    Prop where
  thrown : handled.thrown = none
  sent : handled.sent = [rc.ackMsg (residue x.seed i).val]
  loaded : handled.receiver.Loaded x (insert i accepted)
  head : handled.receiver.windowOrigin ∉ insert i accepted
  again : i ∈ accepted → handled.receiver = rc

theorem Loaded.unchanged (h : rc.Loaded x accepted) (hhead : rc.windowOrigin ∉ accepted)
    (hi : i ∈ accepted) : Accepts x accepted rc i ⟨rc,[rc.ackMsg (residue x.seed i).val],none⟩ := by
  have hsame : insert i accepted = accepted := Finset.insert_eq_of_mem hi
  constructor
  · rfl
  · rfl
  · rw [hsame]
    exact h
  · rw [hsame]
    exact hhead
  · exact fun _ => rfl

theorem Loaded.handleMsg (h : rc.Loaded x accepted) (hhead : rc.windowOrigin ∉ accepted)
    (hp : x.IsPacket i msg) (hrange : rc.InRange i) :
    ∃ handled, rc.handleMsg msg = some handled ∧ Accepts x accepted rc i handled := by
  have htext (text : List UInt8) : msg.isText text = false := by simp [Msg.isText,hp.type]
  have hwindow := inWindow_iff h.seed hrange
  simp only [Receiver.handleMsg,isEofMsg,htext,Bool.false_eq_true,and_false,if_false,handleData,
    hp.number,hp.length,slotOf_slot,Option.bind_some]
  rcases Nat.lt_or_ge i rc.windowOrigin with hlt | hge
  · rw [if_neg (mt hwindow.mp (by omega))]
    exact ⟨_,rfl,h.unchanged hhead (h.below i hlt)⟩
  · have hupper : i < rc.windowOrigin + windowSize := by
      have := hrange.upper
      simp only [windowSize]
      omega
    rw [if_pos (hwindow.mpr hge),h.slot hge hupper]
    by_cases hi : i ∈ accepted
    · rw [if_pos hi]
      exact ⟨_,rfl,h.unchanged hhead hi⟩
    · have hfits := x.packet_length_le i
      rw [if_neg hi,if_neg (by simp),if_pos ⟨Int.natCast_nonneg _,by exact_mod_cast hfits⟩,
        Int.toNat_natCast,hp.buffer]
      have hloaded := h.register hge hupper hi
      obtain ⟨rc',hrun,hloaded',hhead'⟩ := hloaded.normalizeBuffer (n := sequenceRange) (by
        intro j hj
        have hwithin := hloaded.within j hj
        simp only [windowSize,sequenceRange] at *
        omega)
      rw [hrun]
      exact ⟨_,rfl,rfl,rfl,hloaded',hhead',fun hmem => absurd hmem hi⟩

theorem loaded_startNewPayload (x : Cut) (rc₀ : Receiver) :
    (rc₀.startNewPayload x.seed.val).Loaded x ∅ := by
  constructor <;> simp [startNewPayload]

theorem Delivered.loaded {seen : List ℕ} (h : Delivered x rc₀ seen rc) :
    rc.Loaded x seen.toFinset ∧ rc.windowOrigin ∉ seen.toFinset := by
  induction h with
  | start => exact ⟨loaded_startNewPayload x rc₀,by simp⟩
  | @deliver seen rc i msg handled _ hp hrange hrun ih =>
    obtain ⟨handled',hrun',haccepts⟩ := ih.1.handleMsg ih.2 hp hrange
    obtain rfl := Option.some.inj (hrun.symm.trans hrun')
    have hseen : (seen ++ [i]).toFinset = insert i seen.toFinset := by
      ext j
      simp
    rw [hseen]
    exact ⟨haccepts.loaded,haccepts.head⟩

theorem reassembles_in_any_order {seen : List ℕ} (h : Delivered x rc₀ seen rc) :
    rc.Assembled x seen.toFinset ∧
      ∀ i msg, x.IsPacket i msg → rc.InRange i → ∃ handled, rc.handleMsg msg = some handled ∧
        handled.thrown = none ∧ handled.sent = [rc.ackMsg (residue x.seed i).val] ∧
        (i ∈ seen → handled.receiver = rc) := by
  obtain ⟨hloaded,hhead⟩ := h.loaded
  refine ⟨hloaded.assembled hhead,fun i msg hp hrange => ?_⟩
  obtain ⟨handled,hrun,haccepts⟩ := hloaded.handleMsg hhead hp hrange
  exact ⟨handled,hrun,haccepts.thrown,haccepts.sent,fun hi =>
    haccepts.again (List.mem_toFinset.mpr hi)⟩

def twoPackets : Cut := ⟨6,[[7],[8]],by decide⟩

theorem reassembles_second_packet_first : ∃ rc : Receiver,
    Delivered twoPackets (Receiver.create 5 9) [1] rc ∧ rc.Assembled twoPackets {1} := by
  have hp : twoPackets.IsPacket 1 ⟨9,5,.resp,1,0,Buffer.copyIn [8]⟩ := by
    constructor <;> decide
  have hrange : ((Receiver.create 5 9).startNewPayload twoPackets.seed.val).InRange 1 := by
    constructor <;> decide
  have hstart : Delivered twoPackets (Receiver.create 5 9) [] _ := .start
  obtain ⟨handled,hrun,-⟩ := (reassembles_in_any_order hstart).2 1 _ hp hrange
  have hd := hstart.deliver hp hrange hrun
  exact ⟨_,hd,(reassembles_in_any_order hd).1⟩

end Receiver
end FtpOverUdp
