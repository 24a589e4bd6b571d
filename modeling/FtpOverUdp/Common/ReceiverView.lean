import FtpOverUdp.Common.Receiver
import FtpOverUdp.Common.SenderWindow
import FtpOverUdp.Library.Reassembly

namespace FtpOverUdp

open Library

namespace Transmission

variable (x : Transmission)

theorem packet_length_le (i : ℕ) : (x.packet i).length ≤ bufferLength := by
  simp only [packet,List.length_take]
  omega

theorem message_data {i : ℕ} (hi : i < x.count) :
    (x.message i).type = .resp ∧ (x.message i).length = (x.packet i).length ∧
      (x.message i).sequenceNumber = (residue x.seed i).val ∧
      (x.message i).buffer.copyOut (x.packet i).length = x.packet i := by
  rw [message,if_pos hi]
  exact ⟨rfl,rfl,rfl,Buffer.copyOut_copyIn (x.packet_length_le i)⟩

theorem message_not_text {i : ℕ} (hi : i < x.count) (text : List UInt8) :
    (x.message i).isText text = false := by
  simp [Msg.isText,(x.message_data hi).1]

theorem eof_length : x.eof.length = 8 := rfl

theorem eof_buffer : ∃ rest, (Buffer.copyIn x.eof).val =
    eofText ++ [0] ++ (encodeInt x.contents.length ++ rest) := by
  refine ⟨List.replicate (bufferLength - 8) 0,?_⟩
  simp only [Buffer.copyIn,eof_length]
  rw [List.take_of_length_le (by rw [eof_length]; decide)]
  simp [eof]

theorem message_eof {i : ℕ} (hi : x.count ≤ i) :
    (x.message i).type = .respErr ∧ (x.message i).sequenceNumber = (residue x.seed i).val ∧
      (x.message i).buffer.cString = eofText ∧
      ∃ rest, (x.message i).buffer.val.drop 4 = encodeInt x.contents.length ++ rest := by
  obtain ⟨rest,hrest⟩ := x.eof_buffer
  rw [message,if_neg (Nat.not_lt.mpr hi)]
  refine ⟨rfl,rfl,?_,rest,?_⟩
  · change (Buffer.copyIn x.eof).val.takeWhile _ = eofText
    rw [hrest]
    rfl
  · change (Buffer.copyIn x.eof).val.drop 4 = _
    rw [hrest]
    rfl

end Transmission

namespace Receiver

structure View (x : Transmission) (r : Reassembly) (rc : Receiver) : Prop where
  seed : rc.sequenceSeed = x.seed.val
  origin : rc.windowOrigin = r.origin
  completed : rc.completedSet =
    (List.range r.origin).map fun v => (r.slot v).elim [] x.packet
  window : ∀ v, r.origin ≤ v → v < r.origin + sequenceRange →
    rc.currentWindow (residue x.seed v) = (r.slot v).map x.packet

structure Represents (x : Transmission) (r : Reassembly) (rc : Receiver) : Prop where
  view : rc.View x r
  valid : r.Valid windowSize
  total : rc.totalPayloadSize = r.load windowSize fun a => (x.packet a).length

variable {x : Transmission} {r : Reassembly} {rc : Receiver}

theorem View.inWindow_iff (h : rc.View x r) (a : ℕ) :
    rc.isSequenceNumberInWindow (residue x.seed a).val = true ↔
      r.position sequenceRange a < r.origin + windowSize := by
  have hhead : wrap ((r.origin : ℤ) + x.seed.val) = ((x.seed.val + r.origin) % 7 : ℕ) :=
    wrap_add x.seed r.origin
  simp only [isSequenceNumberInWindow,h.seed,h.origin,hhead,Reassembly.position,residue,
    sequenceRange,windowSize,Bool.and_eq_true,decide_eq_true_eq]
  split_ifs <;> omega

theorem residue_position (seed : Slot) (r : Reassembly) (a : ℕ) :
    residue seed (r.position sequenceRange a) = residue seed a := by
  rw [residue_eq_iff]
  exact Reassembly.position_mod (by decide) r a

theorem View.completeHead {o : ℕ} {slot : ℕ → Option ℕ} {a : ℕ} (h : rc.View x ⟨o,slot⟩)
    (ha : slot o = some a) (hnext : slot (o + sequenceRange) = none) :
    (rc.completeHead (residue x.seed o) (x.packet a)).View x ⟨o + 1,slot⟩ := by
  refine ⟨h.seed,congrArg (· + 1) h.origin,?_,?_⟩
  · change rc.completedSet ++ [x.packet a] = _
    simp [h.completed,List.range_succ,ha]
  · intro v hv hlt
    change Function.update rc.currentWindow _ _ _ = _
    rcases Nat.lt_or_ge v (o + sequenceRange) with hin | hout
    · have hne : residue x.seed v ≠ residue x.seed o := fun he => by
        have := residue_inj he.symm (Nat.le_of_succ_le hv) hin
        change o + 1 ≤ v at hv
        omega
      rw [Function.update_of_ne hne]
      exact h.window v (Nat.le_of_succ_le hv) hin
    · obtain rfl : v = o + sequenceRange := by
        change v < o + 1 + sequenceRange at hlt
        omega
      have he : residue x.seed (o + sequenceRange) = residue x.seed o := by
        rw [residue_eq_iff]
        exact Nat.add_mod_right o sequenceRange
      rw [he,Function.update_self]
      exact (congrArg (Option.map x.packet) hnext).symm

theorem View.normalizeBuffer {f o o' b : ℕ} {slot : ℕ → Option ℕ} (h : rc.View x ⟨o,slot⟩)
    (hle : o ≤ o') (hf : o' ≤ o + f) (hnone : slot o' = none)
    (hsome : ∀ v, o ≤ v → v < o' → (slot v).isSome) (hb : b ≤ o + sequenceRange)
    (hbeyond : ∀ v, b ≤ v → slot v = none) :
    ∃ rc', rc.normalizeBuffer f = some rc' ∧ rc'.View x ⟨o',slot⟩ ∧
      rc'.totalPayloadSize = rc.totalPayloadSize ∧ rc'.isComplete = rc.isComplete := by
  induction f generalizing rc o with
  | zero =>
    obtain rfl : o' = o := by omega
    exact ⟨rc,rfl,h,rfl,rfl⟩
  | succ f ih =>
    have hslot : slotOf (wrap ((rc.windowOrigin : ℤ) + rc.sequenceSeed)) =
        some (residue x.seed o) := by
      rw [h.seed,show rc.windowOrigin = o from h.origin]
      exact slotOf_wrap x.seed o
    simp only [Receiver.normalizeBuffer,hslot,Option.bind_some]
    rw [h.window o le_rfl (Nat.lt_add_of_pos_right (by decide))]
    rcases Nat.eq_or_lt_of_le hle with rfl | hlt
    · refine ⟨rc,?_,h,rfl,rfl⟩
      simp [hnone]
    · obtain ⟨a,ha⟩ := Option.isSome_iff_exists.mp (hsome o le_rfl hlt)
      have hnext := h.completeHead ha (hbeyond _ hb)
      obtain ⟨rc',e,hv,ht,hc⟩ := ih hnext hlt (by omega)
        (fun v hv => hsome v (Nat.le_of_succ_le hv)) (by omega)
      exact ⟨rc',by simpa [ha] using e,hv,ht,hc⟩

theorem represents_startNewPayload (rc : Receiver) (x : Transmission) :
    (rc.startNewPayload x.seed.val).Represents x Reassembly.empty := by
  refine ⟨⟨rfl,rfl,rfl,fun _ _ _ => rfl⟩,Reassembly.valid_empty,?_⟩
  simp [startNewPayload,Reassembly.load,Reassembly.empty]

theorem View.register (h : rc.View x r) {a : ℕ} :
    (rc.register (residue x.seed a) (x.packet a)).View x
      ⟨r.origin,(r.place windowSize (r.position sequenceRange a) a).slot⟩ := by
  have hge := Reassembly.position_ge (m := sequenceRange) r a
  constructor
  · exact h.seed
  · exact h.origin
  · change rc.completedSet = _
    rw [h.completed]
    refine List.map_congr_left fun v hv => ?_
    have hne : v ≠ r.position sequenceRange a := by
      have := List.mem_range.mp hv
      omega
    exact congrArg (fun o => Option.elim o [] x.packet) (Function.update_of_ne hne ..).symm
  · intro v hv hlt
    change Function.update rc.currentWindow _ _ _ = Option.map _ (Function.update r.slot _ _ v)
    by_cases hvp : v = r.position sequenceRange a
    · rw [hvp,residue_position,Function.update_self,Function.update_self]
      rfl
    · have hne : residue x.seed v ≠ residue x.seed a := fun heq => by
        rw [← residue_position x.seed r a,residue_eq_iff] at heq
        exact hvp (Reassembly.position_eq (by decide) r hv hlt
          ((Reassembly.position_mod (by decide) r a).symm.trans heq.symm)).symm
      rw [Function.update_of_ne hne,Function.update_of_ne hvp]
      exact h.window v hv hlt

theorem Represents.place (h : rc.Represents x r) {a : ℕ}
    (hlt : r.position sequenceRange a < r.origin + windowSize)
    (hnone : r.slot (r.position sequenceRange a) = none) :
    ∃ rc', (rc.register (residue x.seed a) (x.packet a)).normalizeBuffer sequenceRange = some rc' ∧
      rc'.Represents x (r.place windowSize (r.position sequenceRange a) a) ∧
      rc'.isComplete = rc.isComplete := by
  have hge := Reassembly.position_ge (m := sequenceRange) r a
  obtain ⟨hmono,hcount,hvalid⟩ := Reassembly.place_spec (a := a) h.valid hge hlt
  have hreg := h.view.register (a := a)
  obtain ⟨rc',e,hview,htotal,hcomplete⟩ := hreg.normalizeBuffer (f := sequenceRange)
    (b := (r.place windowSize (r.position sequenceRange a) a).origin + windowSize) hmono
    (by simp only [sequenceRange,windowSize] at *; omega) hvalid.head (fun v _ hv => hvalid.filled v hv)
    (by simp only [sequenceRange,windowSize] at *; omega) hvalid.beyond
  refine ⟨rc',e,⟨hview,hvalid,?_⟩,hcomplete⟩
  rw [htotal,Reassembly.load_place _ h.valid hge hlt hnone,← h.total]
  rfl

theorem handleMsg_message (rc : Receiver) {a : ℕ} (ha : a < x.count) :
    rc.handleMsg (x.message a) = rc.handleData (x.message a) := by
  have heof : isEofMsg (x.message a) = false := x.message_not_text ha eofText
  simp only [handleMsg,x.message_not_text ha nsfText,heof,Bool.false_eq_true,and_false,if_false]

theorem Represents.handleMsg_data (h : rc.Represents x r) {a : ℕ} (ha : a < x.count) :
    ∃ rc', rc.handleMsg (x.message a) =
        some ⟨rc',[rc.ackMsg (residue x.seed a).val],none⟩ ∧
      rc'.Represents x (r.deliver windowSize sequenceRange a) ∧
      rc'.isComplete = rc.isComplete := by
  obtain ⟨-,hlen,hseq,hout⟩ := x.message_data ha
  have hpacket := x.packet_length_le a
  have hwin := h.view.inWindow_iff a
  have hcell := h.view.window _ (Reassembly.position_ge (m := sequenceRange) r a)
    (Reassembly.position_lt (by decide) r a)
  rw [residue_position] at hcell
  simp only [handleMsg_message rc ha,handleData,hseq,slotOf_slot,Option.bind_some]
  rcases Reassembly.deliver_cases windowSize sequenceRange r a with ⟨hlt,hnone,he⟩ | ⟨hfull,he⟩
  · obtain ⟨rc',hplaced,hrep,hcomplete⟩ := h.place hlt hnone
    rw [if_pos (hwin.mpr hlt),hcell,hnone,if_neg (by simp),hlen,
      if_pos ⟨Int.natCast_nonneg _,by exact_mod_cast hpacket⟩,Int.toNat_natCast,hout,hplaced,he]
    exact ⟨rc',rfl,hrep,hcomplete⟩
  · rw [he]
    refine ⟨rc,?_,h,rfl⟩
    by_cases hlt : r.position sequenceRange a < r.origin + windowSize
    · have hsome : (rc.currentWindow (residue x.seed a)).isSome = true := by
        rw [hcell,Option.isSome_map]
        exact Option.isSome_iff_ne_none.mpr (hfull hlt)
      rw [if_pos (hwin.mpr hlt),if_pos hsome]
    · rw [if_neg (mt hwin.mp hlt)]

theorem handleMsg_eof (rc : Receiver) {i : ℕ} (hi : x.count ≤ i)
    (hfits : x.contents.length < 2 ^ 31) :
    rc.handleMsg (x.message i) = some (if rc.totalPayloadSize = x.contents.length then
      ⟨{ rc with windowOrigin := rc.windowOrigin + 1,isComplete := true },
        [rc.ackMsg (residue x.seed i).val],none⟩ else ⟨rc,[],none⟩) := by
  obtain ⟨htype,hseq,htext,rest,hrest⟩ := x.message_eof hi
  have hnsf : (x.message i).isText nsfText = false := by
    simp only [Msg.isText,htype,htext]
    decide
  have heof : isEofMsg (x.message i) = true := by
    simp only [isEofMsg,Msg.isText,htype,htext]
    decide
  have hsize : decodeInt ((x.message i).buffer.val.drop 4) = x.contents.length := by
    rw [hrest]
    exact decodeInt_encodeInt (by omega) (by omega) rest
  simp only [handleMsg,hnsf,heof,Bool.false_eq_true,and_false,if_false,if_true,handleEof,hsize,hseq]
  congr 1
  exact if_congr (by omega) rfl rfl

end Receiver
end FtpOverUdp
