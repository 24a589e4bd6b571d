import FtpOverUdp.Transfer.Integrity

namespace FtpOverUdp

open Library

namespace Transfer

-- the numbers of the copies that a line carries among other messages
def Near (a b : Option ℕ) : Prop := ∀ i ∈ a, ∀ j ∈ b, near i j

section Stream

variable {α : Type} (thread : α → Option ℕ) (msg : α → Msg)

def packets (l : List α) : List Packet :=
  l.filterMap fun a => (thread a).map fun k => ⟨msg a,k,true⟩

def Copies (x : Transmission) (n : ℕ) (a : α) : Prop :=
  ∀ k ∈ thread a, k < n ∧ msg a = x.message k

variable {thread msg} {x : Transmission} {n : ℕ} {a : α} {l : List α}

theorem packets_none (h : thread a = none) : packets thread msg (l ++ [a]) = packets thread msg l := by
  simp [packets,h]

theorem packets_some {k : ℕ} (h : thread a = some k) :
    packets thread msg (l ++ [a]) = packets thread msg l ++ [⟨msg a,k,true⟩] := by
  simp [packets,h]

theorem packets_once {late : α → Prop} (h : OvertakenOnce thread Near late l) :
    OvertakenOnce Packet.thread near Late (packets thread msg l) := by
  refine h.filterMap _ (fun a b a' b' ha hb hnear => ?_) fun a a' ha _ => ?_
  · obtain ⟨i,hi,rfl⟩ := Option.map_eq_some_iff.mp ha
    obtain ⟨j,hj,rfl⟩ := Option.map_eq_some_iff.mp hb
    exact hnear i hi j hj
  · obtain ⟨i,_,rfl⟩ := Option.map_eq_some_iff.mp ha
    rfl

theorem Copies.mono {n' : ℕ} (hn : n ≤ n') (h : Copies thread msg x n a) :
    Copies thread msg x n' a := fun k hk => ⟨(h k hk).1.trans_le hn,(h k hk).2⟩

end Stream

structure Fills (x : Transmission) (rc : Receiver) (seen : List Packet) : Prop where
  pending : rc.isComplete = false → rc.Represents x (reassembled x seen)
  complete : rc.isComplete = true → Whole x rc

variable {x : Transmission} {rc : Receiver} {seen : List Packet} {p : Packet}
  {handled : Receiver.Handled}

theorem fills_start (rc : Receiver) (x : Transmission) :
    Fills x (rc.startNewPayload x.seed.val) [] :=
  ⟨fun _ => Receiver.represents_startNewPayload rc x,fun hc => by cases hc⟩

theorem handleMsg_thrown {i : ℕ} (hfits : x.contents.length < 2 ^ 31)
    (hrep : ∃ r, rc.Represents x r) (hh : rc.handleMsg (x.message i) = some handled) :
    handled.thrown = none := by
  obtain ⟨r,hrep⟩ := hrep
  rcases Nat.lt_or_ge i x.count with hlt | hge
  · obtain ⟨rc',e,_,_⟩ := hrep.handleMsg_data hlt
    rw [Option.some.inj (hh.symm.trans e)]
  · have e := hh.symm.trans (Receiver.handleMsg_eof rc hge hfits)
    rw [Option.some.inj e]
    split_ifs
    · rfl
    · rfl

-- what a receiver does with a copy: it stores it, ends with the EOF or leaves an early EOF alone
inductive Took (x : Transmission) (rc : Receiver) (p : Packet) (handled : Receiver.Handled) : Prop
  | data (hlt : p.thread < x.count) (hopen : handled.receiver.isComplete = false)
      (hsent : handled.sent = [rc.ackMsg (residue x.seed p.thread).val])
  | eof (hge : x.count ≤ p.thread) (hdone : handled.receiver.isComplete = true)
      (hsent : handled.sent = [rc.ackMsg (residue x.seed p.thread).val])
  | early (hge : x.count ≤ p.thread) (hopen : handled.receiver.isComplete = false)
      (hsent : handled.sent = [])

theorem Fills.handle (hne : x.contents ≠ []) (hfits : x.contents.length < 2 ^ 31)
    (h : Fills x rc seen) (hopen : rc.isComplete = false) (hmsg : p.msg = x.message p.thread)
    (honce : OvertakenOnce Packet.thread near Late (seen ++ [p]))
    (hh : rc.handleMsg p.msg = some handled) :
    Fills x handled.receiver (seen ++ [p]) ∧ Took x rc p handled ∧ handled.thrown = none := by
  have hrep := h.pending hopen
  have hthrown := handleMsg_thrown hfits ⟨_,hrep⟩ (hmsg ▸ hh)
  rcases handled_cases hrep hopen hfits hmsg hh with
    ⟨hlt,hrep',hopen',hsent⟩ | ⟨hge,hsize,he,hsent⟩ | ⟨hge,he,hsent⟩
  · exact ⟨⟨fun _ => hrep',fun hc => by rw [hopen'] at hc; cases hc⟩,.data hlt hopen' hsent,hthrown⟩
  · have hwhole := whole_of_load hne (sound_reassembled honce.of_append) hrep hsize
    refine ⟨⟨fun hc => ?_,fun _ => he ▸ hwhole⟩,.eof hge (by rw [he]) hsent,hthrown⟩
    rw [he] at hc
    cases hc
  · refine ⟨⟨fun _ => ?_,fun hc => ?_⟩,.early hge (he ▸ hopen) hsent,hthrown⟩
    · rw [he,reassembled_eof hge]
      exact hrep
    · rw [he,hopen] at hc
      cases hc

theorem Fills.carried (hne : x.contents ≠ []) (hfits : x.contents.length < 2 ^ 31)
    (h : Fills x rc seen) (hopen : rc.isComplete = false) (hmsg : p.msg = x.message p.thread)
    (hh : rc.handleMsg p.msg = some handled) (hdone : handled.receiver.isComplete = true) :
    seen ≠ [] := by
  rintro rfl
  have hrep := h.pending hopen
  rcases handled_cases hrep hopen hfits hmsg hh with ⟨_,_,hopen',_⟩ | ⟨_,hsize,_⟩ | ⟨_,he,_⟩
  · rw [hopen'] at hdone
    cases hdone
  · have hload : (reassembled x []).load windowSize (fun a => (x.packet a).length) = 0 := by
      simp [reassembled,delivered,Reassembly.load,Reassembly.empty]
    rw [hrep.total,hload] at hsize
    exact hne (List.length_eq_zero_iff.mp hsize.symm)
  · rw [he,hopen] at hdone
    cases hdone

end Transfer
end FtpOverUdp
