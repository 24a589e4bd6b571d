import FtpOverUdp.Library.DelayLine
import Mathlib.Logic.Function.Basic

namespace FtpOverUdp

inductive Peer
  | one
  | two
  deriving DecidableEq

def Peer.other : Peer → Peer
  | .one => .two
  | .two => .one

@[simp] theorem Peer.other_ne (p : Peer) : p.other ≠ p := by cases p <;> decide

@[simp] theorem Peer.ne_other (p : Peer) : p ≠ p.other := by cases p <;> decide

@[simp] theorem Peer.other_other (p : Peer) : p.other.other = p := by cases p <;> rfl

theorem Peer.eq_or_eq_other (p q : Peer) : q = p ∨ q = p.other := by
  cases p <;> cases q <;> decide

structure Router (α : Type) where
  fileBuf : Option (Peer × α)
  waitCount : ℕ

namespace Router

variable {α : Type}

def start : Router α := ⟨none,0⟩

def sendProc (r : Router α) : Router α × List (Peer × α) :=
  ({ r with fileBuf := none },r.fileBuf.toList)

def forward (r : Router α) (destination : Peer) (packet : α) : Router α × List (Peer × α) :=
  if r.fileBuf.any (fun held => held.1 = destination) then
    let released := sendProc { r with waitCount := 0 }
    (released.1,(destination,packet) :: released.2)
  else (r,[(destination,packet)])

def receive (r : Router α) (destination : Peer) (packet : α) (isDelayed isDamage : Bool) :
    Router α × List (Peer × α) :=
  let counted := if r.fileBuf.isSome then { r with waitCount := r.waitCount + 1 } else r
  if r.fileBuf.isNone && isDelayed then
    ({ counted with fileBuf := some (destination,packet) },[])
  else if isDamage then (counted,[])
  else counted.forward destination packet

def idle (r : Router α) : Router α × List (Peer × α) :=
  if r.fileBuf.isSome then
    if r.waitCount + 1 ≥ 3 then
      let released := sendProc { r with waitCount := r.waitCount + 1 }
      ({ released.1 with waitCount := 0 },released.2)
    else ({ r with waitCount := r.waitCount + 1 },[])
  else (r,[])

def heldFor (r : Router α) (destination : Peer) : Option α :=
  r.fileBuf.bind fun held => if held.1 = destination then some held.2 else none

def sentTo (destination : Peer) (sent : List (Peer × α)) : List α :=
  (sent.filter fun s => s.1 = destination).map Prod.snd

theorem sentTo_self (d : Peer) (packets : List α) :
    sentTo d (packets.map (d,·)) = packets := by
  induction packets with
  | nil => rfl
  | cons x xs ih => simpa [sentTo] using ih

theorem sentTo_ne {d e : Peer} (h : e ≠ d) (packets : List α) :
    sentTo d (packets.map (e,·)) = [] := by
  induction packets with
  | nil => rfl
  | cons x xs ih => simp [sentTo,h]

theorem receive_cases (r : Router α) (d : Peer) (packet : α) (isDelayed isDamage : Bool) :
    (r.fileBuf = none ∧ isDelayed = true ∧
      (r.receive d packet isDelayed isDamage).1.fileBuf = some (d,packet) ∧
      (r.receive d packet isDelayed isDamage).2 = []) ∨
    ((r.fileBuf = none → isDelayed = false) ∧
      (r.receive d packet isDelayed isDamage).1.fileBuf = r.fileBuf ∧
      (r.receive d packet isDelayed isDamage).2 = []) ∨
    ((r.fileBuf = none → isDelayed = false) ∧ r.heldFor d = none ∧
      (r.receive d packet isDelayed isDamage).1.fileBuf = r.fileBuf ∧
      (r.receive d packet isDelayed isDamage).2 = [packet].map (d,·)) ∨
    ∃ y, r.fileBuf = some (d,y) ∧ (r.receive d packet isDelayed isDamage).1.fileBuf = none ∧
      (r.receive d packet isDelayed isDamage).2 = [packet,y].map (d,·) := by
  obtain ⟨buf,wait⟩ := r
  cases buf with
  | none => cases isDelayed <;> cases isDamage <;> simp [receive,forward,heldFor]
  | some held =>
    obtain ⟨e,y⟩ := held
    cases isDamage with
    | true => simp [receive]
    | false =>
      by_cases he : e = d
      · subst he
        simp [receive,forward,sendProc]
      · simp [receive,forward,heldFor,he]

theorem idle_cases (r : Router α) :
    (r.idle.1.fileBuf = r.fileBuf ∧ r.idle.2 = []) ∨
    ∃ d y, r.fileBuf = some (d,y) ∧ r.idle.1.fileBuf = none ∧ r.idle.2 = [y].map (d,·) := by
  obtain ⟨buf,wait⟩ := r
  cases buf with
  | none => simp [idle]
  | some held =>
    obtain ⟨e,y⟩ := held
    by_cases hw : wait + 1 ≥ 3 <;> simp [idle,hw,sendProc]

theorem heldFor_congr {r r' : Router α} (h : r'.fileBuf = r.fileBuf) (d : Peer) :
    r'.heldFor d = r.heldFor d := by rw [heldFor,heldFor,h]

theorem heldFor_none {r : Router α} (h : r.fileBuf = none) (d : Peer) : r.heldFor d = none := by
  rw [heldFor,h]
  rfl

theorem heldFor_some {r : Router α} {d : Peer} {y : α} (h : r.fileBuf = some (d,y)) (e : Peer) :
    r.heldFor e = if d = e then some y else none := by
  rw [heldFor,h]
  rfl

end Router
end FtpOverUdp
