import FtpOverUdp.Router.Router
import Mathlib.Data.List.Range
import Mathlib.Algebra.Order.Group.Multiset
import Mathlib.Tactic.Abel

namespace FtpOverUdp

open Library

inductive Cycle (α : Type)
  | arrival (source : Peer) (buffer : α) (isDelayed isDamage : Bool)
  | timeout

structure RoutedPacket (α : Type) where
  number : ℕ
  source : Peer
  buffer : α

structure RouterRun (α : Type) where
  router : Router (RoutedPacket α)
  received : List (RoutedPacket α)
  sent : List (Peer × RoutedPacket α)
  dropped : List (RoutedPacket α)
  stored : List (RoutedPacket α)

namespace RouterRun

variable {α : Type}

def start : RouterRun α := ⟨Router.start,[],[],[],[]⟩

def arrival (st : RouterRun α) (source : Peer) (buffer : α) (isDelayed isDamage : Bool) :
    RouterRun α :=
  let packet : RoutedPacket α := ⟨st.received.length,source,buffer⟩
  let stores := st.router.fileBuf.isNone && isDelayed
  let routed := st.router.receive source.other packet isDelayed isDamage
  { router := routed.1
    received := st.received ++ [packet]
    sent := st.sent ++ routed.2
    dropped := if !stores && isDamage then st.dropped ++ [packet] else st.dropped
    stored := if stores then st.stored ++ [packet] else st.stored }

def timeout (st : RouterRun α) : RouterRun α :=
  { st with
    router := st.router.idle.1
    sent := st.sent ++ st.router.idle.2 }

def step (st : RouterRun α) : Cycle α → RouterRun α
  | .arrival source buffer isDelayed isDamage => st.arrival source buffer isDelayed isDamage
  | .timeout => st.timeout

def run (st : RouterRun α) (cycles : List (Cycle α)) : RouterRun α := cycles.foldl step st

def held (st : RouterRun α) : List (RoutedPacket α) := st.router.fileBuf.toList.map Prod.snd

def forwarded (st : RouterRun α) : List (RoutedPacket α) := st.sent.map Prod.snd

structure Accounted (st : RouterRun α) : Prop where
  once : (st.forwarded ++ st.dropped ++ st.held).Nodup
  received : ∀ p, p ∈ st.received ↔ p ∈ st.forwarded ∨ p ∈ st.dropped ∨ p ∈ st.held
  opposite : ∀ s ∈ st.sent, s.1 = s.2.source.other

structure InTurn (st : RouterRun α) (destination : Peer) : Prop where
  sent : ∀ before p after, Router.sentTo destination st.sent = before ++ p :: after →
    (∀ x ∈ before, x.number < p.number) ∨
      p ∈ st.stored ∧ ∃ earlier q, before = earlier ++ [q] ∧ ∀ x ∈ earlier, x.number < p.number
  held : ∀ p, st.router.fileBuf = some (destination,p) →
    ∀ x ∈ Router.sentTo destination st.sent, x.number < p.number

def arrivals : List (Cycle α) → List (Peer × α)
  | [] => []
  | .arrival source buffer _ _ :: cycles => (source,buffer) :: arrivals cycles
  | .timeout :: cycles => arrivals cycles

def timeouts : List (Cycle α) → ℕ
  | [] => 0
  | .arrival .. :: cycles => timeouts cycles
  | .timeout :: cycles => timeouts cycles + 1

-- the four things that `Run` can do with the packet of a cycle
inductive Routed (st : RouterRun α) (packet : RoutedPacket α) (st' : RouterRun α) : Prop
  | delayed (hempty : st.router.fileBuf = none)
      (hbuf : st'.router.fileBuf = some (packet.source.other,packet)) (hsent : st'.sent = st.sent)
      (hdropped : st'.dropped = st.dropped) (hstored : st'.stored = st.stored ++ [packet])
  | dropped (hbuf : st'.router.fileBuf = st.router.fileBuf) (hsent : st'.sent = st.sent)
      (hdropped : st'.dropped = st.dropped ++ [packet]) (hstored : st'.stored = st.stored)
  | forwarded (hbuf : st'.router.fileBuf = st.router.fileBuf)
      (hother : st.router.heldFor packet.source.other = none)
      (hsent : st'.sent = st.sent ++ [(packet.source.other,packet)])
      (hdropped : st'.dropped = st.dropped) (hstored : st'.stored = st.stored)
  | released (late : RoutedPacket α) (hlate : st.router.fileBuf = some (packet.source.other,late))
      (hbuf : st'.router.fileBuf = none)
      (hsent : st'.sent = st.sent ++ [(packet.source.other,packet),(packet.source.other,late)])
      (hdropped : st'.dropped = st.dropped) (hstored : st'.stored = st.stored)

variable {st : RouterRun α}

theorem arrival_routed (st : RouterRun α) (source : Peer) (buffer : α) (isDelayed isDamage : Bool) :
    st.Routed ⟨st.received.length,source,buffer⟩ (st.arrival source buffer isDelayed isDamage) := by
  obtain ⟨⟨buf,wait⟩,received,sent,dropped,stored⟩ := st
  cases buf with
  | none =>
    cases isDelayed with
    | true => exact .delayed rfl rfl (List.append_nil _) rfl rfl
    | false =>
      cases isDamage with
      | true => exact .dropped rfl (List.append_nil _) rfl rfl
      | false => exact .forwarded rfl rfl rfl rfl rfl
  | some late =>
    obtain ⟨destination,late⟩ := late
    cases isDamage with
    | true => exact .dropped rfl (List.append_nil _) rfl rfl
    | false =>
      by_cases he : destination = source.other
      · subst he
        exact .released late rfl (by simp [arrival,Router.receive,Router.forward,Router.sendProc])
          (by simp [arrival,Router.receive,Router.forward,Router.sendProc]) rfl rfl
      · exact .forwarded (by simp [arrival,Router.receive,Router.forward,he]) (if_neg he)
          (by simp [arrival,Router.receive,Router.forward,he]) rfl rfl

theorem timeout_cases (st : RouterRun α) :
    (st.timeout.router.fileBuf = st.router.fileBuf ∧ st.timeout.sent = st.sent) ∨
      ∃ d y, st.router.fileBuf = some (d,y) ∧ st.timeout.router.fileBuf = none ∧
        st.timeout.sent = st.sent ++ [(d,y)] := by
  rcases st.router.idle_cases with ⟨hbuf,hout⟩ | ⟨d,y,hsome,hbuf,hout⟩
  · exact .inl ⟨hbuf,by simp [timeout,hout]⟩
  · exact .inr ⟨d,y,hsome,hbuf,by simp [timeout,hout]⟩

theorem sentTo_append (d : Peer) (sent more : List (Peer × RoutedPacket α)) :
    Router.sentTo d (sent ++ more) = Router.sentTo d sent ++ Router.sentTo d more := by
  simp [Router.sentTo]

theorem mem_forwarded {d : Peer} {p : RoutedPacket α} (h : p ∈ Router.sentTo d st.sent) :
    p ∈ st.forwarded := by
  obtain ⟨s,hs,rfl⟩ := List.mem_map.mp h
  exact List.mem_map_of_mem (List.mem_of_mem_filter hs)

structure Kept (st : RouterRun α) : Prop where
  conserved : (st.received : Multiset (RoutedPacket α)) = st.forwarded + st.dropped + st.held
  numbered : st.received.map (·.number) = List.range st.received.length
  opposite : ∀ s ∈ st.sent, s.1 = s.2.source.other
  holding : ∀ d y, st.router.fileBuf = some (d,y) → d = y.source.other ∧ y ∈ st.stored
  order : ∀ d, OvertakenOnce RoutedPacket.number (· < ·) (· ∈ st.stored) (Router.sentTo d st.sent)
  ahead : ∀ d y, st.router.fileBuf = some (d,y) → ∀ x ∈ Router.sentTo d st.sent, x.number < y.number
  count : st.router.fileBuf = none → st.router.waitCount = 0

theorem kept_start : (start : RouterRun α).Kept := by
  constructor <;> simp [start,Router.start,forwarded,held,Router.sentTo,OvertakenOnce.nil]

section Kept

variable (h : st.Kept)
include h

theorem Kept.number_lt {p : RoutedPacket α} (hp : p ∈ st.received) : p.number < st.received.length := by
  have hmem : p.number ∈ st.received.map (·.number) := List.mem_map_of_mem hp
  rw [h.numbered] at hmem
  exact List.mem_range.mp hmem

theorem Kept.mem_received {p : RoutedPacket α} :
    p ∈ st.received ↔ p ∈ st.forwarded ∨ p ∈ st.dropped ∨ p ∈ st.held := by
  have hmem := congrArg (p ∈ ·) h.conserved
  simpa using hmem

theorem Kept.earlier {d : Peer} {p : RoutedPacket α} (hp : p ∈ Router.sentTo d st.sent) :
    p.number < st.received.length :=
  h.number_lt (h.mem_received.mpr (.inl (mem_forwarded hp)))

theorem Kept.held_earlier {d : Peer} {y : RoutedPacket α} (hy : st.router.fileBuf = some (d,y)) :
    y.number < st.received.length := by
  refine h.number_lt (h.mem_received.mpr (.inr (.inr ?_)))
  simp [held,hy]

end Kept

theorem sentTo_one {d e : Peer} (p : RoutedPacket α) :
    Router.sentTo e [(d,p)] = if d = e then [p] else [] := by
  by_cases hd : d = e <;> simp [Router.sentTo,hd]

theorem Kept.keep (h : st.Kept) {d : Peer} {p : RoutedPacket α} (hp : p.number = st.received.length)
    (hno : ∀ y, st.router.fileBuf ≠ some (d,y)) (e : Peer) :
    OvertakenOnce RoutedPacket.number (· < ·) (· ∈ st.stored) (Router.sentTo e (st.sent ++ [(d,p)])) ∧
      ∀ y, st.router.fileBuf = some (e,y) →
        ∀ x ∈ Router.sentTo e (st.sent ++ [(d,p)]), x.number < y.number := by
  rw [sentTo_append,sentTo_one]
  by_cases hd : d = e
  · subst hd
    rw [if_pos rfl]
    exact ⟨(h.order d).keep fun x hx => hp ▸ h.earlier hx,fun y hy => absurd hy (hno y)⟩
  · rw [if_neg hd,List.append_nil]
    exact ⟨h.order e,h.ahead e⟩

theorem Kept.swap (h : st.Kept) {d : Peer} {p late : RoutedPacket α} (hp : p.number = st.received.length)
    (hlate : st.router.fileBuf = some (d,late)) (e : Peer) :
    OvertakenOnce RoutedPacket.number (· < ·) (· ∈ st.stored)
      (Router.sentTo e (st.sent ++ [(d,p),(d,late)])) := by
  rw [sentTo_append]
  by_cases hd : d = e
  · subst hd
    have hboth : Router.sentTo d [(d,p),(d,late)] = [p,late] := Router.sentTo_self d [p,late]
    rw [hboth]
    apply (h.order d).swap
    · intro x hx
      exact hp ▸ h.earlier hx
    · exact h.ahead d late hlate
    · exact hp ▸ h.held_earlier hlate
    · exact (h.holding d late hlate).2
  · have hnone : Router.sentTo e [(d,p),(d,late)] = [] := Router.sentTo_ne hd [p,late]
    rw [hnone,List.append_nil]
    exact h.order e

theorem arrival_count (h : st.Kept) (source : Peer) (buffer : α) (isDelayed isDamage : Bool)
    (hempty : (st.arrival source buffer isDelayed isDamage).router.fileBuf = none) :
    (st.arrival source buffer isDelayed isDamage).router.waitCount = 0 := by
  have hcount := h.count
  obtain ⟨⟨buf,wait⟩,received,sent,dropped,stored⟩ := st
  cases buf with
  | none =>
    obtain rfl : wait = 0 := hcount rfl
    cases isDelayed <;> cases isDamage <;> rfl
  | some late =>
    obtain ⟨destination,late⟩ := late
    cases isDamage with
    | true => cases hempty
    | false =>
      by_cases he : destination = source.other
      · simp [arrival,Router.receive,Router.forward,Router.sendProc,he]
      · simp [arrival,Router.receive,Router.forward,he] at hempty

-- what every arrival has in common, whatever the router does with the packet
structure Takes (st : RouterRun α) (packet : RoutedPacket α) (st' : RouterRun α) : Prop where
  number : packet.number = st.received.length
  received : st'.received = st.received ++ [packet]
  count : st'.router.fileBuf = none → st'.router.waitCount = 0

section Arrival

variable {st' : RouterRun α} {packet : RoutedPacket α} (h : st.Kept) (ht : st.Takes packet st')
include h ht

theorem Kept.takes_numbered : st'.received.map (·.number) = List.range st'.received.length := by
  rw [ht.received,List.map_append,h.numbered,List.length_append,List.length_singleton,
    List.range_succ,List.map_singleton,ht.number]

theorem Kept.takes_conserved : (st'.received : Multiset (RoutedPacket α)) =
    st.forwarded + st.dropped + st.held + ↑[packet] := by
  rw [ht.received,← Multiset.coe_add,h.conserved]

theorem Kept.delay (hempty : st.router.fileBuf = none)
    (hbuf : st'.router.fileBuf = some (packet.source.other,packet)) (hsent : st'.sent = st.sent)
    (hdropped : st'.dropped = st.dropped) (hstored : st'.stored = st.stored ++ [packet]) :
    st'.Kept := by
  have hsame (d : Peer) : Router.sentTo d st'.sent = Router.sentTo d st.sent := by rw [hsent]
  have hheld : ∀ d y, st'.router.fileBuf = some (d,y) → d = packet.source.other ∧ y = packet := by
    intro d y hy
    obtain ⟨rfl,rfl⟩ := Prod.mk.inj (Option.some.inj (hbuf.symm.trans hy))
    exact ⟨rfl,rfl⟩
  constructor
  · have hnone : st.held = [] := by simp [held,hempty]
    rw [h.takes_conserved ht,hnone]
    simp [forwarded,held,hsent,hdropped,hbuf]
  · exact h.takes_numbered ht
  · exact hsent ▸ h.opposite
  · intro d y hy
    obtain ⟨rfl,rfl⟩ := hheld d y hy
    exact ⟨rfl,by simp [hstored]⟩
  · intro d
    rw [hsame,hstored]
    exact (h.order d).mono fun x hx => List.mem_append_left _ hx
  · intro d y hy x hx
    obtain ⟨rfl,rfl⟩ := hheld d y hy
    exact ht.number ▸ h.earlier (hsame _ ▸ hx)
  · exact ht.count

theorem Kept.drop (hbuf : st'.router.fileBuf = st.router.fileBuf) (hsent : st'.sent = st.sent)
    (hdropped : st'.dropped = st.dropped ++ [packet]) (hstored : st'.stored = st.stored) :
    st'.Kept := by
  constructor
  · rw [h.takes_conserved ht]
    simp only [forwarded,held,hsent,hdropped,hbuf,← Multiset.coe_add]
    abel
  · exact h.takes_numbered ht
  · exact hsent ▸ h.opposite
  · rw [hbuf,hstored]
    exact h.holding
  · rw [hsent,hstored]
    exact h.order
  · rw [hbuf,hsent]
    exact h.ahead
  · exact ht.count

theorem Kept.forward (hbuf : st'.router.fileBuf = st.router.fileBuf)
    (hother : st.router.heldFor packet.source.other = none)
    (hsent : st'.sent = st.sent ++ [(packet.source.other,packet)])
    (hdropped : st'.dropped = st.dropped) (hstored : st'.stored = st.stored) : st'.Kept := by
  have hno : ∀ y, st.router.fileBuf ≠ some (packet.source.other,y) := by
    intro y hy
    rw [Router.heldFor_some hy,if_pos rfl] at hother
    cases hother
  have hkeep := h.keep ht.number hno
  constructor
  · rw [h.takes_conserved ht]
    simp only [forwarded,held,hsent,hdropped,hbuf,List.map_append,← Multiset.coe_add,
      List.map_singleton]
    abel
  · exact h.takes_numbered ht
  · rw [hsent]
    simpa [or_imp,forall_and] using h.opposite
  · rw [hbuf,hstored]
    exact h.holding
  · rw [hsent,hstored]
    exact fun e => (hkeep e).1
  · rw [hbuf,hsent]
    exact fun e => (hkeep e).2
  · exact ht.count

theorem Kept.release {late : RoutedPacket α}
    (hlate : st.router.fileBuf = some (packet.source.other,late))
    (hbuf : st'.router.fileBuf = none)
    (hsent : st'.sent = st.sent ++ [(packet.source.other,packet),(packet.source.other,late)])
    (hdropped : st'.dropped = st.dropped) (hstored : st'.stored = st.stored) : st'.Kept := by
  have hopposite := (h.holding _ late hlate).1
  constructor
  · have hheld : st.held = [late] := by simp [held,hlate]
    have hboth : st'.forwarded = st.forwarded ++ ([packet] ++ [late]) := by simp [forwarded,hsent]
    have hnone : st'.held = [] := by simp [held,hbuf]
    rw [h.takes_conserved ht,hheld,hboth,hnone,hdropped]
    simp only [← Multiset.coe_add,Multiset.coe_nil]
    abel
  · exact h.takes_numbered ht
  · rw [hsent]
    simpa [or_imp,forall_and,← hopposite] using h.opposite
  · simp [hbuf]
  · rw [hsent,hstored]
    exact h.swap ht.number hlate
  · simp [hbuf]
  · exact ht.count

end Arrival

theorem Kept.arrival (h : st.Kept) (source : Peer) (buffer : α) (isDelayed isDamage : Bool) :
    (st.arrival source buffer isDelayed isDamage).Kept := by
  have ht : st.Takes ⟨st.received.length,source,buffer⟩
      (st.arrival source buffer isDelayed isDamage) := by
    constructor
    · rfl
    · rfl
    · exact arrival_count h source buffer isDelayed isDamage
  cases arrival_routed st source buffer isDelayed isDamage with
  | delayed hempty hbuf hsent hdropped hstored => exact h.delay ht hempty hbuf hsent hdropped hstored
  | dropped hbuf hsent hdropped hstored => exact h.drop ht hbuf hsent hdropped hstored
  | forwarded hbuf hother hsent hdropped hstored =>
    exact h.forward ht hbuf hother hsent hdropped hstored
  | released late hlate hbuf hsent hdropped hstored =>
    exact h.release ht hlate hbuf hsent hdropped hstored

theorem timeout_count (hcount : st.router.fileBuf = none → st.router.waitCount = 0)
    (hempty : st.timeout.router.fileBuf = none) : st.timeout.router.waitCount = 0 := by
  obtain ⟨⟨buf,wait⟩,received,sent,dropped,stored⟩ := st
  cases buf with
  | none => exact hcount rfl
  | some late =>
    by_cases hw : wait + 1 ≥ 3
    · simp [timeout,Router.idle,hw]
    · simp [timeout,Router.idle,hw] at hempty

theorem Kept.timeout (h : st.Kept) : st.timeout.Kept := by
  have hcount := timeout_count h.count
  have hreceived : st.timeout.received = st.received := rfl
  have hdropped : st.timeout.dropped = st.dropped := rfl
  have hstored : st.timeout.stored = st.stored := rfl
  have hcases := timeout_cases st
  generalize st.timeout = st' at *
  rcases hcases with ⟨hbuf,hsent⟩ | ⟨d,y,hsome,hbuf,hsent⟩
  · constructor
    · simp only [hreceived,hdropped,forwarded,held,hbuf,hsent]
      exact h.conserved
    · exact hreceived ▸ h.numbered
    · exact hsent ▸ h.opposite
    · exact hbuf ▸ hstored ▸ h.holding
    · exact hsent ▸ hstored ▸ h.order
    · exact hbuf ▸ hsent ▸ h.ahead
    · exact hcount
  · have hheld : st.held = [y] := by simp [held,hsome]
    have hopposite := (h.holding d y hsome).1
    constructor
    · have hone : st'.forwarded = st.forwarded ++ [y] := by simp [forwarded,hsent]
      have hnone : st'.held = [] := by simp [held,hbuf]
      rw [hreceived,hdropped,hone,hnone,h.conserved,hheld]
      simp only [← Multiset.coe_add,Multiset.coe_nil]
      abel
    · exact hreceived ▸ h.numbered
    · rw [hsent]
      simpa [or_imp,forall_and,← hopposite] using h.opposite
    · simp [hbuf]
    · intro e
      rw [hsent,hstored,sentTo_append,sentTo_one]
      split_ifs with hd
      · exact hd ▸ (h.order d).keep (h.ahead d y hsome)
      · rw [List.append_nil]
        exact h.order e
    · simp [hbuf]
    · exact hcount

theorem Kept.run (h : st.Kept) (cycles : List (Cycle α)) : (st.run cycles).Kept := by
  induction cycles generalizing st with
  | nil => exact h
  | cons cycle cycles ih =>
    cases cycle with
    | arrival source buffer isDelayed isDamage => exact ih (h.arrival source buffer isDelayed isDamage)
    | timeout => exact ih h.timeout

theorem run_received (st : RouterRun α) (cycles : List (Cycle α)) :
    (st.run cycles).received.map (fun p => (p.source,p.buffer)) =
      st.received.map (fun p => (p.source,p.buffer)) ++ arrivals cycles := by
  induction cycles generalizing st with
  | nil => simp [run,arrivals]
  | cons cycle cycles ih =>
    have hnext := ih (st.step cycle)
    cases cycle with
    | arrival => simpa [run,step,arrival,arrivals] using hnext
    | timeout => simpa [run,step,timeout,arrivals] using hnext

theorem run_sent (st : RouterRun α) (cycles : List (Cycle α)) :
    st.sent <+: (st.run cycles).sent := by
  induction cycles generalizing st with
  | nil => exact List.prefix_refl _
  | cons cycle cycles ih =>
    have hnext : st.sent <+: (st.step cycle).sent := by
      cases cycle <;> exact List.prefix_append ..
    exact hnext.trans (ih (st.step cycle))

-- `waitCount` never falls while a packet is held, and the third timeout finds it at 3
theorem arrival_waits {late : Peer × RoutedPacket α} (hheld : st.router.fileBuf = some late)
    (source : Peer) (buffer : α) (isDelayed isDamage : Bool) :
    late ∈ (st.arrival source buffer isDelayed isDamage).sent ∨
      (st.arrival source buffer isDelayed isDamage).router.fileBuf = some late ∧
        st.router.waitCount ≤ (st.arrival source buffer isDelayed isDamage).router.waitCount := by
  obtain ⟨⟨buf,wait⟩,received,sent,dropped,stored⟩ := st
  obtain rfl : buf = some late := hheld
  obtain ⟨destination,late⟩ := late
  cases isDamage with
  | true => exact .inr ⟨rfl,Nat.le_succ wait⟩
  | false =>
    by_cases he : destination = source.other
    · left
      simp [arrival,Router.receive,Router.forward,Router.sendProc,he]
    · right
      simp [arrival,Router.receive,Router.forward,he]

theorem timeout_waits {late : Peer × RoutedPacket α} (hheld : st.router.fileBuf = some late) :
    late ∈ st.timeout.sent ∨ st.timeout.router.fileBuf = some late ∧
      st.timeout.router.waitCount = st.router.waitCount + 1 ∧ st.router.waitCount + 1 < 3 := by
  obtain ⟨⟨buf,wait⟩,received,sent,dropped,stored⟩ := st
  obtain rfl : buf = some late := hheld
  by_cases hw : wait + 1 ≥ 3
  · left
    simp [timeout,Router.idle,hw,Router.sendProc]
  · right
    simp [timeout,Router.idle,hw]
    omega

theorem released_by_third_timeout {n : ℕ} {late : Peer × RoutedPacket α} {cycles : List (Cycle α)}
    (hheld : st.router.fileBuf = some late) (hwait : n ≤ st.router.waitCount)
    (htimeouts : 3 ≤ n + timeouts cycles) (hn : n < 3) : late ∈ (st.run cycles).sent := by
  induction cycles generalizing st n with
  | nil =>
    simp only [timeouts] at htimeouts
    omega
  | cons cycle cycles ih =>
    have hlater (hsent : late ∈ (st.step cycle).sent) : late ∈ (st.run (cycle :: cycles)).sent :=
      (run_sent (st.step cycle) cycles).subset hsent
    cases cycle with
    | arrival source buffer isDelayed isDamage =>
      rcases arrival_waits hheld source buffer isDelayed isDamage with hsent | ⟨hbuf,hle⟩
      · exact hlater hsent
      · exact ih hbuf (hwait.trans hle) htimeouts hn
    | timeout =>
      simp only [timeouts] at htimeouts
      rcases timeout_waits hheld with hsent | ⟨hbuf,hcount,hlt⟩
      · exact hlater hsent
      · exact ih (n := n + 1) hbuf (by rw [RouterRun.step,hcount]; omega) (by omega) (by omega)

theorem Kept.accounted (h : st.Kept) : st.Accounted := by
  constructor
  · have hnodup : st.received.Nodup := by
      have hrange := List.nodup_range (n := st.received.length)
      rw [← h.numbered] at hrange
      exact hrange.of_map
    have hperm : st.received.Perm (st.forwarded ++ st.dropped ++ st.held) := by
      rw [← Multiset.coe_eq_coe,h.conserved]
      simp
    exact hperm.nodup_iff.mp hnodup
  · exact fun p => h.mem_received
  · exact h.opposite

theorem Kept.inTurn (h : st.Kept) (d : Peer) : st.InTurn d := by
  constructor
  · intro before p after hsent
    have horder := h.order d
    rw [hsent,List.append_cons] at horder
    exact horder.of_append.last.2
  · exact h.ahead d

theorem run_accounts_for_every_packet_in_turn (cycles : List (Cycle α)) :
    ((start.run cycles).received.map (fun p => (p.source,p.buffer)) = arrivals cycles ∧
      (start.run cycles).received.map (·.number) = List.range (arrivals cycles).length) ∧
    (start.run cycles).Accounted ∧
    (∀ destination, (start.run cycles).InTurn destination) ∧
    ((start.run cycles).router.fileBuf = none → (start.run cycles).router.waitCount = 0) ∧
    ∀ late more, (start.run cycles).router.fileBuf = some late → 3 ≤ timeouts more →
      late ∈ (start.run (cycles ++ more)).sent := by
  have h := kept_start.run cycles
  have hreceived := run_received start cycles
  refine ⟨⟨hreceived,?_⟩,h.accounted,h.inTurn,h.count,?_⟩
  · have hlength := congrArg List.length hreceived
    rw [List.length_map] at hlength
    rw [h.numbered,hlength]
    rfl
  · intro late more hheld htimeouts
    rw [run,List.foldl_append]
    exact released_by_third_timeout hheld (Nat.zero_le _) (by omega) (by decide)

end RouterRun
end FtpOverUdp
