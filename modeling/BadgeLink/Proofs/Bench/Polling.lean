import BadgeLink.Bench.Basic
import BadgeLink.Channel
import BadgeLink.Proofs.Dialogue
import Mathlib.Logic.Function.Iterate

/-!
# Polls

A receive polls its port: reads that yield a byte follow each other at once, and after a read that
yields none, a miss, some time passes. So the port and the clock alone determine what the polls
yield, and a receive only decides where they stop.

* `Polling` is how far the polls of a port have come; it knows nothing of channels.
* `run_nextByte_byte`, `run_nextByte_late` and `run_nextByte_early` say what a channel makes of one
  poll.
* `run_receiveWithin` says how a receive begins.
-/

namespace BadgeLink

/-- The byte that a reading yields, if it yields one. -/
def Reading.byte? : Reading → Option UInt8
  | .byte b => some b
  | _ => none

/-- The time from one poll that finds nothing to the next, in microseconds. -/
def Pace.tick (pace : Pace) (options : Options) : Nat :=
  pace.idleRead + pace.look + options.pollDelay.toNat * pace.delay

namespace Bench

open Dialogue

/-! ## Polls of a port -/

/-- How far the polling of a port has come. -/
structure Polling (ρ : Type) where
  port : ρ
  /-- The time of the next poll. -/
  clock : Nat
  /-- The bytes that the port yielded, in their order. -/
  bytes : List UInt8 := []
  misses : Nat := 0

namespace Polling

variable {ρ : Type} {port : SimulatedPort ρ} {tick : Nat} {p : Polling ρ} {s : ρ}

/-- One poll. If it yields no byte, it is a miss, and some time passes before the next. -/
def next (port : SimulatedPort ρ) (tick : Nat) (p : Polling ρ) : Polling ρ :=
  match port.read p.clock p.port with
  | (.byte b, s) => { p with port := s, bytes := p.bytes ++ [b] }
  | (_, s) => { p with port := s, clock := p.clock + tick, misses := p.misses + 1 }

/-- So many polls. -/
def after (port : SimulatedPort ρ) (tick n : Nat) (p : Polling ρ) : Polling ρ :=
  (next port tick)^[n] p

theorem next_byte {b : UInt8} (h : port.read p.clock p.port = (.byte b, s)) :
    next port tick p = { p with port := s, bytes := p.bytes ++ [b] } := by
  rw [next, h]

theorem next_miss {r : Reading} (hr : r.byte? = none) (h : port.read p.clock p.port = (r, s)) :
    next port tick p =
      { p with port := s, clock := p.clock + tick, misses := p.misses + 1 } := by
  rw [next, h]
  cases r with
  | byte b => cases hr
  | idle => rfl
  | fault f => rfl

/-- A poll yields a byte or is a miss. -/
theorem next_cases (port : SimulatedPort ρ) (tick : Nat) (p : Polling ρ) :
    (∃ b s, port.read p.clock p.port = (.byte b, s) ∧
      next port tick p = { p with port := s, bytes := p.bytes ++ [b] }) ∨
    ∃ r s, r.byte? = none ∧ port.read p.clock p.port = (r, s) ∧
      next port tick p = { p with port := s, clock := p.clock + tick, misses := p.misses + 1 } := by
  rcases hread : port.read p.clock p.port with ⟨r, s⟩
  cases r with
  | byte b => exact .inl ⟨b, s, rfl, next_byte hread⟩
  | idle => exact .inr ⟨.idle, s, rfl, rfl, next_miss rfl hread⟩
  | fault f => exact .inr ⟨.fault f, s, rfl, rfl, next_miss rfl hread⟩

theorem after_succ (n : Nat) (p : Polling ρ) :
    after port tick (n + 1) p = after port tick n (next port tick p) :=
  rfl

theorem after_add (m n : Nat) (p : Polling ρ) :
    after port tick (m + n) p = after port tick n (after port tick m p) := by
  rw [after, Nat.add_comm, Function.iterate_add_apply]
  rfl

/-- Neither count falls. -/
theorem le_next (port : SimulatedPort ρ) (tick : Nat) (p : Polling ρ) :
    p.bytes.length ≤ (next port tick p).bytes.length ∧ p.misses ≤ (next port tick p).misses := by
  obtain ⟨b, s, -, hnext⟩ | ⟨r, s, -, -, hnext⟩ := next_cases port tick p
  · rw [hnext]
    exact ⟨(List.prefix_append _ _).length_le, Nat.le_refl _⟩
  · rw [hnext]
    exact ⟨Nat.le_refl _, Nat.le_succ _⟩

theorem le_after (n : Nat) (p : Polling ρ) :
    p.bytes.length ≤ (after port tick n p).bytes.length ∧
      p.misses ≤ (after port tick n p).misses := by
  induction n generalizing p with
  | zero => exact ⟨Nat.le_refl _, Nat.le_refl _⟩
  | succ n ih =>
    obtain ⟨hlength, hmisses⟩ := le_next port tick p
    obtain ⟨hlength', hmisses'⟩ := ih (next port tick p)
    exact ⟨Nat.le_trans hlength hlength', Nat.le_trans hmisses hmisses'⟩

theorem after_mono (port : SimulatedPort ρ) (tick : Nat) {m n : Nat} (h : m ≤ n) (p : Polling ρ) :
    (after port tick m p).bytes.length ≤ (after port tick n p).bytes.length ∧
      (after port tick m p).misses ≤ (after port tick n p).misses := by
  obtain ⟨k, rfl⟩ := Nat.exists_eq_add_of_le h
  rw [after_add]
  exact le_after k _

end Polling

/-! ## Polls of a channel -/

open Polling

variable {ρ : Type} {port : SimulatedPort ρ} {pace : Pace} {c : Channel} {d : Channel.Deadline}
  {missing patience clock : Nat} {s s' : ρ} {t : Transcript}

theorem run_read_byte {b : UInt8} (h : port.read clock s = (.byte b, s')) :
    Link.read.run (device port pace) ⟨s, clock, t⟩ =
      (.ok (.byte b), ⟨s', clock, { t with delivered := t.delivered + 1 }⟩) := by
  simp only [Link.read, run, device, h]

theorem run_read_miss {r : Reading} (hr : r.byte? = none) (h : port.read clock s = (r, s')) :
    Link.read.run (device port pace) ⟨s, clock, t⟩ = (.ok r, ⟨s', clock + pace.idleRead, t⟩) := by
  cases r with
  | byte b => cases hr
  | idle => simp only [Link.read, run, device, h]
  | fault f => simp only [Link.read, run, device, h]

/-- At this time the deadline has passed. -/
def Late (d : Channel.Deadline) (time : Nat) : Prop :=
  d.timeout.toNat * 1000 < time - d.start

/-- The transcript after a miss: only a fault is recorded. -/
def missed (t : Transcript) : Reading → Transcript
  | .fault f => { t with records := .readFault f :: t.records }
  | _ => t

/-- The transcript after the last miss that a deadline allows for. -/
def timedOut (t : Transcript) (d : Channel.Deadline) (missing : Nat) : Transcript :=
  let record := Record.receiveTimeout (d.count - missing) d.count d.timeout
  { t with records := record :: t.records }

theorem run_lapse_late (h : Late d clock) :
    (c.lapse d missing).run (device port pace) ⟨s, clock, t⟩ =
      (.error (.timeout d.timeout d.count (d.count - missing)),
        ⟨s, clock + pace.look, timedOut t d missing⟩) := by
  unfold Late at h
  unfold Channel.lapse
  simp only [bind_eq, run_bind, Link.now, run, device, if_pos h]
  rfl

theorem run_lapse_early (h : ¬Late d clock) :
    (c.lapse d missing).run (device port pace) ⟨s, clock, t⟩ =
      (.ok (), ⟨s, clock + pace.look + c.options.pollDelay.toNat * pace.delay, t⟩) := by
  unfold Late at h
  unfold Channel.lapse
  simp only [bind_eq, run_bind, Link.now, run, device, if_neg h]
  rfl

theorem run_nextByte_byte {b : UInt8} (h : port.read clock s = (.byte b, s')) :
    (c.nextByte d missing (patience + 1)).run (device port pace) ⟨s, clock, t⟩ =
      (.ok b, ⟨s', clock, { t with delivered := t.delivered + 1 }⟩) := by
  rw [Channel.nextByte, bind_eq, run_bind, run_read_byte h]
  rfl

theorem run_nextByte_miss {r : Reading} (hr : r.byte? = none) (h : port.read clock s = (r, s')) :
    (c.nextByte d missing (patience + 1)).run (device port pace) ⟨s, clock, t⟩ =
      ((c.lapse d missing).bind fun _ => c.nextByte d missing patience).run (device port pace)
        ⟨s', clock + pace.idleRead, missed t r⟩ := by
  rw [Channel.nextByte, bind_eq, run_bind, run_read_miss hr h]
  cases r with
  | byte b => cases hr
  | idle => rfl
  | fault f => rfl

theorem run_nextByte_late {r : Reading} (hr : r.byte? = none) (h : port.read clock s = (r, s'))
    (hlate : Late d (clock + pace.idleRead)) :
    (c.nextByte d missing (patience + 1)).run (device port pace) ⟨s, clock, t⟩ =
      (.error (.timeout d.timeout d.count (d.count - missing)),
        ⟨s', clock + pace.idleRead + pace.look, timedOut (missed t r) d missing⟩) := by
  rw [run_nextByte_miss hr h, run_bind, run_lapse_late hlate]

theorem run_nextByte_early {r : Reading} (hr : r.byte? = none) (h : port.read clock s = (r, s'))
    (hearly : ¬Late d (clock + pace.idleRead)) :
    (c.nextByte d missing (patience + 1)).run (device port pace) ⟨s, clock, t⟩ =
      (c.nextByte d missing patience).run (device port pace)
        ⟨s', clock + pace.tick c.options, missed t r⟩ := by
  rw [run_nextByte_miss hr h, run_bind, run_lapse_early hearly, Pace.tick, ← Nat.add_assoc,
    ← Nat.add_assoc]

/-! ## Receives -/

variable {count : Nat} {timeout : UInt32}

theorem run_receiveWithin (hcount : count ≤ Size.largestBuffer) :
    (c.receiveWithin count timeout).run (device port pace) ⟨s, clock, t⟩ =
      ((c.collect ⟨count, timeout, clock⟩ count []).bind fun data =>
        (Link.note (.received data)).bind fun _ => done (.ok data)).run (device port pace)
          ⟨s, clock + pace.look, t⟩ := by
  have hreserve : Size.reserve count = .ok () := if_pos hcount
  unfold Channel.receiveWithin
  rw [hreserve]
  rfl

/-- Nothing is read for a receive of more bytes than a buffer can hold. -/
theorem run_receiveWithin_of_large (hcount : Size.largestBuffer < count) (timeout : UInt32) :
    (c.receiveWithin count timeout).run (device port pace) ⟨s, clock, t⟩ =
      (.crash .reservation, ⟨s, clock + pace.look, t⟩) := by
  have hreserve : Size.reserve count = .error .reservation := if_neg (Nat.not_le.2 hcount)
  unfold Channel.receiveWithin
  rw [hreserve]
  rfl

end Bench

end BadgeLink
