import BadgeLink.Proofs.Bench.Run
import BadgeLink.Proofs.Link.Conversation
import BadgeLink.Proofs.Lists
import Mathlib.Data.ENat.Lattice

/-!
# Drains

A drain reads its port again and again, and is over with the first read that yields no byte, or with
the last of the bytes that it may discard. So it takes the bytes that the port yields in a row, but
not more than the limit, and finds out that there are no more only if they are fewer.

* `SimulatedPort.reading` is what the reads of a port yield that follow each other at one time, and
  `SimulatedPort.ready` counts the bytes before the first of them that yields none.
* `exists_reads`: with any port, the reads of a drain are the first ones of the port.
* `Waits` says which bytes wait on a port, and `Waits.runs_drains` what so many drains in a row
  leave of them. `drain_exact` puts the two together.
-/

namespace BadgeLink

/-! ## Reads in a row -/

namespace SimulatedPort

variable {ρ : Type} (port : SimulatedPort ρ) (clock : Nat)

/-- The port after so many reads that follow each other at one time. -/
def afterReads (n : Nat) (s : ρ) : ρ :=
  (fun s => (port.read clock s).2)^[n] s

/-- What the next read yields after so many that follow each other at one time. -/
def reading (s : ρ) (n : Nat) : Reading :=
  (port.read clock (port.afterReads clock n s)).1

/-- How many reads yield a byte before the first that yields none, or `⊤` if all do. -/
noncomputable def ready (s : ρ) : ℕ∞ :=
  ⨅ (n : ℕ) (_ : (port.reading clock s n).byte? = none), (n : ℕ∞)

variable {port clock} {s s' : ρ} {bytes : List UInt8}

theorem afterReads_succ {r : Reading} (h : port.read clock s = (r, s')) (n : Nat) :
    port.afterReads clock (n + 1) s = port.afterReads clock n s' := by
  rw [afterReads, Function.iterate_succ_apply, h, afterReads]

theorem reading_zero {r : Reading} (h : port.read clock s = (r, s')) : port.reading clock s 0 = r :=
  congrArg Prod.fst h

theorem reading_succ {r : Reading} (h : port.read clock s = (r, s')) (n : Nat) :
    port.reading clock s (n + 1) = port.reading clock s' n := by
  rw [reading, afterReads_succ h, reading]

/-- The first reads yield these bytes. -/
def Yields (port : SimulatedPort ρ) (clock : Nat) (s : ρ) (bytes : List UInt8) : Prop :=
  (List.range bytes.length).map (port.reading clock s) = bytes.map .byte

theorem Yields.cons {b : UInt8} (h : port.read clock s = (.byte b, s'))
    (hrest : Yields port clock s' bytes) : Yields port clock s (b :: bytes) := by
  rw [Yields, List.length_cons, map_range_succ, reading_zero h]
  simp only [reading_succ h]
  rw [hrest, List.map_cons]

theorem Yields.length_le (h : Yields port clock s bytes) {n : Nat}
    (hn : (port.reading clock s n).byte? = none) : bytes.length ≤ n := by
  refine Nat.not_lt.1 fun hlt => ?_
  have hmem : port.reading clock s n ∈ bytes.map Reading.byte :=
    h ▸ List.mem_map_of_mem (List.mem_range.2 hlt)
  obtain ⟨b, -, hb⟩ := List.mem_map.1 hmem
  rw [← hb] at hn
  cases hn

theorem Yields.length_le_ready (h : Yields port clock s bytes) :
    (bytes.length : ℕ∞) ≤ port.ready clock s :=
  le_iInf₂ fun _ hn => Nat.cast_le.2 (h.length_le hn)

theorem Yields.ready_eq (h : Yields port clock s bytes)
    (hmiss : (port.reading clock s bytes.length).byte? = none) :
    port.ready clock s = bytes.length :=
  le_antisymm (iInf₂_le bytes.length hmiss) h.length_le_ready

theorem Yields.ready_eq_min (h : Yields port clock s bytes) {limit : Nat}
    (hlimit : bytes.length ≤ limit)
    (hmiss : bytes.length < limit → (port.reading clock s bytes.length).byte? = none) :
    (bytes.length : ℕ∞) = min (limit : ℕ∞) (port.ready clock s) := by
  rcases hlimit.lt_or_eq with hlt | rfl
  · rw [h.ready_eq (hmiss hlt), min_eq_right (Nat.cast_le.2 hlimit)]
  · exact (min_eq_left h.length_le_ready).symm

end SimulatedPort

/-- So many drains, one after the other. -/
def Channel.drains (c : Channel) : Nat → Link Unit
  | 0 => return
  | k + 1 => do
    discard c.drain
    c.drains k

namespace Bench

open Dialogue Link Channel

variable {ρ : Type} {port : SimulatedPort ρ} {pace : Pace}

/-- With every port, reads that are made up to a limit or to the first that yields no byte are the
first reads of the port. The induction is on the limit: a read that yields a byte takes no time. -/
theorem exists_reads (port : SimulatedPort ρ) (pace : Pace) (limit : Nat) (s : ρ) (clock : Nat)
    (t : Transcript) :
    ∃ bytes reads b', Reads limit bytes reads ∧ (device port pace).Holds ⟨s, clock, t⟩ reads b' ∧
      b'.port = port.afterReads clock reads.length s ∧ port.Yields clock s bytes ∧
      (bytes.length < limit → (port.reading clock s bytes.length).byte? = none) := by
  induction limit generalizing s t with
  | zero => exact ⟨[], [], _, .inl ⟨rfl, rfl⟩, .nil _, rfl, rfl, nofun⟩
  | succ limit ih =>
    obtain ⟨b, s', hread, -⟩ | ⟨r, s', hr, hread, -⟩ := Polling.next_cases port 0 ⟨s, clock, [], 0⟩
    · obtain ⟨bytes, reads, b', hreads, hholds, hport, hyields, hmiss⟩ :=
        ih s' { t with delivered := t.delivered + 1 }
      have hrespond : (device port pace).respond ⟨s, clock, t⟩ .read =
          (.ok (.byte b), ⟨s', clock, { t with delivered := t.delivered + 1 }⟩) := by
        simp only [device, hread]
      refine ⟨b :: bytes, _, b', hreads.cons b, .cons hrespond hholds, ?_, hyields.cons hread, ?_⟩
      · rw [hport, List.length_cons, SimulatedPort.afterReads_succ hread]
      · intro hlt
        rw [List.length_cons, SimulatedPort.reading_succ hread]
        exact hmiss (Nat.lt_of_succ_lt_succ hlt)
    · have hne : ∀ b, r ≠ .byte b := by
        rintro b rfl
        cases hr
      have hrespond : (device port pace).respond ⟨s, clock, t⟩ .read =
          (.ok r, ⟨s', clock + pace.idleRead, t⟩) := by
        cases r with
        | byte b => cases hr
        | idle | fault _ => simp only [device, hread]
      refine ⟨[], [⟨.read, r⟩], _, .inr ⟨Nat.succ_pos limit, r, hne, rfl⟩,
        .cons hrespond (.nil _), ?_, rfl, fun _ => ?_⟩
      · rw [List.length_singleton, SimulatedPort.afterReads_succ hread]
        rfl
      · rw [List.length_nil, SimulatedPort.reading_zero hread]
        exact hr

theorem holds_discardNotes (port : SimulatedPort ρ) (pace : Pace) (count : Nat) (b : Bench ρ) :
    ∃ b', (device port pace).Holds b (discardNotes count) b' ∧ b'.port = b.port := by
  unfold discardNotes
  split
  · exact ⟨_, .cons rfl (.nil _), rfl⟩
  · exact ⟨b, .nil b, rfl⟩

/-! ## Bytes that wait -/

/-- These bytes wait on the port: whenever it is read, the reads yield them in their order, and none
yields a byte after them. -/
def Waits (port : SimulatedPort ρ) (queue : List UInt8) (s : ρ) : Prop :=
  ∃ P, Queued port P ∧ P queue s

variable {c : Channel} {queue : List UInt8} {s : ρ}

theorem queued_waits (port : SimulatedPort ρ) : Queued port (Waits port) where
  read_cons := by
    rintro b queue s ⟨P, hport, h⟩ clock
    obtain ⟨s', hread, hs'⟩ := hport.read_cons b queue s h clock
    exact ⟨s', hread, P, hport, hs'⟩
  read_nil := by
    rintro s ⟨P, hport, h⟩ clock
    obtain ⟨r, s', hr, hread, hs'⟩ := hport.read_nil s h clock
    exact ⟨r, s', hr, hread, P, hport, hs'⟩

theorem Waits.yields (h : Waits port queue s) (clock : Nat) :
    port.Yields clock s queue ∧ (port.reading clock s queue.length).byte? = none := by
  induction queue generalizing s with
  | nil =>
    obtain ⟨r, s', hr, hread, -⟩ := (queued_waits port).read_nil s h clock
    refine ⟨rfl, ?_⟩
    rw [List.length_nil, SimulatedPort.reading_zero hread]
    exact hr
  | cons b queue ih =>
    obtain ⟨s', hread, hs'⟩ := (queued_waits port).read_cons b queue s h clock
    obtain ⟨hyields, hmiss⟩ := ih hs'
    refine ⟨hyields.cons hread, ?_⟩
    rw [List.length_cons, SimulatedPort.reading_succ hread]
    exact hmiss

theorem Waits.ready_eq (h : Waits port queue s) (clock : Nat) :
    port.ready clock s = queue.length :=
  (h.yields clock).1.ready_eq (h.yields clock).2

/-- Each of the drains takes what it may discard from the bytes that the ones before it left. -/
theorem Waits.runs_drains (h : Waits port queue s) (k : Nat) :
    Runs port pace (c.drains k) s fun _ s' => Waits port (queue.drop (4096 * k)) s' := by
  induction k generalizing queue s with
  | zero => exact runs_ok h
  | succ k ih =>
    refine ((queued_waits port).runs_drain (c := c) h).discard.bind ?_
    rintro _ s' ⟨-, hs'⟩
    refine (ih hs').mono fun _ s'' hs'' => ?_
    rw [List.drop_drop] at hs''
    rwa [Nat.mul_succ, Nat.add_comm]

/-- With every port, a drain comes to an end and returns how many bytes it has taken. These are the
bytes that the port yields in a row, in their order, but not more than 4096. It makes the reads that
yield them and, just if they are fewer than 4096, one more, which yields no byte. So of the bytes that
wait on a port, `k` drains leave those behind the first `4096 * k`, in their order. -/
theorem drain_exact (port : SimulatedPort ρ) (pace : Pace) (c : Channel) (s : ρ) (clock : Nat)
    (t : Transcript) :
    (∃ bytes reads b',
      c.drain.run (device port pace) ⟨s, clock, t⟩ = (.ok bytes.length, b') ∧
      (bytes.length : ℕ∞) = min 4096 (port.ready clock s) ∧
      port.Yields clock s bytes ∧ Reads 4096 bytes reads ∧
      c.drain.Plays (reads ++ discardNotes bytes.length) (.ok bytes.length) ∧
      (device port pace).Holds ⟨s, clock, t⟩ (reads ++ discardNotes bytes.length) b' ∧
      b'.port = port.afterReads clock reads.length s) ∧
    ∀ queue, Waits port queue s → ∀ k, ∃ s' clock' t',
      (c.drains k).run (device port pace) ⟨s, clock, t⟩ = (.ok (), ⟨s', clock', t'⟩) ∧
      Waits port (queue.drop (4096 * k)) s' ∧
      ∀ time, port.ready time s' = (queue.length - 4096 * k : Nat) ∧
        port.Yields time s' (queue.drop (4096 * k)) := by
  constructor
  · obtain ⟨bytes, reads, b₁, hreads, hholds, hport, hyields, hmiss⟩ :=
      exists_reads port pace 4096 s clock t
    obtain ⟨b', hnotes, hport'⟩ := holds_discardNotes port pace bytes.length b₁
    have hplays : c.drain.Plays (reads ++ discardNotes bytes.length) (.ok bytes.length) :=
      plays_drain_iff.2 ⟨bytes, reads, hreads, rfl, rfl⟩
    have hheld := hholds.append hnotes
    exact ⟨bytes, reads, b', hplays.run_eq hheld, hyields.ready_eq_min hreads.length_le hmiss,
      hyields, hreads, hplays, hheld, hport'.trans hport⟩
  · intro queue hwaits k
    have hdrains : Runs port pace (c.drains k) s fun _ s' =>
        Waits port (queue.drop (4096 * k)) s' := hwaits.runs_drains k
    obtain ⟨_, s', clock', t', hrun, hleft⟩ := hdrains clock t
    refine ⟨s', clock', t', hrun, hleft, fun time => ?_⟩
    rw [← List.length_drop]
    exact ⟨hleft.ready_eq time, (hleft.yields time).1⟩

/-- Of a queue that is ten bytes longer than a drain may discard, the last ten bytes stay. -/
theorem drain_of_long_queue :
    ∃ s' clock' t',
      (Channel.drains {} 1).run (device (Wire.port Wire.silent) .simulated)
          ⟨onWire () (List.replicate 4106 0x55), 0, {}⟩ = (.ok (), ⟨s', clock', t'⟩) ∧
      ∀ time, (Wire.port Wire.silent).ready time s' = 10 ∧
        (Wire.port Wire.silent).Yields time s' (List.replicate 10 0x55) := by
  have hwaits : Waits (Wire.port Wire.silent) (List.replicate 4106 0x55)
      (onWire () (List.replicate 4106 0x55)) := ⟨_, queued_onWire (), rfl⟩
  obtain ⟨-, hdrains⟩ := drain_exact (Wire.port Wire.silent) .simulated {}
    (onWire () (List.replicate 4106 0x55)) 0 {}
  obtain ⟨s', clock', t', hrun, -, hleft⟩ := hdrains _ hwaits 1
  refine ⟨s', clock', t', hrun, fun time => ?_⟩
  obtain ⟨hready, hyields⟩ := hleft time
  rw [List.length_replicate] at hready
  rw [List.drop_replicate] at hyields
  exact ⟨hready, hyields⟩

end Bench

end BadgeLink
