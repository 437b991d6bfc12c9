import BadgeLink.Proofs.Bench.Deadline
import BadgeLink.Proofs.Bench.Run

/-!
# Waiting for bytes that do not come

A wait for more bytes than are there takes those and ends with a timeout, if the clock moves while
it lasts. It is the clock that ends it and not the patience of the channel: every poll that finds
nothing takes at least a microsecond, and the patience is for more of them than the longest timeout
has microseconds.
-/

namespace BadgeLink

namespace Bench

open Dialogue Polling

namespace Queued

variable {ρ : Type} {port : SimulatedPort ρ} {P : List UInt8 → ρ → Prop} {queue : List UInt8}
  {p : Polling ρ} {s : ρ} {pace : Pace} {c : Channel} (hport : Queued port P)

include hport

theorem next_eq (tick : Nat) (h : P queue p.port) :
    (next port tick p).bytes = p.bytes ++ queue.take 1 ∧
      (next port tick p).misses = p.misses + (1 - queue.length) ∧
      P (queue.drop 1) (next port tick p).port := by
  cases queue with
  | nil =>
    obtain ⟨r, s', hr, hread, hs'⟩ := hport.read_nil _ h p.clock
    rw [next_miss hr hread]
    exact ⟨(List.append_nil _).symm, rfl, hs'⟩
  | cons b queue =>
    obtain ⟨s', hread, hs'⟩ := hport.read_cons _ _ _ h p.clock
    rw [next_byte hread, List.length_cons, Nat.sub_eq_zero_of_le (Nat.le_add_left 1 _)]
    exact ⟨rfl, rfl, hs'⟩

/-- The polls of a port yield what waits on it and are misses from then on. -/
theorem after_eq (tick n : Nat) (h : P queue p.port) :
    (after port tick n p).bytes = p.bytes ++ queue.take n ∧
      (after port tick n p).misses = p.misses + (n - queue.length) ∧
      P (queue.drop n) (after port tick n p).port := by
  induction n generalizing queue p with
  | zero =>
    rw [List.take_zero, List.append_nil, Nat.zero_sub]
    exact ⟨rfl, rfl, h⟩
  | succ n ih =>
    obtain ⟨hbyte, hmiss, hqueue⟩ := hport.next_eq tick h
    obtain ⟨hbytes, hmisses, hrest⟩ := ih hqueue
    rw [after_succ]
    refine ⟨?_, ?_, ?_⟩
    · rw [hbytes, hbyte, List.append_assoc, ← List.take_add, Nat.add_comm]
    · rw [hmisses, hmiss, List.length_drop]
      omega
    · rwa [List.drop_drop, Nat.add_comm] at hrest

/-- With the patience that a channel has by default, a receive of more bytes than wait takes those
and times out. -/
theorem fails_receiveWithin (hpatience : c.patience = 0x4000000000000000)
    (htick : 0 < pace.tick c.options) {count : Nat} (hcount : queue.length < count)
    (hsize : count ≤ Size.largestBuffer) (timeout : UInt32) (h : P queue s) :
    Fails port pace (c.receiveWithin count timeout) s (.timeout timeout count queue.length)
      (P []) := by
  intro clock t
  obtain ⟨limit, hexpires, hlimit⟩ := Pace.exists_expires htick timeout
  have hended : Ended port pace c.options ⟨count, timeout, clock⟩ limit
      ⟨s, clock + pace.look, [], 0⟩
      ((c.receiveWithin count timeout).run (device port pace) ⟨s, clock, t⟩) :=
    ended_receiveWithin hexpires (hpatience ▸ hlimit) hsize s clock t
  generalize (c.receiveWithin count timeout).run (device port pace) ⟨s, clock, t⟩ = r at hended ⊢
  cases hended with
  | @filled n _ hfills =>
    obtain ⟨hbytes, -, -⟩ := hport.after_eq (pace.tick c.options) n (p := ⟨s, _, [], 0⟩) h
    have hlength : (queue.take n).length = count :=
      (congrArg List.length hbytes).symm.trans hfills.length_eq
    exact absurd hcount (Nat.not_lt.2 (hlength ▸ List.length_take_le' n queue))
  | @exhausted n _ hexhausts =>
    obtain ⟨hbytes, hmisses, hrest⟩ :=
      hport.after_eq (pace.tick c.options) n (p := ⟨s, _, [], 0⟩) h
    have hpos : 1 ≤ limit := hexpires.1.1
    have hlast : 0 + (n - queue.length) = limit := hmisses.symm.trans hexhausts.misses_eq
    have hn : queue.length ≤ n := by omega
    rw [List.drop_eq_nil_of_le hn] at hrest
    rw [hbytes, List.nil_append, List.take_of_length_le hn]
    exact ⟨_, _, _, rfl, hrest⟩

end Queued

variable {δ : Type} {receive : Responder δ} {pace : Pace} {c : Channel}

theorem runs_pause (milliseconds : UInt32) {w : Wire δ} :
    Runs (Wire.port receive) pace (c.pause milliseconds) w fun _ w' => w' = w :=
  fun _ t => ⟨(), w, _, t, rfl, rfl⟩

end Bench

end BadgeLink
