import BadgeLink.Bench.Script
import BadgeLink.Proofs.Bench.Polling
import Mathlib.Order.Nat

/-!
# Deadlines

A receive stops polling with the last byte that it was asked for, or with the first miss after which
more time has passed than it may take, whichever comes first.

* `Pace.Expires` says which miss is the last one, and `Pace.exists_expires` that there is one if
  time passes at all.
* `Polling.Fills` and `Polling.Exhausts` are the two ways to stop, and `ended_receiveWithin` says
  that every receive stops in one of them.
* `receive_exact` is the law for a clock that only misses and delays advance.
-/

namespace BadgeLink

namespace Pace

/-- How long a receive has lasted at the look at the clock after its `k`-th miss, in
microseconds. -/
def lapsed (pace : Pace) (options : Options) (k : Nat) : Nat :=
  k * (pace.idleRead + pace.look) + (k - 1) * (options.pollDelay.toNat * pace.delay)

/-- The first miss after which a receive has lasted longer than it may. -/
def Expires (pace : Pace) (options : Options) (timeout : UInt32) (limit : Nat) : Prop :=
  IsLeast {k | 1 ≤ k ∧ timeout.toNat * 1000 < pace.lapsed options k} limit

variable {pace : Pace} {options : Options} {timeout : UInt32} {k m limit : Nat}

theorem lapsed_succ (pace : Pace) (options : Options) (k : Nat) :
    pace.lapsed options (k + 1) = k * pace.tick options + pace.idleRead + pace.look := by
  rw [lapsed, tick, Nat.add_sub_cancel, Nat.succ_mul, Nat.mul_add k _ (_ * _)]
  omega

theorem lapsed_mono (h : k ≤ m) : pace.lapsed options k ≤ pace.lapsed options m :=
  Nat.add_le_add (Nat.mul_le_mul_right _ h) (Nat.mul_le_mul_right _ (Nat.sub_le_sub_right h 1))

theorem Expires.late_iff (h : pace.Expires options timeout limit) :
    timeout.toNat * 1000 < pace.lapsed options (m + 1) ↔ limit ≤ m + 1 := by
  constructor
  · intro hlate
    exact h.2 ⟨Nat.succ_pos m, hlate⟩
  · intro hle
    exact h.1.2.trans_le (lapsed_mono hle)

/-- While time passes, every receive expires, and after no more misses than a channel has patience
for by default. -/
theorem exists_expires (htick : 0 < pace.tick options) (timeout : UInt32) :
    ∃ limit, pace.Expires options timeout limit ∧ limit ≤ 0x4000000000000000 := by
  have hlate : timeout.toNat * 1000 < pace.lapsed options (timeout.toNat * 1000 + 1 + 1) := by
    have hmul := Nat.le_mul_of_pos_right (timeout.toNat * 1000 + 1) htick
    rw [lapsed_succ]
    omega
  have hexists : ∃ k, 1 ≤ k ∧ timeout.toNat * 1000 < pace.lapsed options k :=
    ⟨_, Nat.succ_pos _, hlate⟩
  have hleast := Nat.isLeast_find hexists
  have hle := hleast.2 ⟨Nat.succ_pos _, hlate⟩
  have hlt := timeout.toNat_lt
  exact ⟨Nat.find hexists, hleast, by omega⟩

end Pace

namespace Bench

open Dialogue

/-! ## Where the polls stop -/

namespace Polling

variable {ρ : Type} {port : SimulatedPort ρ} {tick : Nat} {p : Polling ρ}

/-- The last of these polls yields the `count`-th byte, before the miss number `limit`. -/
structure Fills (port : SimulatedPort ρ) (tick count limit : Nat) (p : Polling ρ) (n : Nat) :
    Prop where
  length_eq : (after port tick n p).bytes.length = count
  misses_lt : (after port tick n p).misses < limit
  length_lt : ∀ i < n, (after port tick i p).bytes.length < count

/-- The last of these polls is the miss number `limit`, before the `count`-th byte. -/
structure Exhausts (port : SimulatedPort ρ) (tick count limit : Nat) (p : Polling ρ) (n : Nat) :
    Prop where
  length_lt : (after port tick n p).bytes.length < count
  misses_eq : (after port tick n p).misses = limit
  misses_lt : ∀ i < n, (after port tick i p).misses < limit

variable {count limit n : Nat}

theorem Fills.succ (hcount : p.bytes.length < count)
    (h : Fills port tick count limit (next port tick p) n) :
    Fills port tick count limit p (n + 1) := by
  refine ⟨h.length_eq, h.misses_lt, ?_⟩
  intro i hi
  cases i with
  | zero => exact hcount
  | succ i => exact h.length_lt i (Nat.lt_of_succ_lt_succ hi)

theorem Exhausts.succ (hlimit : p.misses < limit)
    (h : Exhausts port tick count limit (next port tick p) n) :
    Exhausts port tick count limit p (n + 1) := by
  refine ⟨h.length_lt, h.misses_eq, ?_⟩
  intro i hi
  cases i with
  | zero => exact hlimit
  | succ i => exact h.misses_lt i (Nat.lt_of_succ_lt_succ hi)

/-- No other number of polls yields the last byte. -/
theorem Fills.unique {m : Nat} (h : Fills port tick count limit p n)
    (h' : Fills port tick count limit p m) : n = m := by
  apply Nat.le_antisymm
  · exact Nat.not_lt.1 fun hlt => Nat.ne_of_lt (h.length_lt m hlt) h'.length_eq
  · exact Nat.not_lt.1 fun hlt => Nat.ne_of_lt (h'.length_lt n hlt) h.length_eq

/-- The last byte comes before the last miss or it does not. -/
theorem Exhausts.not_filled (h : Exhausts port tick count limit p n) :
    ¬∃ k, (after port tick k p).bytes.length = count ∧ (after port tick k p).misses < limit := by
  rintro ⟨k, hlength, hmisses⟩
  rcases Nat.le_total k n with hkn | hnk
  · have hle := (after_mono port tick hkn p).1
    rw [hlength] at hle
    exact Nat.not_le.2 h.length_lt hle
  · have hle := (after_mono port tick hnk p).2
    rw [h.misses_eq] at hle
    exact Nat.not_le.2 hmisses hle

end Polling

open Polling

variable {ρ : Type} {port : SimulatedPort ρ} {pace : Pace} {c : Channel} {d : Channel.Deadline}
  {s : ρ} {clock : Nat} {t : Transcript}

/-! ## Receives -/

/-- The clock of the polls of a receive: its misses take time and its bytes take none. -/
def InStep (pace : Pace) (options : Options) (d : Channel.Deadline) (p : Polling ρ) : Prop :=
  p.clock = d.start + pace.look + p.misses * pace.tick options

variable {p : Polling ρ} {limit : Nat}

theorem InStep.next (h : InStep pace c.options d p) :
    InStep pace c.options d (next port (pace.tick c.options) p) := by
  obtain ⟨b, s, -, hnext⟩ | ⟨r, s, -, -, hnext⟩ := next_cases port (pace.tick c.options) p
  · rw [hnext]
    exact h
  · unfold InStep at h ⊢
    rw [hnext, h, Nat.succ_mul, Nat.add_assoc]

theorem InStep.late_iff (h : InStep pace c.options d p)
    (hexpires : pace.Expires c.options d.timeout limit) :
    Late d (p.clock + pace.idleRead) ↔ limit ≤ p.misses + 1 := by
  have htime : d.start + pace.look + p.misses * pace.tick c.options + pace.idleRead - d.start =
      p.misses * pace.tick c.options + pace.idleRead + pace.look := by
    omega
  rw [← hexpires.late_iff, Pace.lapsed_succ, Late, h, htime]

/-- How a receive ends whose polls have come as far as this, and where it leaves the bench. -/
inductive Ended (port : SimulatedPort ρ) (pace : Pace) (options : Options) (d : Channel.Deadline)
    (limit : Nat) (p : Polling ρ) : Outcome LinkError (List UInt8) × Bench ρ → Prop where
  /-- All bytes have come. -/
  | filled {n : Nat} (t : Transcript) (h : Fills port (pace.tick options) d.count limit p n) :
      Ended port pace options d limit p
        (.ok (after port (pace.tick options) n p).bytes,
          ⟨(after port (pace.tick options) n p).port,
            (after port (pace.tick options) n p).clock, t⟩)
  /-- The time is up. -/
  | exhausted {n : Nat} (t : Transcript)
      (h : Exhausts port (pace.tick options) d.count limit p n) :
      Ended port pace options d limit p
        (.error (.timeout d.timeout d.count (after port (pace.tick options) n p).bytes.length),
          ⟨(after port (pace.tick options) n p).port,
            d.start + pace.lapsed options limit + pace.look, t⟩)

theorem Ended.of_next {r : Outcome LinkError (List UInt8) × Bench ρ}
    (hcount : p.bytes.length < d.count) (hlimit : p.misses < limit)
    (h : Ended port pace c.options d limit (next port (pace.tick c.options) p) r) :
    Ended port pace c.options d limit p r := by
  cases h with
  | filled t h => exact .filled t (h.succ hcount)
  | exhausted t h => exact .exhausted t (h.succ hlimit)

/-- The last miss ends a receive. -/
theorem ended_of_late {r : Reading} (hr : r.byte? = none)
    (hread : port.read p.clock p.port = (r, s)) (hstep : InStep pace c.options d p)
    (hlimit : p.misses + 1 = limit) (hcount : p.bytes.length < d.count) (t : Transcript) :
    Ended port pace c.options d limit p
      (.error (.timeout d.timeout d.count p.bytes.length),
        ⟨s, p.clock + pace.idleRead + pace.look, t⟩) := by
  have hone : after port (pace.tick c.options) 1 p =
      { p with port := s, clock := p.clock + pace.tick c.options, misses := limit } :=
    hlimit ▸ next_miss hr hread
  have hexhausts : Exhausts port (pace.tick c.options) d.count limit p 1 := by
    refine ⟨hone ▸ hcount, hone ▸ rfl, ?_⟩
    intro i hi
    rw [Nat.lt_one_iff.1 hi]
    exact hlimit ▸ Nat.lt_succ_self _
  have hclock : p.clock + pace.idleRead + pace.look =
      d.start + pace.lapsed c.options limit + pace.look := by
    rw [← hlimit, Pace.lapsed_succ, hstep]
    omega
  have hended : Ended port pace c.options d limit p _ := .exhausted t hexhausts
  rw [hone] at hended
  rw [hclock]
  exact hended

section Receives

variable (hexpires : pace.Expires c.options d.timeout limit)

include hexpires

/-- A wait for a byte and the wait for the rest after it. -/
theorem ended_nextByte {missing : Nat}
    (hrest : ∀ (q : Polling ρ) (t : Transcript), InStep pace c.options d q → q.misses < limit →
      q.bytes.length + missing = d.count → Ended port pace c.options d limit q
        ((c.collect d missing q.bytes.reverse).run (device port pace) ⟨q.port, q.clock, t⟩))
    (hstep : InStep pace c.options d p) (hlimit : p.misses < limit)
    (hcount : p.bytes.length + (missing + 1) = d.count) {patience : Nat}
    (hpatience : limit ≤ p.misses + patience) (t : Transcript) :
    Ended port pace c.options d limit p
      (((c.nextByte d (missing + 1) patience).bind fun b =>
        c.collect d missing (b :: p.bytes.reverse)).run (device port pace)
          ⟨p.port, p.clock, t⟩) := by
  have hless : p.bytes.length < d.count := by omega
  induction patience generalizing p t with
  | zero => exact absurd hpatience (Nat.not_le.2 hlimit)
  | succ patience ih =>
    have hstep' : InStep pace c.options d (next port (pace.tick c.options) p) := hstep.next
    obtain ⟨b, s, hread, hnext⟩ | ⟨r, s, hr, hread, hnext⟩ :=
      next_cases port (pace.tick c.options) p
    · have hlength : (p.bytes ++ [b]).length + missing = d.count := by
        rw [List.length_append, List.length_singleton]
        omega
      have hbytes := hrest _ { t with delivered := t.delivered + 1 } hstep'
      rw [hnext, List.reverse_append] at hbytes
      rw [run_bind, run_nextByte_byte hread]
      refine .of_next hless hlimit ?_
      rw [hnext]
      exact hbytes hlimit hlength
    · by_cases hlate : Late d (p.clock + pace.idleRead)
      · have hlast : p.misses + 1 = limit :=
          Nat.le_antisymm hlimit ((hstep.late_iff hexpires).1 hlate)
        have hreceived : d.count - (missing + 1) = p.bytes.length := by omega
        rw [run_bind, run_nextByte_late hr hread hlate, hreceived]
        exact ended_of_late hr hread hstep hlast hless _
      · have hlimit' : p.misses + 1 < limit :=
          Nat.not_le.1 fun hle => hlate ((hstep.late_iff hexpires).2 hle)
        have hpatience' : limit ≤ p.misses + 1 + patience := by omega
        have hwait := ih (p := next port (pace.tick c.options) p) hstep'
        rw [hnext] at hwait
        rw [run_bind, run_nextByte_early hr hread hlate, ← run_bind]
        refine .of_next hless hlimit ?_
        rw [hnext]
        exact hwait hlimit' hcount hpatience' _ hless

theorem ended_collect (hpatience : limit ≤ c.patience) {missing : Nat}
    (hstep : InStep pace c.options d p) (hlimit : p.misses < limit)
    (hcount : p.bytes.length + missing = d.count) (t : Transcript) :
    Ended port pace c.options d limit p
      ((c.collect d missing p.bytes.reverse).run (device port pace) ⟨p.port, p.clock, t⟩) := by
  induction missing generalizing p t with
  | zero =>
    have hfills : Fills port (pace.tick c.options) d.count limit p 0 :=
      ⟨hcount, hlimit, fun i hi => absurd hi (Nat.not_lt_zero i)⟩
    have hended : Ended port pace c.options d limit p _ := .filled t hfills
    rw [Channel.collect, List.reverse_reverse]
    exact hended
  | succ missing ih =>
    apply ended_nextByte hexpires _ hstep hlimit hcount
    · exact hpatience.trans (Nat.le_add_left _ _)
    · intro q t hstep hlimit hcount
      exact ih hstep hlimit hcount t

end Receives

/-- Every receive ends, with all bytes or with the miss at which its time is up. -/
theorem ended_receiveWithin {timeout : UInt32} (hexpires : pace.Expires c.options timeout limit)
    (hpatience : limit ≤ c.patience) {count : Nat} (hcount : count ≤ Size.largestBuffer) (s : ρ)
    (clock : Nat) (t : Transcript) :
    Ended port pace c.options ⟨count, timeout, clock⟩ limit
      { port := s, clock := clock + pace.look }
      ((c.receiveWithin count timeout).run (device port pace) ⟨s, clock, t⟩) := by
  have hstep : InStep pace c.options ⟨count, timeout, clock⟩
      ({ port := s, clock := clock + pace.look } : Polling ρ) := by
    rw [InStep, Nat.zero_mul]
    rfl
  have hended : Ended port pace c.options ⟨count, timeout, clock⟩ limit
      { port := s, clock := clock + pace.look }
      ((c.collect ⟨count, timeout, clock⟩ count []).run (device port pace)
        ⟨s, clock + pace.look, t⟩) :=
    ended_collect (d := ⟨count, timeout, clock⟩) hexpires hpatience hstep
      (Nat.lt_of_succ_le hexpires.1.1) (Nat.zero_add count) t
  rw [run_receiveWithin hcount, run_bind]
  generalize (c.collect ⟨count, timeout, clock⟩ count []).run (device port pace)
    ⟨s, clock + pace.look, t⟩ = r at hended ⊢
  cases hended with
  | filled t h => exact .filled _ h
  | exhausted t h => exact .exhausted _ h

/-- While time passes, no receive goes on forever. -/
theorem receiveWithin_ne_crash (hpatience : c.patience = 0x4000000000000000)
    (htick : 0 < pace.tick c.options) {count : Nat} (hcount : count ≤ Size.largestBuffer)
    (timeout : UInt32) (b : Bench ρ) (crash : Crash) :
    ((c.receiveWithin count timeout).run (device port pace) b).1 ≠ .crash crash := by
  obtain ⟨limit, hexpires, hlimit⟩ := Pace.exists_expires htick timeout
  obtain ⟨s, clock, t⟩ := b
  have hended : Ended port pace c.options _ limit _
      ((c.receiveWithin count timeout).run (device port pace) ⟨s, clock, t⟩) :=
    ended_receiveWithin hexpires (hpatience ▸ hlimit) hcount s clock t
  generalize (c.receiveWithin count timeout).run (device port pace) ⟨s, clock, t⟩ = r at hended ⊢
  cases hended <;> exact nofun

/-! ## The exact law -/

/-- Under a clock that only misses and delays advance, a receive takes what the port yields when it
is polled, byte for byte, if the last byte comes before the first miss after which more time has
passed than the receive may take, and reads no further. Otherwise it ends with that miss, and reads
no further either. Of more bytes than a buffer can hold it reads none. -/
theorem receive_exact (port : SimulatedPort ρ) (options : Options) (idleRead : Nat)
    (hmoves : ¬(idleRead = 0 ∧ options.pollDelay = 0)) (timeout : UInt32) :
    ∃ limit,
      IsLeast {k | 1 ≤ k ∧ timeout.toNat * 1000 <
        k * idleRead + (k - 1) * (options.pollDelay.toNat * 1000)} limit ∧
      ∀ (count : Nat) (s : ρ) (clock : Nat) (t : Transcript),
        let tick := idleRead + options.pollDelay.toNat * 1000
        let start : Polling ρ := { port := s, clock }
        let polled := fun n => after port tick n start
        let received := (Channel.receiveWithin { options } count timeout).run
          (device port (.scripted idleRead)) ⟨s, clock, t⟩
        (count ≤ Size.largestBuffer →
          ((∃ n, (polled n).bytes.length = count ∧ (polled n).misses < limit) →
            ∃ n t', Fills port tick count limit start n ∧
              received = (.ok (polled n).bytes, ⟨(polled n).port, (polled n).clock, t'⟩)) ∧
          ((¬∃ n, (polled n).bytes.length = count ∧ (polled n).misses < limit) →
            ∃ n t', Exhausts port tick count limit start n ∧
              received = (.error (.timeout timeout count (polled n).bytes.length),
                ⟨(polled n).port,
                  clock + (limit * idleRead + (limit - 1) * (options.pollDelay.toNat * 1000)),
                  t'⟩))) ∧
        (Size.largestBuffer < count → received = (.crash .reservation, ⟨s, clock, t⟩)) := by
  have htick : 0 < (Pace.scripted idleRead).tick options := by
    have hdelay : idleRead = 0 → options.pollDelay.toNat ≠ 0 :=
      fun hidle hzero => hmoves ⟨hidle, UInt32.toNat_inj.1 hzero⟩
    simp only [Pace.tick, Pace.scripted]
    omega
  obtain ⟨limit, hexpires, hpatience⟩ := Pace.exists_expires htick timeout
  refine ⟨limit, hexpires, ?_⟩
  intro count s clock t tick start polled received
  refine ⟨?_, fun hcount => run_receiveWithin_of_large hcount timeout⟩
  intro hcount
  have hended : Ended port (.scripted idleRead) options ⟨count, timeout, clock⟩ limit start
      received :=
    ended_receiveWithin (c := { options }) hexpires hpatience hcount s clock t
  generalize received = r at hended ⊢
  cases hended with
  | filled t' h =>
    constructor
    · intro _
      exact ⟨_, t', h, rfl⟩
    · intro hlate
      exact absurd ⟨_, h.length_eq, h.misses_lt⟩ hlate
  | exhausted t' h =>
    constructor
    · intro hintime
      exact absurd hintime h.not_filled
    · intro _
      exact ⟨_, t', h, rfl⟩

/-- Two misses, then more bytes than were asked for. -/
theorem receive_after_two_misses :
    ∃ b, (Channel.receiveWithin { options := { pollDelay := 1 } } 2 2).run
        (device Script.port (.scripted 0)) ⟨{ deliveries := [.idle 2, .bytes [7, 8, 9]] }, 0, {}⟩ =
      (.ok [7, 8], b) ∧ b.port.deliveries = [.bytes [9]] ∧ b.clock = 2000 := by
  obtain ⟨limit, hlimit, hlaw⟩ := receive_exact Script.port { pollDelay := 1 } 0 (by decide) 2
  have hlate : (2 : UInt32).toNat * 1000 < limit * 0 + (limit - 1) * ((1 : UInt32).toNat * 1000) :=
    hlimit.1.2
  have hlimit : 2 < limit := by
    have htwo : (2 : UInt32).toNat = 2 := rfl
    have hone : (1 : UInt32).toNat = 1 := rfl
    rw [htwo, hone] at hlate
    omega
  have hfills : Polling.Fills Script.port 1000 2 limit
      { port := { deliveries := [.idle 2, .bytes [7, 8, 9]] }, clock := 0 } 4 :=
    ⟨rfl, hlimit, by decide⟩
  obtain ⟨n, t', hfilled, hrun⟩ :=
    ((hlaw 2 _ 0 {}).1 (by decide)).1 ⟨4, hfills.length_eq, hfills.misses_lt⟩
  obtain rfl := hfilled.unique hfills
  exact ⟨_, hrun, rfl, rfl⟩

/-- A receive of more bytes than a buffer can hold neither returns nor times out. -/
theorem reservation_fails :
    (Channel.receiveWithin {} 0x8000000000000000 0).run (device Script.port (.scripted 1))
      ⟨{}, 0, {}⟩ = (.crash .reservation, ⟨{}, 0, {}⟩) :=
  run_receiveWithin_of_large (by decide) 0

end Bench

end BadgeLink
