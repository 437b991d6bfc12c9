import BadgeLink.Bench.Script
import BadgeLink.Proofs.Bench.Polling

/-!
# Receives in parts

The bytes that a receive returns have come in time, each before the moment at which the whole
receive is due. They come in time as well if it is due later, and if it is made in parts: the parts
that follow the first are due later than the whole.

* `Awaits` is a wait for one byte that comes in time, and `Gathers` one for several.
* `run_receiveWithin_iff`: a receive returns what its polls gather before it is due.
* `receive_in_parts`: the law for a clock that only misses and delays advance.
-/

namespace BadgeLink

/-- The last moment at which a receive is in time. -/
def Channel.Deadline.due (d : Channel.Deadline) : Nat :=
  d.start + d.timeout.toNat * 1000

namespace Bench

open Dialogue Polling

variable {ρ : Type} {port : SimulatedPort ρ} {pace : Pace} {options : Options}
  {due due' patience clock clock₁ clock' : Nat} {s s₁ s' : ρ} {b : UInt8} {data : List UInt8}

theorem late_iff {d : Channel.Deadline} {time : Nat} : Late d time ↔ d.due < time := by
  unfold Late Channel.Deadline.due
  omega

/-- From one state of the port and one time to another, so many polls at most see a byte come, and
none of them is a miss after the time `due`. -/
inductive Awaits (port : SimulatedPort ρ) (pace : Pace) (options : Options) (due : Nat)
    (b : UInt8) : (patience : Nat) → ρ → Nat → ρ → Nat → Prop where
  | byte {patience clock : Nat} {s s' : ρ} (hread : port.read clock s = (.byte b, s')) :
      Awaits port pace options due b (patience + 1) s clock s' clock
  | miss {patience clock clock' : Nat} {s s₁ s' : ρ} {r : Reading} (hr : r.byte? = none)
      (hread : port.read clock s = (r, s₁)) (hearly : clock + pace.idleRead ≤ due)
      (hrest : Awaits port pace options due b patience s₁ (clock + pace.tick options) s' clock') :
      Awaits port pace options due b (patience + 1) s clock s' clock'

theorem Awaits.mono (hdue : due ≤ due')
    (h : Awaits port pace options due b patience s clock s' clock') :
    Awaits port pace options due' b patience s clock s' clock' := by
  induction h with
  | byte hread => exact .byte hread
  | miss hr hread hearly _ ih => exact .miss hr hread (Nat.le_trans hearly hdue) ih

theorem Awaits.clock_le (h : Awaits port pace options due b patience s clock s' clock') :
    clock ≤ clock' := by
  induction h with
  | byte _ => exact Nat.le_refl _
  | miss _ _ _ _ ih => exact Nat.le_trans (Nat.le_add_right _ _) ih

variable {c : Channel} {d : Channel.Deadline} {missing : Nat}

theorem run_nextByte_iff {t : Transcript} :
    (∃ t', (c.nextByte d missing patience).run (device port pace) ⟨s, clock, t⟩ =
        (.ok b, ⟨s', clock', t'⟩)) ↔
      Awaits port pace c.options d.due b patience s clock s' clock' := by
  constructor
  · rintro ⟨t', hrun⟩
    induction patience generalizing s clock t with
    | zero => cases hrun
    | succ patience ih =>
      obtain ⟨b₁, s₁, hread, -⟩ | ⟨r, s₁, hr, hread, -⟩ := next_cases port 0 ⟨s, clock, [], 0⟩
      · rw [run_nextByte_byte hread] at hrun
        cases hrun
        exact .byte hread
      · by_cases hlate : Late d (clock + pace.idleRead)
        · rw [run_nextByte_late hr hread hlate] at hrun
          cases hrun
        · rw [run_nextByte_early hr hread hlate] at hrun
          exact .miss hr hread (Nat.not_lt.1 fun h => hlate (late_iff.2 h)) (ih hrun)
  · intro h
    induction h generalizing t with
    | byte hread => exact ⟨_, run_nextByte_byte hread⟩
    | miss hr hread hearly _ ih =>
      rw [run_nextByte_early hr hread fun h => Nat.not_lt.2 hearly (late_iff.1 h)]
      exact ih

/-- From one state of the port and one time to another, the polls see these bytes come, so many of
them at most for each, and none of them is a miss after the time `due`. -/
inductive Gathers (port : SimulatedPort ρ) (pace : Pace) (options : Options) (due patience : Nat) :
    List UInt8 → ρ → Nat → ρ → Nat → Prop where
  | nil (s : ρ) (clock : Nat) : Gathers port pace options due patience [] s clock s clock
  | cons {b : UInt8} {data : List UInt8} {s s₁ s' : ρ} {clock clock₁ clock' : Nat}
      (hbyte : Awaits port pace options due b patience s clock s₁ clock₁)
      (hrest : Gathers port pace options due patience data s₁ clock₁ s' clock') :
      Gathers port pace options due patience (b :: data) s clock s' clock'

theorem Gathers.mono (hdue : due ≤ due')
    (h : Gathers port pace options due patience data s clock s' clock') :
    Gathers port pace options due' patience data s clock s' clock' := by
  induction h with
  | nil s clock => exact .nil s clock
  | cons hbyte _ ih => exact .cons (hbyte.mono hdue) ih

theorem Gathers.clock_le (h : Gathers port pace options due patience data s clock s' clock') :
    clock ≤ clock' := by
  induction h with
  | nil s clock => exact Nat.le_refl _
  | cons hbyte _ ih => exact Nat.le_trans hbyte.clock_le ih

theorem Gathers.exists_of_append {xs ys : List UInt8}
    (h : Gathers port pace options due patience (xs ++ ys) s clock s' clock') :
    ∃ s₁ clock₁, Gathers port pace options due patience xs s clock s₁ clock₁ ∧
      Gathers port pace options due patience ys s₁ clock₁ s' clock' := by
  induction xs generalizing s clock with
  | nil => exact ⟨s, clock, .nil s clock, h⟩
  | cons x xs ih =>
    cases h with
    | cons hbyte hrest =>
      obtain ⟨s₁, clock₁, hxs, hys⟩ := ih hrest
      exact ⟨s₁, clock₁, .cons hbyte hxs, hys⟩

theorem run_collect_iff (got : List UInt8) {v : List UInt8} {t : Transcript} :
    (∃ t', (c.collect d missing got).run (device port pace) ⟨s, clock, t⟩ =
        (.ok v, ⟨s', clock', t'⟩)) ↔
      ∃ data, data.length = missing ∧ v = got.reverse ++ data ∧
        Gathers port pace c.options d.due c.patience data s clock s' clock' := by
  induction missing generalizing s clock t got with
  | zero =>
    constructor
    · rintro ⟨t', hrun⟩
      cases hrun
      exact ⟨[], rfl, (List.append_nil _).symm, .nil _ _⟩
    · rintro ⟨data, hlength, rfl, hdata⟩
      obtain rfl := List.length_eq_zero_iff.1 hlength
      cases hdata
      rw [List.append_nil]
      exact ⟨t, rfl⟩
  | succ missing ih =>
    have hcons (b : UInt8) (data : List UInt8) :
        (b :: got).reverse ++ data = got.reverse ++ b :: data := by
      rw [List.reverse_cons, ← List.append_cons]
    constructor
    · rintro ⟨t', hrun⟩
      obtain ⟨b, ⟨s₁, clock₁, t₁⟩, hbyte, hrest⟩ := run_bind_eq_ok_iff.1 hrun
      obtain ⟨data, hlength, rfl, hdata⟩ := (ih (b :: got)).1 ⟨t', hrest⟩
      have hbyte := run_nextByte_iff.1 ⟨t₁, hbyte⟩
      exact ⟨b :: data, congrArg (· + 1) hlength, hcons b data, .cons hbyte hdata⟩
    · rintro ⟨data, hlength, rfl, hdata⟩
      cases hdata with
      | nil => cases hlength
      | @cons b data _ s₁ _ _ clock₁ _ hbyte hrest =>
        obtain ⟨t₁, hbyte⟩ := run_nextByte_iff.2 hbyte
        obtain ⟨t', hrest⟩ :=
          (ih (b :: got)).2 ⟨data, Nat.succ.inj hlength, (hcons b data).symm, hrest⟩
        exact ⟨t', run_bind_eq_ok_iff.2 ⟨b, ⟨s₁, clock₁, t₁⟩, hbyte, hrest⟩⟩

variable {count : Nat} {timeout : UInt32}

/-- A receive returns what its polls gather before it is due, if a buffer can hold as much. -/
theorem run_receiveWithin_iff {v : List UInt8} {t : Transcript} :
    (∃ t', (c.receiveWithin count timeout).run (device port pace) ⟨s, clock, t⟩ =
        (.ok v, ⟨s', clock', t'⟩)) ↔
      count ≤ Size.largestBuffer ∧ v.length = count ∧
        Gathers port pace c.options (clock + timeout.toNat * 1000) c.patience v s
          (clock + pace.look) s' clock' := by
  rcases Nat.lt_or_ge Size.largestBuffer count with hlarge | hsize
  · rw [run_receiveWithin_of_large hlarge]
    constructor
    · rintro ⟨t', hrun⟩
      cases hrun
    · rintro ⟨hsize, -, -⟩
      exact absurd hsize (Nat.not_le.2 hlarge)
  · rw [run_receiveWithin hsize]
    constructor
    · rintro ⟨t', hrun⟩
      obtain ⟨data, ⟨s₁, clock₁, t₁⟩, hdata, hrest⟩ := run_bind_eq_ok_iff.1 hrun
      cases hrest
      obtain ⟨_, hlength, rfl, hgathers⟩ := (run_collect_iff []).1 ⟨t₁, hdata⟩
      exact ⟨hsize, hlength, hgathers⟩
    · rintro ⟨-, hlength, hgathers⟩
      obtain ⟨t₁, hdata⟩ :=
        (run_collect_iff (d := ⟨count, timeout, clock⟩) []).2 ⟨v, hlength, rfl, hgathers⟩
      exact ⟨_, run_bind_eq_ok_iff.2 ⟨v, _, hdata, rfl⟩⟩

/-! ## Parts and later deadlines -/

/-- Under a clock that only misses and delays advance, a receive that succeeds may be made in two
parts, each with the time that the whole had, and it may be given more time. In all three cases the
same bytes are received and the port and the clock are left in the same state. -/
theorem receive_in_parts (port : SimulatedPort ρ) (idleRead : Nat) (c : Channel) {m n : Nat}
    {timeout timeout' : UInt32} (htimeout : timeout ≤ timeout') {s s' : ρ} {clock clock' : Nat}
    {t t' : Transcript} {v : List UInt8}
    (hrun : (c.receiveWithin (m + n) timeout).run (device port (.scripted idleRead)) ⟨s, clock, t⟩ =
      (.ok v, ⟨s', clock', t'⟩)) :
    v.length = m + n ∧
      (∃ s₁ clock₁ t₁ t₂,
        (c.receiveWithin m timeout).run (device port (.scripted idleRead)) ⟨s, clock, t⟩ =
          (.ok (v.take m), ⟨s₁, clock₁, t₁⟩) ∧
        (c.receiveWithin n timeout).run (device port (.scripted idleRead)) ⟨s₁, clock₁, t₁⟩ =
          (.ok (v.drop m), ⟨s', clock', t₂⟩)) ∧
      ∃ t₃, (c.receiveWithin (m + n) timeout').run (device port (.scripted idleRead))
        ⟨s, clock, t⟩ = (.ok v, ⟨s', clock', t₃⟩) := by
  obtain ⟨hsize, hlength, hgathers⟩ := run_receiveWithin_iff.1 ⟨t', hrun⟩
  refine ⟨hlength, ?_, ?_⟩
  · rw [← List.take_append_drop m v] at hgathers
    obtain ⟨s₁, clock₁, hfirst, hrest⟩ := hgathers.exists_of_append
    have hlength₁ : (v.take m).length = m := by
      rw [List.length_take, hlength, Nat.min_eq_left (Nat.le_add_right m n)]
    have hlength₂ : (v.drop m).length = n := by
      rw [List.length_drop, hlength, Nat.add_sub_cancel_left]
    -- The second part is due later than the whole.
    have hdue : clock + timeout.toNat * 1000 ≤ clock₁ + timeout.toNat * 1000 :=
      Nat.add_le_add_right hfirst.clock_le _
    obtain ⟨t₁, hrun₁⟩ := run_receiveWithin_iff.2
      ⟨Nat.le_trans (Nat.le_add_right m n) hsize, hlength₁, hfirst⟩
    obtain ⟨t₂, hrun₂⟩ := run_receiveWithin_iff.2
      ⟨Nat.le_trans (Nat.le_add_left n m) hsize, hlength₂, hrest.mono hdue⟩
    exact ⟨s₁, clock₁, t₁, t₂, hrun₁, hrun₂⟩
  · have hdue : clock + timeout.toNat * 1000 ≤ clock + timeout'.toNat * 1000 :=
      Nat.add_le_add_left (Nat.mul_le_mul_right 1000 htimeout) clock
    exact run_receiveWithin_iff.2 ⟨hsize, hlength, hgathers.mono hdue⟩

/-- A miss before each of two bytes. -/
theorem receive_one_by_one :
    ∃ s₁ clock₁ t₁ t₂,
      (Channel.receiveWithin { options := { pollDelay := 1 } } 1 2).run
          (device Script.port (.scripted 0))
          ⟨{ deliveries := [.idle 1, .bytes [7], .idle 1, .bytes [8, 9]] }, 0, {}⟩ =
        (.ok [7], ⟨s₁, clock₁, t₁⟩) ∧
      (Channel.receiveWithin { options := { pollDelay := 1 } } 1 2).run
          (device Script.port (.scripted 0)) ⟨s₁, clock₁, t₁⟩ =
        (.ok [8], ⟨{ deliveries := [.bytes [9]] }, 2000, t₂⟩) := by
  have hrun : ∃ t', (Channel.receiveWithin { options := { pollDelay := 1 } } (1 + 1) 2).run
      (device Script.port (.scripted 0))
      ⟨{ deliveries := [.idle 1, .bytes [7], .idle 1, .bytes [8, 9]] }, 0, {}⟩ =
        (.ok [7, 8], ⟨{ deliveries := [.bytes [9]] }, 2000, t'⟩) :=
    ⟨_, rfl⟩
  obtain ⟨t', hrun⟩ := hrun
  have htimeout : (2 : UInt32) ≤ 3 := by decide
  exact (receive_in_parts Script.port 0 _ htimeout hrun).2.1

end Bench

end BadgeLink
