import BadgeLink.Proofs.Flash.Polling

/-!
# Parsing the description of a flash

What a client makes of the words that a flash controller delivers when it is asked for the
description of its memory, whatever they are. The description tells itself how long it is: after
the identity, the size and the page size come a count of planes and as many entries, then a count
of lock regions and as many entries. No count is trusted before it was checked against the number
of pages.

* `Descriptor.PageFits`, `PlanesFit` and `LocksFit`: the checks, as properties of the words.
* `Descriptor.resultCount`, `Descriptor.parse`: how many words are read, and what becomes of them.
* `readDescriptor_parses`: this is what reading a description does.
-/

namespace BadgeLink.Flash

open Dialogue Monitor Link

namespace Descriptor

variable (r : Nat → UInt32)

/-! ## The words of a description -/

/-- The page size, which is the third word, is one. -/
def PageFits : Prop :=
  0 < (r 2).toNat ∧ (r 2).toNat % 4 = 0

/-- The most planes, and the most lock regions, that fit the size of the flash. -/
def mostEntries : Nat :=
  min ((r 1).toNat / (r 2).toNat) 1024

def planeCount : Nat :=
  (r 3).toNat

def PlanesFit : Prop :=
  1 ≤ planeCount r ∧ planeCount r ≤ mostEntries r

/-- The word after the planes. -/
def lockWord : UInt32 :=
  r (4 + planeCount r)

def lockCount : Nat :=
  (lockWord r).toNat

def LocksFit : Prop :=
  lockCount r ≤ mostEntries r

instance : Decidable (PageFits r) :=
  inferInstanceAs (Decidable (_ ∧ _))

instance : Decidable (PlanesFit r) :=
  inferInstanceAs (Decidable (_ ∧ _))

instance : Decidable (LocksFit r) :=
  inferInstanceAs (Decidable (_ ≤ _))

/-- The description that the words are if they pass every check. -/
def ofResults (base : UInt32) : Descriptor where
  id := r 0
  size := r 1
  pageSize := r 2
  pagesPerSector := 16
  planes := (List.range (planeCount r)).map fun i => r (4 + i)
  locks := (List.range (lockCount r)).map fun i => r (5 + planeCount r + i)
  base := base

/-- How many words are read: up to the first that fails its check. -/
def resultCount : Nat :=
  if ¬PageFits r then 3
  else if ¬PlanesFit r then 4
  else if ¬LocksFit r then 5 + planeCount r
  else 5 + planeCount r + lockCount r

/-- What becomes of the words: the description, or the first check that fails. -/
def parse (base : UInt32) : Outcome LinkError Descriptor :=
  if ¬PageFits r then .error (.implausibleGeometry .pageSize (r 2))
  else if ¬PlanesFit r then .error (.implausibleGeometry .planeCount (r 3))
  else if ¬LocksFit r then .error (.implausibleGeometry .lockCount (lockWord r))
  else .ok (ofResults r base)

theorem mostEntries_le : mostEntries r ≤ 1024 :=
  Nat.min_le_right _ _

/-- However long the controller pretends the description to be, only so many words are read. -/
theorem resultCount_le : resultCount r ≤ 2053 := by
  have hmost := mostEntries_le r
  unfold resultCount
  split
  · decide
  · split
    · decide
    · next hplanes =>
      have hplanes := (Decidable.not_not.1 hplanes).2
      split
      · omega
      · next hlocks =>
        have hlocks : lockCount r ≤ mostEntries r := Decidable.not_not.1 hlocks
        omega

theorem parse_eq_ok_iff {base : UInt32} {d : Descriptor} :
    parse r base = .ok d ↔ (PageFits r ∧ PlanesFit r ∧ LocksFit r) ∧ d = ofResults r base := by
  unfold parse
  by_cases hpage : PageFits r
  · by_cases hplanes : PlanesFit r
    · by_cases hlocks : LocksFit r
      · simp [hpage, hplanes, hlocks, eq_comm]
      · simp [hpage, hplanes, hlocks]
    · simp [hpage, hplanes]
  · simp [hpage]

/-! ## The checks in machine words -/

theorem pageFails_iff : (r 2 = 0 ∨ r 2 % 4 ≠ 0) ↔ ¬PageFits r := by
  rw [PageFits, ← UInt32.toNat_inj, ne_eq, ← UInt32.toNat_inj, UInt32.toNat_mod]
  show (r 2).toNat = 0 ∨ ¬(r 2).toNat % 4 = 0 ↔ _
  omega

theorem planesFail_iff : (r 3 = 0 ∨ min (r 1 / r 2) maxEntries < r 3) ↔ ¬PlanesFit r := by
  rw [Controller.most_lt_iff, ← UInt32.toNat_inj, PlanesFit, planeCount, mostEntries]
  show (r 3).toNat = 0 ∨ _ ↔ _
  omega

theorem locksFail_iff : min (r 1 / r 2) maxEntries < lockWord r ↔ ¬LocksFit r := by
  rw [Controller.most_lt_iff, LocksFit, Nat.not_le]
  rfl

end Descriptor

namespace Controller

/-! ## Programs that read results -/

/-- The program reads the next `count` results, from the `place`-th on, and ends with `o`. -/
def Reads {α : Type} (c : Controller) (r : Nat → UInt32) (place count : Nat) (p : Link α)
    (o : Outcome LinkError α) : Prop :=
  Driven c.monitor.channel (fun j => r (place + j)) p count
    (results c.base (wordAnswers (fun j => r (place + j)) count)) o

theorem results_wordAnswers_add (base : UInt32) (w : Nat → UInt32) (m n : Nat) :
    results base (wordAnswers w (m + n)) =
      results base (wordAnswers w m) ++ results base (wordAnswers (fun j => w (m + j)) n) := by
  rw [wordAnswers_add, results, List.map_append]
  rfl

variable {c : Controller} {r : Nat → UInt32} {α β : Type} {place count n : Nat}

theorem reads_done (o : Outcome LinkError α) : Reads c r place 0 (done o) o :=
  driven_done o

theorem Reads.bind {p : Link α} {f : α → Link β} {a : α} {o : Outcome LinkError β}
    (hp : Reads c r place count p (.ok a)) (hf : Reads c r (place + count) n (f a) o) :
    Reads c r place (count + n) (p.bind f) o := by
  unfold Reads at *
  simp only [Nat.add_assoc] at hf
  rw [results_wordAnswers_add]
  exact Driven.bind hp hf

variable (hpatience : 0 < c.monitor.channel.patience) (hbase : Addressable c.base)

include hpatience hbase

theorem reads_readResult (r : Nat → UInt32) (place : Nat) :
    Reads c r place 1 c.readResult (.ok (r place)) :=
  driven_readRegister (w := fun j => r (place + j)) hpatience hbase .result

/-- A list of results is the next words. -/
theorem reads_readResults (r : Nat → UInt32) (place left : Nat) (got : List UInt32) :
    Reads c r place left (c.readResults left got)
      (.ok (got.reverse ++ (List.range left).map fun i => r (place + i))) := by
  induction left generalizing place got with
  | zero =>
    rw [List.range_zero, List.map_nil, List.append_nil]
    exact reads_done _
  | succ left ih =>
    have h := (reads_readResult hpatience hbase r place).bind
      (f := fun value => c.readResults left (value :: got)) (ih (place + 1) (r place :: got))
    rw [map_range_succ]
    rw [List.reverse_cons, List.append_assoc, Nat.add_comm 1 left] at h
    simp only [Nat.add_assoc, Nat.add_comm 1] at h
    exact h

/-! ## Reading a description -/

omit hpatience hbase in
open Descriptor in
/-- The number of words, added up in the order in which they are read. -/
theorem resultCount_eq (r : Nat → UInt32) :
    resultCount r = 1 + (1 + (1 + if PageFits r then 1 + (if PlanesFit r then planeCount r +
      (1 + if LocksFit r then lockCount r else 0) else 0) else 0)) := by
  unfold resultCount
  by_cases hpage : PageFits r
  · by_cases hplanes : PlanesFit r
    · by_cases hlocks : LocksFit r
      · simp only [hpage, hplanes, hlocks, not_true, if_true, if_false]
        omega
      · simp only [hpage, hplanes, hlocks, not_true, not_false_iff, if_true, if_false]
        omega
    · simp only [hpage, hplanes, not_true, not_false_iff, if_true, if_false]
  · simp only [hpage, not_false_iff, if_true, if_false]

omit hpatience hbase in
/-- A failed check ends the program with its error, and nothing more is read. -/
theorem reads_refused (record : Record) (e : LinkError) :
    Reads (α := α) c r place 0 ((Link.note record).bind fun _ => done (.error e)) (.error e) :=
  driven_note_bind (driven_done _)

open Descriptor in
/-- The words after the command that asks for a description. -/
theorem driven_readDescriptor {k : Nat} {w : Nat → UInt32} {evs : List Event} {status : UInt32}
    (hasked : Driven c.monitor.channel w (c.issue .getDescriptor 0) k evs (.ok status))
    (hr : (fun j => w (k + j)) = r) :
    Driven c.monitor.channel w c.readDescriptor (k + resultCount r)
      (evs ++ results c.base (wordAnswers r (resultCount r))) (parse r c.flash.base) := by
  have hresult := reads_readResult hpatience hbase r
  have hlist := fun place count => reads_readResults hpatience hbase r place count []
  unfold readDescriptor
  refine hasked.discard.bind ?_
  rw [hr]
  suffices h : Reads c r 0 (resultCount r) _ (parse r c.flash.base) by
    unfold Reads at h
    simp only [Nat.zero_add] at h
    exact h
  -- every check is made as soon as the word that it is about was read, so the cases are those of
  -- `parse` in its order, each with the reads before it
  rw [resultCount_eq, parse]
  refine (hresult 0).bind ((hresult 1).bind ((hresult 2).bind ?_))
  simp only [pageFails_iff]
  by_cases hpage : PageFits r
  · rw [if_pos hpage, if_neg (not_not_intro hpage), if_neg (not_not_intro hpage)]
    refine (hresult 3).bind ?_
    simp only [planesFail_iff]
    by_cases hplanes : PlanesFit r
    · rw [if_pos hplanes, if_neg (not_not_intro hplanes), if_neg (not_not_intro hplanes)]
      refine (hlist 4 (planeCount r)).bind ((hresult (4 + planeCount r)).bind ?_)
      have hfails := locksFail_iff r
      unfold lockWord at hfails
      simp only [hfails]
      by_cases hlocks : LocksFit r
      · rw [if_pos hlocks, if_neg (not_not_intro hlocks), if_neg (not_not_intro hlocks)]
        have hplace : 4 + planeCount r + 1 = 5 + planeCount r := by omega
        rw [hplace]
        exact (hlist (5 + planeCount r) (lockCount r)).bind (n := 0) (reads_done _)
      · rw [if_neg hlocks, if_pos hlocks, if_pos hlocks]
        exact reads_refused _ _
    · rw [if_neg hplanes, if_pos hplanes, if_pos hplanes]
      exact reads_refused _ _
  · rw [if_neg hpage, if_pos hpage, if_pos hpage]
    exact reads_refused _ _

/-- The words after the status that says ready. -/
def resultsAfter (w : Nat → UInt32) (k : Nat) : Nat → UInt32 :=
  fun i => w (k + 1 + i)

open Descriptor in
/-- Whatever words a controller delivers on a port that works, after the command that asks for a
description succeeded, reading the description takes `resultCount` of them and ends as `parse` says.
So a description is returned exactly if every check passes, and it is made of these words. -/
theorem readDescriptor_parses {w : Nat → UInt32} {k : Nat} (hready : ReadyAt w k)
    (hpermitted : k < pollsPermitted c.pollLimit) (hclean : Status.check (w k) = .ok ()) :
    Driven c.monitor.channel w c.readDescriptor (k + 1 + resultCount (resultsAfter w k))
      (issuing c.base .getDescriptor 0 :: polls c.base (wordAnswers w (k + 1)) ++
        results c.base (wordAnswers (resultsAfter w k) (resultCount (resultsAfter w k))))
      (parse (resultsAfter w k) c.flash.base) ∧
    resultCount (resultsAfter w k) ≤ 2053 ∧
    ∀ d, parse (resultsAfter w k) c.flash.base = .ok d ↔
      (PageFits (resultsAfter w k) ∧ PlanesFit (resultsAfter w k) ∧ LocksFit (resultsAfter w k)) ∧
        d = ofResults (resultsAfter w k) c.flash.base := by
  have hasked := driven_issue hpatience hbase hready hpermitted hclean .getDescriptor 0
  constructor
  · exact driven_readDescriptor hpatience hbase hasked rfl
  · exact ⟨resultCount_le _, fun d => parse_eq_ok_iff _⟩

/-- The words of a controller that is ready at the second poll, with a flash of one plane and no
lock regions. -/
def onePlane (j : Nat) : UInt32 :=
  [0, 1, 0x00150200, 0x10000, 512, 1, 0x10000, 0].getD j 0

omit hpatience hbase in
theorem description_of_one_plane :
    Driven (onBadge (some 3)).monitor.channel onePlane (onBadge (some 3)).readDescriptor 8
      (issuing Target.badge.controllerBase .getDescriptor 0 ::
        polls Target.badge.controllerBase (wordAnswers onePlane 2) ++
        results Target.badge.controllerBase (wordAnswers (resultsAfter onePlane 1) 6))
      (.ok ⟨0x00150200, 0x10000, 512, 16, [0x10000], [], 0⟩) := by
  have hcount : Descriptor.resultCount (resultsAfter onePlane 1) = 6 := by decide
  have hparse : Descriptor.parse (resultsAfter onePlane 1) (onBadge (some 3)).flash.base =
      .ok ⟨0x00150200, 0x10000, 512, 16, [0x10000], [], 0⟩ := by decide
  have h := (readDescriptor_parses (c := onBadge (some 3)) (w := onePlane) (k := 1) (by decide)
    addressable_badge ⟨by decide, by decide⟩ (by decide) Status.check_ready).1
  rw [hcount, hparse] at h
  exact h

end Controller

end BadgeLink.Flash
