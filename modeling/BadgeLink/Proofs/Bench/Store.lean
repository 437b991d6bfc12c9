import BadgeLink.Proofs.Bench.Connection
import BadgeLink.Proofs.Bench.Reading

/-!
# The flash as its users see it

The abstract machine behind a flash controller: the bytes of the flash, the locks of its regions and
the general-purpose bits. Every operation has an end and leaves a store (`Store.step`); there is no
latch, no status, no queue of results and no monitor, so nothing that an operation does can show in
a later one but through the store.

`Answers` states that a program ends as the machine does and moves the store of a sound chip as the
machine does; `Does.answers` and `Faults.answers` get it from what the program does to the memory.
-/

namespace BadgeLink.Chip

open Dialogue Bench Flash Controller

/-! ## The abstract machine -/

/-- The size of a sector, which is also that of a lock region. -/
abbrev sectorSize : Nat := 8192

structure Store where
  bytes : Vector UInt8 flashSize
  locks : Vector Bool lockCount
  bits : UInt32

namespace Store

/-- How an operation ends that meets a locked region. -/
def refusal : LinkError := .flashLocked 0x5

/-- The region that contains an offset is locked. -/
def Locked (s : Store) (offset : UInt32) : Prop :=
  s.locks[offset.toNat / sectorSize]? = some true

instance (s : Store) (offset : UInt32) : Decidable (s.Locked offset) :=
  inferInstanceAs (Decidable (_ = _))

def eraseSector (s : Store) (sector : Nat) : Store :=
  { s with bytes := .ofFn fun i => if i.val / sectorSize = sector then 0xff else s.bytes.get i }

/-- A page holds the data, and zeros after it. -/
def writePage (s : Store) (page : Nat) (data : List UInt8) : Store :=
  { s with bytes := .ofFn fun i =>
      if i.val / pageSize = page then data.getD (i.val % pageSize) 0 else s.bytes.get i }

/-- How an operation ends, and the store after it. -/
def step (s : Store) : Operation → Outcome LinkError Answer × Store
  | .readDescriptor => (.ok (.flash descriptor), s)
  | .setLock region locked =>
    (.ok .done, { s with locks := s.locks.setIfInBounds region.toNat locked })
  | .unlockAll => (.ok .done, { s with locks := .replicate lockCount false })
  | .eraseAll =>
    if true ∈ s.locks then (.error refusal, s)
    else (.ok .done, { s with bytes := .replicate flashSize 0xff })
  | .eraseSector offset =>
    if s.Locked offset then (.error refusal, s)
    else (.ok .done, s.eraseSector (offset.toNat / sectorSize))
  | .writePage offset data =>
    if pageSize < data.length then (.error (.refused .longPage), s)
    else if s.Locked offset then (.error refusal, s)
    else (.ok .done, s.writePage (offset.toNat / pageSize) data)
  | .readPage offset => (.ok (.page ((s.bytes.toList.drop offset.toNat).take pageSize)), s)
  | .setBit bit => (.ok .done, { s with bits := s.bits ||| 1 <<< bit })
  | .clearBit bit => (.ok .done, { s with bits := s.bits &&& ~~~(1 <<< bit) })
  | .readBits => (.ok (.bits s.bits), s)

/-- Operations one after the other, each with its end and the store after it. -/
def history : List Operation → Store → List (Outcome LinkError Answer × Store)
  | [], _ => []
  | op :: ops, s => s.step op :: history ops (s.step op).2

end Store

/-- The places that an operation names exist on the chip, and pages are named by their beginning. -/
def Within : Operation → Prop
  | .setLock region _ => region.toNat < lockCount
  | .eraseSector offset => offset.toNat < flashSize
  | .writePage offset _ | .readPage offset =>
    offset.toNat < flashSize ∧ offset.toNat % pageSize = 0
  | .setBit bit | .clearBit bit => bit.toNat < 32
  | .readDescriptor | .unlockAll | .eraseAll | .readBits => True

instance : DecidablePred Within
  | .setLock .. | .eraseSector _ | .setBit _ | .clearBit _ => inferInstanceAs (Decidable (_ < _))
  | .writePage .. | .readPage _ => inferInstanceAs (Decidable (_ ∧ _))
  | .readDescriptor | .unlockAll | .eraseAll | .readBits => inferInstanceAs (Decidable True)

def store (c : Chip) : Store :=
  ⟨c.flash, c.locks, c.bits⟩

/-- What is observed of operations that a client performs one after the other, whether they succeed
or not: how each of them ends, and what the chip stores then. -/
def observe (pace : Pace) (ctl : Controller) :
    List Operation → Bench (Wire Chip) → List (Outcome LinkError Answer × Store)
  | [], _ => []
  | op :: ops, b =>
    let r := (ctl.perform op).run (device (Wire.port receive) pace) b
    (r.1, r.2.port.device.store) :: observe pace ctl ops r.2

/-! ## Programs that answer like the machine -/

variable {α : Type} {pace : Pace} {polls : Nat}

/-- On every sound chip with this store, the program ends as stated, and leaves a sound chip with the
store stated. -/
def Answers (pace : Pace) (polls : Nat) (p : Link α) (s : Store) (r : Outcome LinkError α × Store) :
    Prop :=
  ∀ c : Chip, c.Sound polls → c.store = s → ∀ clock t, ∃ c' clock' t',
    p.run (device (Wire.port receive) pace) ⟨onWire c [], clock, t⟩ =
      (r.1, ⟨onWire c' [], clock', t'⟩) ∧ c'.Sound polls ∧ c'.store = r.2

def Memory.store (m : Memory) : Store :=
  ⟨m.flash, m.locks, m.bits⟩

variable {s s' : Store}

theorem Does.answers {p : Link α} {a : α}
    (h : ∀ m : Memory, m.store = s → Does pace polls p m fun b m' => b = a ∧ m'.store = s') :
    Answers pace polls p s (.ok a, s') := by
  intro c hsound hstore clock t
  obtain ⟨_, _, clock', t', hrun, c', rfl, hsound', rfl, hstore'⟩ :=
    h c.memory hstore c hsound rfl clock t
  exact ⟨c', clock', t', hrun, hsound', hstore'⟩

theorem Does.answers_done {p : Link α} {a : Answer}
    (h : ∀ m : Memory, m.store = s → Does pace polls p m fun _ m' => m'.store = s') :
    Answers pace polls (p.bind fun _ => done (.ok a)) s (.ok a, s') :=
  Does.answers fun m hm => (h m hm).bind fun _ _ hs => does_ok ⟨rfl, hs⟩

theorem Faults.answers {p : Link α} {e : LinkError}
    (h : ∀ m : Memory, m.store = s → Faults pace polls p m e fun m' => m'.store = s') :
    Answers pace polls p s (.error e, s') := by
  intro c hsound hstore clock t
  obtain ⟨_, clock', t', hrun, c', rfl, hsound', hstore'⟩ :=
    h c.memory hstore c hsound rfl clock t
  exact ⟨c', clock', t', hrun, hsound', hstore'⟩

theorem Faults.answers_done {p : Link α} {e : LinkError} {a : Answer}
    (h : ∀ m : Memory, m.store = s → Faults pace polls p m e fun m' => m'.store = s') :
    Answers pace polls (p.bind fun _ => done (.ok a)) s (.error e, s') :=
  Faults.answers fun m hm => (h m hm).bind _

/-! ## Bytes -/

theorem eq_ofFn_of_holds {n : Nat} {v : Vector UInt8 n} {f : Nat → UInt8} (h : Holds v f) :
    v = .ofFn fun i => f i.val := by
  refine Vector.ext fun i hi => ?_
  rw [h i hi, Vector.getElem_ofFn]

theorem take_drop_of_holds {v : Vector UInt8 flashSize} {f : Nat → UInt8} (h : Holds v f)
    {page : Nat} (hpage : page < 128) :
    (v.toList.drop (page * 512)).take pageSize = (List.range' (page * 512) 512).map f := by
  have hlength : v.toList.length = 65536 := Vector.length_toList
  refine List.ext_getElem ?_ fun i hi hi' => ?_
  · simp only [List.length_take, List.length_drop, List.length_map, List.length_range', hlength]
    show min 512 (65536 - page * 512) = 512
    omega
  · have hlt : i < 512 := by simpa using hi'
    simp only [List.getElem_take, List.getElem_drop, List.getElem_map, List.getElem_range',
      Vector.getElem_toList, Nat.one_mul]
    exact h _ _

end BadgeLink.Chip
