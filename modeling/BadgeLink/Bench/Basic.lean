import BadgeLink.Link.Basic

/-!
# Test benches

A bench plays the surroundings of a client: a simulated port, a clock that moves by fixed rules,
and a transcript of what happened. Which rules move the clock is the pace of the bench: benches
with scripted ports count the time of delays and of reads that find nothing, benches with simulated
devices let every look at the clock cost time.
-/

namespace BadgeLink

/-- A simulated port with a state of type `ρ`. -/
structure SimulatedPort (ρ : Type) where
  /-- One read, at a time in microseconds. -/
  read : Nat → ρ → Reading × ρ
  write : UInt8 → ρ → Except Crash Acceptance × ρ
  flush : ρ → Acceptance × ρ

/-- What moves the clock of a bench, and by how many microseconds. -/
structure Pace where
  /-- A read that yields no byte. -/
  idleRead : Nat
  /-- A delay, for each millisecond of it. -/
  delay : Nat
  /-- A look at the clock, after the time has been told. -/
  look : Nat
deriving DecidableEq, Repr

def Pace.scripted (idleRead : Nat) : Pace := ⟨idleRead, 1000, 0⟩

def Pace.simulated : Pace := ⟨0, 0, 1000⟩

structure Transcript where
  /-- The bytes that the port accepted, latest first. -/
  accepted : List UInt8 := []
  delivered : Nat := 0
  /-- The log, latest record first. -/
  records : List Record := []
  /-- What the listener was told, latest first. -/
  progress : List Progress := []
deriving DecidableEq, Repr

/-- A bench with a port in a state of type `ρ`. -/
structure Bench (ρ : Type) where
  port : ρ
  /-- The time in microseconds. -/
  clock : Nat := 0
  transcript : Transcript := {}

namespace Bench

variable {ρ : Type}

/-- The surroundings that a bench plays. A byte on which the device crashes has been accepted. -/
def device (port : SimulatedPort ρ) (pace : Pace) : Device Link.interface (Bench ρ) where
  respond
    | ⟨p, clock, t⟩, .read =>
      match port.read clock p with
      | (.byte b, p) => (.ok (.byte b), ⟨p, clock, { t with delivered := t.delivered + 1 }⟩)
      | (r, p) => (.ok r, ⟨p, clock + pace.idleRead, t⟩)
    | ⟨p, clock, t⟩, .write b =>
      match port.write b p with
      | (.ok .done, p) => (.ok .done, ⟨p, clock, { t with accepted := b :: t.accepted }⟩)
      | (.ok r, p) => (.ok r, ⟨p, clock, t⟩)
      | (.error c, p) => (.error c, ⟨p, clock, { t with accepted := b :: t.accepted }⟩)
    | ⟨p, clock, t⟩, .flush =>
      let (r, p) := port.flush p
      (.ok r, ⟨p, clock, t⟩)
    | ⟨p, clock, t⟩, .pause ms => (.ok (), ⟨p, clock + ms.toNat * pace.delay, t⟩)
    | ⟨p, clock, t⟩, .now => (.ok clock, ⟨p, clock + pace.look, t⟩)
    | ⟨p, clock, t⟩, .note r => (.ok (), ⟨p, clock, { t with records := r :: t.records }⟩)
    | ⟨p, clock, t⟩, .report step => (.ok (), ⟨p, clock, { t with progress := step :: t.progress }⟩)

def restart (b : Bench ρ) : Bench ρ :=
  { b with transcript := {} }

end Bench

end BadgeLink
