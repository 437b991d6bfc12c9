import BadgeLink.Dialogue.Run
import BadgeLink.Link.Record

/-!
# Links

The interface between a client and its surroundings: a serial port that is read and written byte by
byte and never blocks, a delay, a clock, a log, and a listener that follows the progress of long
work. A `Link` is a program over this interface.
-/

namespace BadgeLink

/-- The parts of programming a flash memory. -/
inductive Stage where
  | erasing
  | writing
  | verifying
deriving DecidableEq, Repr

def Stage.name : Stage → String
  | erasing => "Erasing"
  | writing => "Writing"
  | verifying => "Verifying"

/-- A step of programming that is about to be taken. -/
structure Progress where
  stage : Stage
  /-- The page it is done to, or the first of them. -/
  page : Nat
  total : Nat
deriving DecidableEq, Repr

/-- What one read of the port yields. -/
inductive Reading where
  | byte (b : UInt8)
  | idle
  | fault (f : PortFault)
deriving DecidableEq, Repr

/-- What one write or flush of the port yields. -/
inductive Acceptance where
  | done
  /-- It cannot be done yet. -/
  | busy
  | fault (f : PortFault)
deriving DecidableEq, Repr

namespace Link

/-- The requests of a client. -/
inductive Request where
  /-- Reads the next byte, if there is one. -/
  | read
  /-- Writes a byte, if the port takes one. -/
  | write (b : UInt8)
  | flush
  | pause (milliseconds : UInt32)
  | now
  | note (r : Record)
  | report (p : Progress)
deriving DecidableEq, Repr

/-- The answers to a request. The clock counts microseconds. -/
@[reducible] def Answer : Request → Type
  | .read => Reading
  | .write _ => Acceptance
  | .flush => Acceptance
  | .pause _ => Unit
  | .now => Nat
  | .note _ => Unit
  | .report _ => Unit

@[reducible] def interface : Interface := ⟨Request, Answer⟩

end Link

/-- A program that works over a serial port. -/
abbrev Link (α : Type) : Type := Dialogue Link.interface LinkError α

namespace Link

def read : Link Reading :=
  .ask (.read : Request) fun r => .done (.ok r)

def write (b : UInt8) : Link Acceptance :=
  .ask (.write b : Request) fun r => .done (.ok r)

def flush : Link Acceptance :=
  .ask (.flush : Request) fun r => .done (.ok r)

def pause (milliseconds : UInt32) : Link Unit :=
  .ask (.pause milliseconds : Request) fun _ => .done (.ok ())

/-- The time on the clock, in microseconds. -/
def now : Link Nat :=
  .ask (.now : Request) fun t => .done (.ok t)

def note (r : Record) : Link Unit :=
  .ask (.note r : Request) fun _ => .done (.ok ())

def report (p : Progress) : Link Unit :=
  .ask (.report p : Request) fun _ => .done (.ok ())

end Link

end BadgeLink
