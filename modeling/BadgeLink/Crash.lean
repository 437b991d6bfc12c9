import BadgeLink.Text.Character

/-!
# Crashes

A crash ends a run at once and cannot be caught: arithmetic has left its range, a buffer cannot be
reserved, a simulated device was given something it does not know, or a wait has used up the
patience it was given. Errors that a caller is meant to handle are `LinkError`, not crashes.
-/

namespace BadgeLink

/-- Why a run broke off. -/
inductive Crash where
  | addOverflow
  | multiplyOverflow
  | shiftOverflow
  | divideByZero
  | reservation
  | indexOutOfRange (length index : Nat)
  | startOutOfRange (length start : Nat)
  | sliceOutOfRange (length stop : Nat)
  | unexpectedCommand (letter : UInt8)
  /-- The simulated monitor found this byte where a comma ends an address. -/
  | missingComma (found : UInt8)
  | notText (fault : Utf8.Fault)
  | notHexadecimal
  /-- The simulated controller found this byte where a flash command has its key. -/
  | missingKey (found : UInt8)
  /-- A wait has outlasted the patience of the channel. -/
  | stalled
deriving DecidableEq, Repr

/-- The text of a length that may be missing. -/
def Crash.lengthText : Option Nat → String
  | some n => s!"Some({n})"
  | none => "None"

/-- The text that reports that two bytes differ, for a reason that may be given. -/
def Crash.mismatch (reason : String) (found expected : UInt8) : String :=
  s!"assertion `left == right` failed{reason}\n  left: {found}\n right: {expected}"

/-- The text that reports a value that could not be read. -/
def Crash.unreadable (reason : String) : String :=
  "called `Result::unwrap()` on an `Err` value: " ++ reason

def Crash.message : Crash → String
  | addOverflow => "attempt to add with overflow"
  | multiplyOverflow => "attempt to multiply with overflow"
  | shiftOverflow => "attempt to shift left with overflow"
  | divideByZero => "attempt to divide by zero"
  | reservation => "capacity overflow"
  | indexOutOfRange length index =>
    s!"index out of bounds: the len is {length} but the index is {index}"
  | startOutOfRange length start =>
    s!"range start index {start} out of range for slice of length {length}"
  | sliceOutOfRange length stop =>
    s!"range end index {stop} out of range for slice of length {length}"
  | unexpectedCommand letter => s!"unexpected monitor command {Quoted.char letter}"
  | missingComma found => mismatch "" found 44
  | notText fault =>
    unreadable <| s!"Utf8Error \x7b valid_up_to: {fault.position}, " ++
      s!"error_len: {lengthText fault.length} \x7d"
  | notHexadecimal => unreadable "ParseIntError \x7b kind: InvalidDigit \x7d"
  | missingKey found => mismatch ": missing flash command key" found 90
  | stalled => "no patience left"

end BadgeLink
