/-!
# Hexadecimal text

Lower-case hexadecimal digits of numbers, bytes and words, and the reader that accepts either case.
`digits` writes a fixed number of digits, so that words on the wire and in messages have a width
that does not depend on their value.
-/

namespace BadgeLink.Hex

/-- The digit of a value below sixteen; the letters are lower case. -/
def digit (n : Nat) : Char :=
  if n < 10 then Char.ofNat (48 + n) else Char.ofNat (87 + n)

/-- The `width` least significant digits of `n`, most significant first. -/
def digits : Nat → Nat → List Char
  | 0, _ => []
  | width + 1, n => digits width (n / 16) ++ [digit (n % 16)]

/-- How many digits `n` needs; zero needs one. -/
def length (n : Nat) : Nat :=
  if n < 16 then 1 else length (n / 16) + 1

/-- The digits of `n`, padded with zeros on the left to at least `width`. -/
def padded (width n : Nat) : String :=
  String.ofList (digits (max width (length n)) n)

def byte (b : UInt8) : String :=
  String.ofList (digits 2 b.toNat)

def word (w : UInt32) : String :=
  String.ofList (digits 8 w.toNat)

/-- The digits of a byte string, two for each byte and nothing between them. -/
def ofBytes (data : List UInt8) : String :=
  String.ofList (data.flatMap fun b => digits 2 b.toNat)

/-- A byte string as a bracketed list, as in `[0a, 0d]`. -/
def listing (data : List UInt8) : String :=
  "[" ++ ", ".intercalate (data.map byte) ++ "]"

/-- The value of a digit of either case. -/
def digitValue? (c : Char) : Option Nat :=
  if '0' ≤ c ∧ c ≤ '9' then some (c.toNat - 48)
  else if 'a' ≤ c ∧ c ≤ 'f' then some (c.toNat - 87)
  else if 'A' ≤ c ∧ c ≤ 'F' then some (c.toNat - 55)
  else none

/-- The number that a sequence of digits denotes, or `none` if some character is not a digit. -/
def value? (cs : List Char) : Option Nat :=
  cs.foldlM (fun n c => (digitValue? c).map (16 * n + ·)) 0

/-- The byte string that an even number of digits denotes. -/
def toBytes? : List Char → Option (List UInt8)
  | [] => some []
  | [_] => none
  | a :: b :: rest => do
    let high ← digitValue? a
    let low ← digitValue? b
    let bytes ← toBytes? rest
    return UInt8.ofNat (16 * high + low) :: bytes

end BadgeLink.Hex
