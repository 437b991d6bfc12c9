/-!
# Decimal numbers

Unsigned numerals are read and sizes are shown.

A numeral is a sequence of ASCII digits, which a plus sign may precede and leading zeros may pad, and
its value must lie below a bound.

A size is a number of bytes in the largest unit of which there is at least one, with up to two
decimals. The quotient is rounded twice: to a binary fraction of 53 significant bits, and that to
hundredths. A tie goes to the even neighbour each time. Zeros at the end of the decimals are left
out.
-/

namespace BadgeLink.Decimal

/-- The value of a sequence of digits, or `none` if some character is not a digit. -/
def value? (cs : List Char) : Option Nat :=
  cs.foldlM (fun n c => if c.isDigit then some (10 * n + (c.toNat - 48)) else none) 0

/-- The value of a numeral, if it is one and its value lies below `bound`. -/
def read? (bound : Nat) (s : String) : Option Nat :=
  let digits :=
    match s.toList with
    | '+' :: rest => rest
    | cs => cs
  if digits.isEmpty then none else (value? digits).filter (· < bound)

end BadgeLink.Decimal

namespace BadgeLink.ByteSize

/-- The quotient rounded to the nearest whole number, a tie to the even one. -/
def roundDiv (num den : Nat) : Nat :=
  let q := num / den
  let r := num % den
  if 2 * r < den ∨ (2 * r = den ∧ q % 2 = 0) then q else q + 1

/-- The quotient of two numbers in hundredths, for a quotient of at least one. -/
def hundredths (num den : Nat) : Nat :=
  let scale := 1 <<< (52 - Nat.log2 (num / den))
  roundDiv (100 * roundDiv (num * scale) den) scale

/-- Two decimals without the zeros at their end, and the point if any is left. -/
def decimals (n : Nat) : String :=
  if n = 0 then ""
  else if n % 10 = 0 then s!".{n / 10}"
  else if n < 10 then s!".0{n}"
  else s!".{n}"

def units : List (Nat × String) :=
  [(1000000000000000, "PB"), (1000000000000, "TB"), (1000000000, "GB"), (1000000, "MB"),
    (1000, "KB")]

/-- A number of bytes with its unit. -/
def text (bytes : Nat) : String :=
  match units.find? (·.1 ≤ bytes) with
  | some (size, unit) =>
    let h := hundredths bytes size
    s!"{h / 100}{decimals (h % 100)} {unit}"
  | none => s!"{bytes} B"

end BadgeLink.ByteSize
