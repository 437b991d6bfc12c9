import BadgeLink.Text.Hex

/-!
# Characters

Where a byte string stops being UTF-8, and how a byte is shown as a character.

In UTF-8 a character takes one to four bytes, the first of which tells how many, and the second of
which is restricted after some firsts, so that no character has two forms and surrogates have none.

A byte is shown as a character between single quotes. Characters that would not show are escaped: the
null, tab, line feed and carriage return by letter, the others by their code in braces.
-/

namespace BadgeLink.Utf8

/-- Where a byte string stops being UTF-8. -/
structure Fault where
  /-- The number of bytes before the character that is not well formed. -/
  position : Nat
  /-- The number of its bytes before the one that does not fit, and at least one; nothing, if the
  byte string ends within the character. -/
  length : Option Nat
deriving DecidableEq, Repr

/-- The number of bytes of a character that starts with a byte; zero, if none does. -/
def width (first : UInt8) : Nat :=
  if first < 0x80 then 1
  else if first < 0xc2 then 0
  else if first < 0xe0 then 2
  else if first < 0xf0 then 3
  else if first < 0xf5 then 4
  else 0

/-- Whether a byte may stand second, after a first byte of a character that has several. -/
def isSecond (first b : UInt8) : Bool :=
  if first = 0xe0 then 0xa0 ≤ b && b ≤ 0xbf
  else if first = 0xed then 0x80 ≤ b && b ≤ 0x9f
  else if first = 0xf0 then 0x90 ≤ b && b ≤ 0xbf
  else if first = 0xf4 then 0x80 ≤ b && b ≤ 0x8f
  else 0x80 ≤ b && b ≤ 0xbf

/-- Whether a byte may stand third or fourth. -/
def isLater (b : UInt8) : Bool :=
  0x80 ≤ b && b ≤ 0xbf

/-- Where the bytes after the first `position + seen` stop being UTF-8, if the last `seen` of those
belong to a character of which `missing` bytes are to come, each fit for its place by `fits`. -/
def scan (position seen missing : Nat) (fits : UInt8 → Bool) : List UInt8 → Option Fault
  | [] => if missing = 0 then none else some ⟨position, none⟩
  | b :: rest =>
    match missing with
    | missing + 1 =>
      if fits b then scan position (seen + 1) missing isLater rest
      else some ⟨position, some seen⟩
    | 0 =>
      match width b with
      | 0 => some ⟨position + seen, some 1⟩
      | more + 1 => scan (position + seen) 1 more (isSecond b) rest

/-- Where a byte string stops being UTF-8, if it does. -/
def fault? (bytes : List UInt8) : Option Fault :=
  scan 0 0 0 isLater bytes

end BadgeLink.Utf8

namespace BadgeLink.Quoted

/-- Whether the character with this code leaves a mark when it is printed. Of the codes of one byte
these are all but the two control ranges, the space that does not break, and the soft hyphen. -/
def isPrintable (code : Nat) : Bool :=
  (32 ≤ code && code < 127) || (160 < code && code != 173)

/-- What stands for a character between the quotes. -/
def escape (b : UInt8) : String :=
  match b.toNat with
  | 0 => "\\0"
  | 9 => "\\t"
  | 10 => "\\n"
  | 13 => "\\r"
  | 39 => "\\'"
  | 92 => "\\\\"
  | code =>
    if isPrintable code then String.singleton (Char.ofNat code)
    else "\\u\x7b" ++ String.ofList (Hex.digits (Hex.length code) code) ++ "\x7d"

/-- A byte as a quoted character. -/
def char (b : UInt8) : String :=
  "'" ++ escape b ++ "'"

end BadgeLink.Quoted
