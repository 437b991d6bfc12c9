import BadgeLink.Crash

/-!
# Machine words

Words of 32 bits and sizes of 64 bits, whose arithmetic crashes where the result does not fit, and
the byte orders in which words travel: the monitor sends them least significant byte first, frames
carry them most significant byte first.
-/

namespace BadgeLink

namespace Word

/-- The sum of two words; crashes if it does not fit. -/
def add (a b : UInt32) : Except Crash UInt32 :=
  if a.toNat + b.toNat < 0x100000000 then .ok (a + b) else .error .addOverflow

/-- The product of two words; crashes if it does not fit. -/
def mul (a b : UInt32) : Except Crash UInt32 :=
  if a.toNat * b.toNat < 0x100000000 then .ok (a * b) else .error .multiplyOverflow

/-- The quotient of two words; crashes if the divisor is zero. -/
def div (a b : UInt32) : Except Crash UInt32 :=
  if b = 0 then .error .divideByZero else .ok (a / b)

/-- The four bytes of a word, least significant first. -/
def littleEndian (w : UInt32) : List UInt8 :=
  [UInt8.ofNat w.toNat, UInt8.ofNat (w.toNat / 256), UInt8.ofNat (w.toNat / 65536),
    UInt8.ofNat (w.toNat / 16777216)]

/-- The word whose bytes are these, least significant first; bytes that are missing are zero. -/
def ofLittleEndian (bytes : List UInt8) : UInt32 :=
  UInt32.ofNat (bytes.foldr (fun b n => b.toNat + 256 * n) 0)

/-- The four bytes of a word, most significant first. -/
def bigEndian (w : UInt32) : List UInt8 :=
  (littleEndian w).reverse

end Word

namespace Size

/-- Sizes lie below this bound. -/
def bound : Nat := 0x10000000000000000

/-- The largest buffer that can be reserved. -/
def largestBuffer : Nat := 0x7fffffffffffffff

def add (a b : Nat) : Except Crash Nat :=
  if a + b < bound then .ok (a + b) else .error .addOverflow

/-- Crashes if a buffer of this many bytes cannot be reserved. -/
def reserve (bytes : Nat) : Except Crash Unit :=
  if bytes ≤ largestBuffer then .ok () else .error .reservation

end Size

end BadgeLink
