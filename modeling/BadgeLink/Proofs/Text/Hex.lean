import BadgeLink.Monitor.Command
import BadgeLink.Text.Character
import Mathlib.Algebra.Group.Nat.Defs

/-!
# Digits on the wire

The hexadecimal digits that are written for a number read back as this number, cut to as many digits,
and they travel as bytes that are read as the same characters. `Hex.Spells` relates the digits of a
word to the word, `Hex.Denotes` those of a string of bytes to the bytes.
-/

namespace BadgeLink

namespace Hex

theorem digitValue_digit {n : Nat} (h : n < 16) : digitValue? (digit n) = some n := by
  have hall : ∀ n : Fin 16, digitValue? (digit n) = some n.val := by decide
  exact hall ⟨n, h⟩

theorem digit_toNat_lt {n : Nat} (h : n < 16) : (digit n).toNat < 128 := by
  have hall : ∀ n : Fin 16, (digit n).toNat < 128 := by decide
  exact hall ⟨n, h⟩

theorem digit_ne_plus {n : Nat} (h : n < 16) : digit n ≠ '+' := by
  have hall : ∀ n : Fin 16, digit n ≠ '+' := by decide
  exact hall ⟨n, h⟩

theorem digit_lower {n : Nat} (h : n < 16) : digit n ∈ "0123456789abcdef".toList := by
  have hall : ∀ n : Fin 16, digit n ∈ "0123456789abcdef".toList := by decide
  exact hall ⟨n, h⟩

theorem digit_ne_hash {n : Nat} (h : n < 16) : digit n ≠ '#' := by
  have hall : ∀ n : Fin 16, digit n ≠ '#' := by decide
  exact hall ⟨n, h⟩

@[simp] theorem length_digits (width n : Nat) : (digits width n).length = width := by
  induction width generalizing n with
  | zero => rfl
  | succ width ih => rw [digits, List.length_append, ih, List.length_singleton]

/-- Every digit that is written stands for a value below sixteen. -/
theorem mem_digits {width n : Nat} {c : Char} (h : c ∈ digits width n) :
    ∃ k < 16, c = digit k := by
  induction width generalizing n with
  | zero => cases h
  | succ width ih =>
    rcases List.mem_append.1 h with h | h
    · exact ih h
    · exact ⟨n % 16, Nat.mod_lt _ (by decide), List.mem_singleton.1 h⟩

/-- The digits of a number denote it, cut to as many digits. -/
theorem value_digits (width n : Nat) : value? (digits width n) = some (n % 16 ^ width) := by
  induction width generalizing n with
  | zero =>
    rw [Nat.pow_zero, Nat.mod_one]
    rfl
  | succ width ih =>
    have hlast : (digitValue? (digit (n % 16))).map (16 * (n / 16 % 16 ^ width) + ·) =
        some (16 * (n / 16 % 16 ^ width) + n % 16) := by
      rw [digitValue_digit (Nat.mod_lt _ (by decide))]
      rfl
    have hvalue : 16 * (n / 16 % 16 ^ width) + n % 16 = n % 16 ^ (width + 1) := by
      rw [Nat.pow_succ, Nat.mul_comm (16 ^ width), Nat.mod_mul, Nat.add_comm]
    have ih := ih (n / 16)
    rw [value?] at ih ⊢
    rw [digits, List.foldlM_append, ih, ← hvalue, ← hlast]
    simp

theorem value_digits_word (w : UInt32) : value? (digits 8 w.toNat) = some w.toNat := by
  have hlt : w.toNat < 16 ^ 8 := w.toNat_lt
  rw [value_digits, Nat.mod_eq_of_lt hlt]

theorem digits_word_inj {a b : UInt32} (h : digits 8 a.toNat = digits 8 b.toNat) : a = b := by
  have hvalue := congrArg value? h
  rw [value_digits_word, value_digits_word] at hvalue
  exact UInt32.toNat_inj.1 (Option.some.inj hvalue)

/-- A word in eight lower-case digits. -/
structure Spells (ds : List Char) (w : UInt32) : Prop where
  length_eq : ds.length = 8
  value_eq : value? ds = some w.toNat
  lower : ∀ d ∈ ds, d ∈ "0123456789abcdef".toList

theorem spells_digits (w : UInt32) : Spells (digits 8 w.toNat) w where
  length_eq := length_digits 8 w.toNat
  value_eq := value_digits_word w
  lower d hd := by
    obtain ⟨k, hk, rfl⟩ := mem_digits hd
    exact digit_lower hk

/-! ### Byte strings -/

/-- A byte string in lower-case digits, two for each byte. -/
structure Denotes (ds : List Char) (data : List UInt8) : Prop where
  length_eq : ds.length = 2 * data.length
  toBytes_eq : toBytes? ds = some data
  lower : ∀ d ∈ ds, d ∈ "0123456789abcdef".toList

theorem length_digits_bytes (data : List UInt8) :
    (data.flatMap fun b => digits 2 b.toNat).length = 2 * data.length := by
  induction data with
  | nil => rfl
  | cons b data ih =>
    rw [List.flatMap_cons, List.length_append, ih, length_digits, List.length_cons]
    omega

/-- The digits of a byte string read back as this string. -/
theorem toBytes_digits (data : List UInt8) :
    toBytes? (data.flatMap fun b => digits 2 b.toNat) = some data := by
  induction data with
  | nil => rfl
  | cons b data ih =>
    have hlt : b.toNat < 256 := b.toNat_lt
    have hhigh : digitValue? (digit (b.toNat / 16 % 16)) = some (b.toNat / 16) := by
      rw [Nat.mod_eq_of_lt (by omega), digitValue_digit (by omega)]
    have hvalue : UInt8.ofNat (16 * (b.toNat / 16) + b.toNat % 16) = b := by
      rw [Nat.div_add_mod, UInt8.ofNat_toNat]
    show toBytes? (digit (b.toNat / 16 % 16) :: digit (b.toNat % 16) ::
      data.flatMap fun b => digits 2 b.toNat) = some (b :: data)
    rw [toBytes?, hhigh, digitValue_digit (Nat.mod_lt _ (by decide)), ih]
    exact congrArg (fun b => some (b :: data)) hvalue

theorem denotes_digits (data : List UInt8) :
    Denotes (data.flatMap fun b => digits 2 b.toNat) data where
  length_eq := length_digits_bytes data
  toBytes_eq := toBytes_digits data
  lower d hd := by
    obtain ⟨b, -, hd⟩ := List.mem_flatMap.1 hd
    obtain ⟨k, hk, rfl⟩ := mem_digits hd
    exact digit_lower hk

end Hex

/-! ## Characters as bytes -/

theorem toNat_asciiByte {c : Char} (h : c.toNat < 128) : (UInt8.ofNat c.toNat).toNat = c.toNat := by
  rw [UInt8.toNat_ofNat', Nat.mod_eq_of_lt (by omega)]

/-- An ASCII character travels as a byte that no other ASCII character travels as. -/
theorem mem_asciiBytes_iff {c : Char} {cs : List Char} (hc : c.toNat < 128)
    (hcs : ∀ c ∈ cs, c.toNat < 128) : UInt8.ofNat c.toNat ∈ asciiBytes cs ↔ c ∈ cs := by
  constructor
  · intro h
    obtain ⟨c', hc', heq⟩ := List.mem_map.1 h
    have hnat := congrArg UInt8.toNat heq
    rw [toNat_asciiByte (hcs c' hc'), toNat_asciiByte hc] at hnat
    exact Char.toNat_inj.1 hnat ▸ hc'
  · exact fun h => List.mem_map.2 ⟨c, h, rfl⟩

/-- ASCII characters that travel as bytes are read as the same characters. -/
theorem map_ofNat_asciiBytes {cs : List Char} (h : ∀ c ∈ cs, c.toNat < 128) :
    (asciiBytes cs).map (fun b => Char.ofNat b.toNat) = cs := by
  rw [asciiBytes, List.map_map]
  refine (List.map_congr_left fun c hc => ?_).trans (List.map_id cs)
  rw [Function.comp_apply, toNat_asciiByte (h c hc), Char.ofNat_toNat]
  rfl

/-- ASCII is UTF-8. -/
theorem Utf8.fault_asciiBytes {cs : List Char} (h : ∀ c ∈ cs, c.toNat < 128) :
    Utf8.fault? (asciiBytes cs) = none := by
  have hscan : ∀ (position seen : Nat) (fits : UInt8 → Bool) (cs : List Char),
      (∀ c ∈ cs, c.toNat < 128) → scan position seen 0 fits (asciiBytes cs) = none := by
    intro position seen fits cs h
    induction cs generalizing position seen fits with
    | nil => rfl
    | cons c cs ih =>
      obtain ⟨hc, hcs⟩ := List.forall_mem_cons.1 h
      have hwidth : width (UInt8.ofNat c.toNat) = 1 := by
        have hlt : UInt8.ofNat c.toNat < 0x80 := by
          rw [UInt8.lt_iff_toNat_lt, toNat_asciiByte hc]
          exact hc
        rw [width, if_pos hlt]
      rw [asciiBytes, List.map_cons, scan, hwidth]
      exact ih _ _ _ hcs
  exact hscan 0 0 _ cs h

end BadgeLink
