import BadgeLink.Badge.Call
import Mathlib.Data.Nat.Digits.Defs

/-!
# Register addresses

The address of a register goes into a payload as its bytes, most significant first, without the
zeros in front. Such byte strings are the shortest ones for their numbers, so there is one for each
number, and they are ordered like their numbers: by length first, and byte by byte where their
lengths agree.

* `magnitude` is the number that a byte string stands for, whatever zeros it begins with.
* `Shortest` says that a byte string has no zero to spare; `Shortest.length_le` and
  `Shortest.magnitude_lt_iff` are what follows from it.
* `shortest_registerAddress` and `magnitude_registerAddress`: the address of a register is the
  shortest byte string for it. `address_of_register` puts this together.
-/

namespace BadgeLink

/-! ## Numbers of byte strings -/

/-- The number that bytes stand for, most significant first. -/
def magnitude (bytes : List UInt8) : Nat :=
  Nat.ofDigits 256 (bytes.reverse.map UInt8.toNat)

variable {b : UInt8} {bytes xs ys : List UInt8}

theorem magnitude_cons (b : UInt8) (bytes : List UInt8) :
    magnitude (b :: bytes) = b.toNat * 256 ^ bytes.length + magnitude bytes := by
  rw [magnitude, List.reverse_cons, List.map_append, Nat.ofDigits_append, List.length_map,
    List.length_reverse, List.map_singleton, Nat.ofDigits_singleton, Nat.mul_comm, Nat.add_comm]
  rfl

theorem magnitude_zero_cons (bytes : List UInt8) : magnitude (0 :: bytes) = magnitude bytes := by
  rw [magnitude_cons, UInt8.toNat_zero, Nat.zero_mul, Nat.zero_add]

theorem magnitude_lt (bytes : List UInt8) : magnitude bytes < 256 ^ bytes.length := by
  have hdigits : ∀ digit ∈ bytes.reverse.map UInt8.toNat, digit < 256 := by
    intro digit hdigit
    obtain ⟨b, -, rfl⟩ := List.mem_map.1 hdigit
    exact b.toNat_lt
  have hlt := Nat.ofDigits_lt_base_pow_length (by decide) hdigits
  rwa [List.length_map, List.length_reverse] at hlt

/-- The first byte tells that a number is not below a power. -/
theorem pow_le_magnitude (hb : b ≠ 0) (bytes : List UInt8) :
    256 ^ bytes.length ≤ magnitude (b :: bytes) := by
  have hpos : 0 < b.toNat := Nat.pos_of_ne_zero fun hzero => hb (UInt8.toNat_inj.1 hzero)
  rw [magnitude_cons]
  exact Nat.le_add_right_of_le (Nat.le_mul_of_pos_left _ hpos)

/-- Of two equally long byte strings the one that begins with the smaller byte stands for the smaller
number, whatever follows. -/
theorem magnitude_cons_lt {x y : UInt8} (hlength : xs.length = ys.length) (hxy : x < y) :
    magnitude (x :: xs) < magnitude (y :: ys) := by
  have hxs := magnitude_lt xs
  have hstep := Nat.mul_le_mul_right (256 ^ ys.length) (UInt8.lt_iff_toNat_lt.1 hxy)
  rw [hlength] at hxs
  rw [Nat.succ_mul] at hstep
  rw [magnitude_cons, magnitude_cons, hlength]
  omega

/-- Byte strings of one length are ordered like their numbers, byte by byte. -/
theorem magnitude_lt_iff_of_length (h : xs.length = ys.length) :
    magnitude xs < magnitude ys ↔ xs < ys := by
  induction xs generalizing ys with
  | nil =>
    obtain rfl := List.eq_nil_of_length_eq_zero h.symm
    exact iff_of_false (Nat.lt_irrefl _) (List.lt_irrefl [])
  | cons x xs ih =>
    cases ys with
    | nil => cases h
    | cons y ys =>
      have hlength : xs.length = ys.length := Nat.succ.inj h
      rcases Nat.lt_trichotomy x.toNat y.toNat with hxy | hxy | hyx
      · have hxy : x < y := UInt8.lt_iff_toNat_lt.2 hxy
        exact iff_of_true (magnitude_cons_lt hlength hxy) (List.cons_lt_cons_iff.2 (.inl hxy))
      · obtain rfl := UInt8.toNat_inj.1 hxy
        rw [List.cons_lt_cons_iff, ← ih hlength, magnitude_cons, magnitude_cons, hlength,
          Nat.add_lt_add_iff_left, or_iff_right (UInt8.lt_irrefl x), and_iff_right rfl]
      · have hyx : y < x := UInt8.lt_iff_toNat_lt.2 hyx
        refine iff_of_false (Nat.lt_asymm (magnitude_cons_lt hlength.symm hyx)) fun hlt => ?_
        rcases List.cons_lt_cons_iff.1 hlt with hxy | ⟨rfl, -⟩
        · exact UInt8.lt_asymm hyx hxy
        · exact UInt8.lt_irrefl _ hyx

/-! ## Shortest byte strings -/

/-- A byte string that begins with no zero, unless it is the one byte of zero. -/
inductive Shortest : List UInt8 → Prop where
  | zero : Shortest [0]
  | lead {b : UInt8} (hb : b ≠ 0) (rest : List UInt8) : Shortest (b :: rest)

namespace Shortest

theorem eq_of_head (h : Shortest bytes) (hhead : bytes.head? = some 0) : bytes = [0] := by
  cases h with
  | zero => rfl
  | lead hb => exact absurd (Option.some.inj hhead) hb

theorem length_pos (h : Shortest bytes) : 0 < bytes.length := by
  cases h <;> exact Nat.succ_pos _

/-- No byte string for as large a number is shorter, unless it is empty. -/
theorem length_le (h : Shortest xs) (hpos : 0 < ys.length) (hle : magnitude xs ≤ magnitude ys) :
    xs.length ≤ ys.length := by
  cases h with
  | zero => exact hpos
  | lead hb rest =>
    have hlt : 256 ^ rest.length < 256 ^ ys.length :=
      Nat.lt_of_le_of_lt (Nat.le_trans (pow_le_magnitude hb rest) hle) (magnitude_lt ys)
    exact (Nat.pow_lt_pow_iff_right (by decide)).1 hlt

/-- Shortest byte strings are ordered like their numbers: a shorter one comes first, and of two that
are equally long the one that does byte by byte. -/
theorem magnitude_lt_iff (hx : Shortest xs) (hy : Shortest ys) :
    magnitude xs < magnitude ys ↔
      xs.length < ys.length ∨ xs.length = ys.length ∧ xs < ys := by
  have hxy : magnitude xs ≤ magnitude ys → xs.length ≤ ys.length := hx.length_le hy.length_pos
  have hyx : magnitude ys ≤ magnitude xs → ys.length ≤ xs.length := hy.length_le hx.length_pos
  rcases Nat.lt_trichotomy xs.length ys.length with hlength | hlength | hlength
  · exact iff_of_true (Nat.not_le.1 fun hle => Nat.not_le.2 hlength (hyx hle)) (.inl hlength)
  · rw [magnitude_lt_iff_of_length hlength]
    exact ⟨fun h => .inr ⟨hlength, h⟩, fun h => h.elim (fun hlt => absurd hlength hlt.ne) And.right⟩
  · refine iff_of_false (fun hlt => Nat.not_le.2 hlength (hxy hlt.le)) ?_
    rintro (hlt | ⟨heq, -⟩)
    · exact Nat.lt_asymm hlength hlt
    · exact hlength.ne heq.symm

end Shortest

/-! ## Addresses -/

variable (a : UInt32)

theorem magnitude_dropWhile (bytes : List UInt8) :
    magnitude (bytes.dropWhile (· == 0)) = magnitude bytes := by
  induction bytes with
  | nil => rfl
  | cons b bytes ih =>
    rw [List.dropWhile_cons]
    by_cases hb : b = 0
    · rw [if_pos (beq_iff_eq.2 hb), ih, hb, magnitude_zero_cons]
    · rw [if_neg (mt beq_iff_eq.1 hb)]

theorem magnitude_bigEndian : magnitude (Word.bigEndian a) = a.toNat := by
  have hlt := a.toNat_lt
  rw [magnitude, Word.bigEndian, List.reverse_reverse]
  simp only [Word.littleEndian, List.map_cons, List.map_nil, Nat.ofDigits_cons, Nat.ofDigits_nil,
    UInt8.toNat_ofNat']
  omega

/-- The address of a register is what its bytes hold behind the zeros in front, or one zero if that is
nothing. -/
theorem registerAddress_cases :
    (∃ b rest, b ≠ 0 ∧ registerAddress a = b :: rest ∧
      (Word.bigEndian a).dropWhile (· == 0) = b :: rest) ∨
    registerAddress a = [0] ∧ (Word.bigEndian a).dropWhile (· == 0) = [] := by
  unfold registerAddress
  split
  · next hnil => exact .inr ⟨rfl, hnil⟩
  · next bytes hne =>
    cases hbytes : (Word.bigEndian a).dropWhile (· == 0) with
    | nil => exact absurd hbytes hne
    | cons b rest =>
      have hhead := List.head?_dropWhile_not (· == 0) (Word.bigEndian a)
      rw [hbytes] at hhead
      exact .inl ⟨b, rest, by simpa using hhead, rfl, rfl⟩

theorem shortest_registerAddress : Shortest (registerAddress a) := by
  obtain ⟨b, rest, hb, haddress, -⟩ | ⟨haddress, -⟩ := registerAddress_cases a
  · exact haddress ▸ .lead hb rest
  · exact haddress ▸ .zero

theorem magnitude_registerAddress : magnitude (registerAddress a) = a.toNat := by
  rw [← magnitude_bigEndian, ← magnitude_dropWhile (Word.bigEndian a)]
  obtain ⟨b, rest, -, haddress, hbytes⟩ | ⟨haddress, hbytes⟩ := registerAddress_cases a
  · rw [haddress, hbytes]
  · rw [haddress, hbytes]
    rfl

theorem length_registerAddress_le : (registerAddress a).length ≤ 4 := by
  have hbytes : 0 < (Word.bigEndian a).length := Nat.succ_pos 3
  refine (shortest_registerAddress a).length_le hbytes ?_
  rw [magnitude_registerAddress, magnitude_bigEndian]

/-- A word whose number takes so many bytes has leading zeros in place of the others. -/
theorem clz_div_eight {n : Nat} (hlow : 256 ^ n ≤ a.toNat) (hhigh : a.toNat < 256 ^ (n + 1)) :
    a.toBitVec.clz.toNat / 8 = 3 - n := by
  have hne : a.toBitVec ≠ 0 := by
    intro hzero
    have hzero : a.toNat = 0 := congrArg BitVec.toNat hzero
    have hpos : 0 < 256 ^ n := Nat.pow_pos (by decide)
    omega
  -- Both the bytes and the leading zeros bound the number by powers of two.
  have hbytes : 2 ^ (8 * n) < 2 ^ (32 - a.toBitVec.clz.toNat) := by
    rw [Nat.pow_mul]
    exact Nat.lt_of_le_of_lt hlow BitVec.toNat_lt_two_pow_sub_clz
  have hzeros : 2 ^ (31 - a.toBitVec.clz.toNat) < 2 ^ (8 * (n + 1)) := by
    rw [Nat.pow_mul]
    exact Nat.lt_of_le_of_lt (BitVec.two_pow_sub_clz_le_toNat_of_ne_zero (by decide) hne) hhigh
  rw [Nat.pow_lt_pow_iff_right (by decide)] at hbytes hzeros
  omega

/-- The bytes that are left out are those that hold leading zeros only, but not the last byte. -/
theorem registerAddress_eq_drop :
    registerAddress a = (Word.bigEndian a).drop (min (a.toBitVec.clz.toNat / 8) 3) := by
  obtain ⟨b, rest, hb, haddress, hbytes⟩ | ⟨haddress, -⟩ := registerAddress_cases a
  · have hvalue : magnitude (b :: rest) = a.toNat := by
      rw [← haddress, magnitude_registerAddress]
    have hskip : a.toBitVec.clz.toNat / 8 = 3 - rest.length :=
      clz_div_eight a (hvalue ▸ pow_le_magnitude hb rest) (hvalue ▸ magnitude_lt (b :: rest))
    have hsuffix : b :: rest <:+ Word.bigEndian a := hbytes ▸ List.dropWhile_suffix _
    rw [hskip, Nat.min_eq_left (Nat.sub_le 3 _), haddress]
    exact (List.suffix_iff_eq_drop.1 hsuffix).trans
      (congrArg (List.drop · _) (Nat.add_sub_add_right 3 1 rest.length))
  · have hzero : a.toNat = 0 := by
      rw [← magnitude_registerAddress, haddress]
      rfl
    obtain rfl : a = 0 := UInt32.toNat_inj.1 hzero
    decide

namespace Badge

open Call

theorem checked_registerAddress :
    require ((registerAddress a).length ≤ maxRegister) .longRegister = .ok () :=
  if_pos (decide_eq_true (length_registerAddress_le a))

/-- A check refuses with nothing but its own reason. -/
theorem Call.require_bind_ne_error {condition : Bool} {why why' : Refusal} (hwhy : why ≠ why')
    (data : List UInt8) : (require condition why >>= fun _ => pure data) ≠ .error why' := by
  cases condition with
  | true => exact nofun
  | false => exact fun h => hwhy (Except.error.inj h)

/-- The address of a register is its word without the bytes of leading zeros, but always with the last
byte. It has one to four bytes and stands for the register; no byte string that does so is shorter,
unless it is empty. It does not begin with a zero, unless it is the one byte of zero, and no call
refuses it. Different registers have different addresses, and these are ordered like the registers:
shorter ones first, and equally long ones byte by byte. -/
theorem address_of_register :
    (∀ a : UInt32,
      registerAddress a = (Word.bigEndian a).drop (min (a.toBitVec.clz.toNat / 8) 3) ∧
      1 ≤ (registerAddress a).length ∧ (registerAddress a).length ≤ 4 ∧
      magnitude (registerAddress a) = a.toNat ∧
      (∀ bytes, bytes ≠ [] → magnitude bytes = a.toNat →
        (registerAddress a).length ≤ bytes.length) ∧
      ((registerAddress a).head? = some 0 → registerAddress a = [0]) ∧
      require ((registerAddress a).length ≤ maxRegister) .longRegister = .ok () ∧
      (∀ device length,
        (i2cRead device (registerAddress a) length).arguments ≠ .error .longRegister) ∧
      ∀ device data,
        (i2cWrite device (registerAddress a) data).arguments ≠ .error .longRegister) ∧
    Function.Injective registerAddress ∧
    ∀ a b : UInt32, a < b ↔
      (registerAddress a).length < (registerAddress b).length ∨
      (registerAddress a).length = (registerAddress b).length ∧
        registerAddress a < registerAddress b := by
  refine ⟨fun a => ?_, ?_, ?_⟩
  · have hshortest := shortest_registerAddress a
    have hchecked := checked_registerAddress a
    refine ⟨registerAddress_eq_drop a, hshortest.length_pos, length_registerAddress_le a,
      magnitude_registerAddress a, ?_, hshortest.eq_of_head, hchecked, ?_, ?_⟩
    · intro bytes hne hvalue
      refine hshortest.length_le (List.length_pos_iff.2 hne) ?_
      rw [magnitude_registerAddress, hvalue]
    · intro device length
      change (require _ .longRegister >>= fun _ => require _ .longI2cRead >>= fun _ => pure _) ≠ _
      rw [hchecked]
      exact require_bind_ne_error (by decide) _
    · intro device data
      change (require _ .longRegister >>= fun _ => require _ .longI2cWrite >>= fun _ => pure _) ≠ _
      rw [hchecked]
      exact require_bind_ne_error (by decide) _
  · intro a b h
    apply UInt32.toNat_inj.1
    rw [← magnitude_registerAddress, ← magnitude_registerAddress, h]
  · intro a b
    rw [UInt32.lt_iff_toNat_lt, ← magnitude_registerAddress, ← magnitude_registerAddress]
    exact (shortest_registerAddress a).magnitude_lt_iff (shortest_registerAddress b)

/-- The last register with an address of one byte and the first with an address of two, which begins
with a smaller byte. -/
theorem address_of_256 :
    registerAddress 0xff = [0xff] ∧ registerAddress 0x100 = [1, 0] ∧ (0xff : UInt32) < 0x100 ∧
    magnitude [0, 1, 0] = 0x100 ∧ (registerAddress 0x100).length ≤ 3 := by
  obtain ⟨hlaw, -, horder⟩ := address_of_register
  obtain ⟨-, -, -, -, hleast, -⟩ := hlaw 0x100
  have hvalue : magnitude [0, 1, 0] = 0x100 := rfl
  refine ⟨rfl, rfl, (horder 0xff 0x100).2 (.inl (by decide)), hvalue, ?_⟩
  exact hleast [0, 1, 0] (by decide) hvalue

end Badge

end BadgeLink
