import BadgeLink.Flash.Command

/-!
# The words of flash commands

The word of a command as a number: the key, the lower half of the argument and the code stand in it
side by side, so that each of them can be read off.
-/

namespace BadgeLink.Flash.Command

/-- The number that issues a command: the key in the top byte, the argument cut to 16 bits in the
two middle bytes and the code in the lowest. -/
def number (c : Command) (arg : UInt32) : Nat :=
  0x5a000000 + arg.toNat % 0x10000 * 0x100 + c.code.toNat

theorem toNat_word (c : Command) (arg : UInt32) : (c.word arg).toNat = c.number arg := by
  have hcode : c.code.toNat < 2 ^ 8 := c.code.toNat_lt
  have harg : arg.toNat % 2 ^ 16 < 2 ^ 16 := Nat.mod_lt _ (by decide)
  have hmask : arg.toNat &&& 65535 = arg.toNat % 2 ^ 16 := Nat.and_two_pow_sub_one_eq_mod _ 16
  have hshift : (arg &&& 0xffff) <<< (8 : UInt32) = UInt32.ofNat (arg.toNat % 2 ^ 16 * 2 ^ 8) := by
    apply UInt32.toNat_inj.1
    rw [UInt32.toNat_shiftLeft, UInt32.toNat_and, UInt32.toNat_ofNat', Nat.shiftLeft_eq]
    exact congrArg (· * 2 ^ 8 % 2 ^ 32) hmask
  have hmiddle : (UInt32.ofNat (arg.toNat % 2 ^ 16 * 2 ^ 8)).toNat =
      (arg.toNat % 2 ^ 16) <<< 8 := by
    rw [UInt32.toNat_ofNat', Nat.shiftLeft_eq, Nat.mod_eq_of_lt (by omega)]
  have hkey : key.toNat = 0x5a <<< 24 := rfl
  rw [word, wordOf, number, hshift, UInt32.toNat_or, UInt32.toNat_or, hmiddle, hkey,
    UInt8.toNat_toUInt32]
  rw [← Nat.shiftLeft_add_eq_or_of_lt (b := (arg.toNat % 2 ^ 16) <<< 8) (i := 24)
    (by rw [Nat.shiftLeft_eq]; omega)]
  have hhigh : 0x5a <<< 24 + (arg.toNat % 2 ^ 16) <<< 8 =
      (0x5a * 2 ^ 16 + arg.toNat % 2 ^ 16) <<< 8 := by
    simp only [Nat.shiftLeft_eq]
    omega
  rw [hhigh, ← Nat.shiftLeft_add_eq_or_of_lt hcode, Nat.shiftLeft_eq]
  omega

theorem word_eq (c : Command) (arg : UInt32) : c.word arg = UInt32.ofNat (c.number arg) := by
  rw [← toNat_word, UInt32.ofNat_toNat]

/-- The argument that the word of a command carries. -/
def argument (word : UInt32) : Nat :=
  word.toNat / 0x100 % 0x10000

theorem argument_word (c : Command) (arg : UInt32) :
    argument (c.word arg) = arg.toNat % 0x10000 := by
  have hcode : c.code.toNat < 256 := c.code.toNat_lt
  rw [argument, toNat_word, number]
  omega

/-- Two words of a command are the same if the lower halves of their arguments are. -/
theorem word_eq_iff {c : Command} {arg arg' : UInt32} :
    c.word arg = c.word arg' ↔ arg.toNat % 0x10000 = arg'.toNat % 0x10000 := by
  constructor
  · intro h
    rw [← argument_word c, ← argument_word c, h]
  · intro h
    apply UInt32.toNat_inj.1
    rw [toNat_word, toNat_word, number, number, h]

end BadgeLink.Flash.Command

namespace BadgeLink.Flash.Status

/-- A status passes the check if it has none of the bits that report an error. -/
theorem check_eq_ok {status : UInt32} :
    check status = .ok () ↔ ∀ bit ∈ [locked, failed, invalid], has status bit = false := by
  rw [List.forall_mem_cons, List.forall_mem_cons, List.forall_mem_singleton]
  unfold check
  cases has status locked <;> cases has status failed <;> cases has status invalid <;> simp

end BadgeLink.Flash.Status
