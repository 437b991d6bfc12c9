import BadgeLink.Word

/-!
# Byte order

Words and their four bytes determine each other: what the monitor sends for a word is read back as
that word, and four bytes read as a word are the bytes of that word.
-/

namespace BadgeLink.Word

theorem toNat_ofLittleEndian (a b c d : UInt8) :
    (ofLittleEndian [a, b, c, d]).toNat =
      a.toNat + 256 * b.toNat + 65536 * c.toNat + 16777216 * d.toNat := by
  have ha := a.toNat_lt
  have hb := b.toNat_lt
  have hc := c.toNat_lt
  have hd := d.toNat_lt
  simp only [ofLittleEndian, List.foldr_cons, List.foldr_nil, UInt32.toNat_ofNat']
  omega

@[simp] theorem length_littleEndian (w : UInt32) : (littleEndian w).length = 4 := rfl

/-- Four bytes are those of the word that they make. -/
theorem littleEndian_ofLittleEndian {bytes : List UInt8} (h : bytes.length = 4) :
    littleEndian (ofLittleEndian bytes) = bytes := by
  obtain ⟨a, b, c, d, rfl⟩ : ∃ a b c d, bytes = [a, b, c, d] := by
    match bytes, h with
    | [a, b, c, d], _ => exact ⟨a, b, c, d, rfl⟩
  have ha := a.toNat_lt
  have hb := b.toNat_lt
  have hc := c.toNat_lt
  have hd := d.toNat_lt
  have hbyte : ∀ {n : Nat} {x : UInt8}, n % 256 = x.toNat → UInt8.ofNat n = x := by
    intro n x h
    apply UInt8.toNat_inj.1
    rw [UInt8.toNat_ofNat', h]
  simp only [littleEndian, toNat_ofLittleEndian]
  rw [hbyte (x := a) (by omega), hbyte (x := b) (by omega), hbyte (x := c) (by omega),
    hbyte (x := d) (by omega)]

/-- A word is the one that its bytes make. -/
theorem ofLittleEndian_littleEndian (w : UInt32) : ofLittleEndian (littleEndian w) = w := by
  have hw := w.toNat_lt
  apply UInt32.toNat_inj.1
  rw [littleEndian, toNat_ofLittleEndian]
  simp only [UInt8.toNat_ofNat']
  omega

/-- Zeros behind the bytes do not change the word. -/
theorem ofLittleEndian_append_zeros (bytes : List UInt8) (n : Nat) :
    ofLittleEndian (bytes ++ List.replicate n 0) = ofLittleEndian bytes := by
  have hzeros : (List.replicate n (0 : UInt8)).foldr (fun b n => b.toNat + 256 * n) 0 = 0 := by
    induction n with
    | zero => rfl
    | succ n ih => rw [List.replicate_succ, List.foldr_cons, ih]; rfl
  rw [ofLittleEndian, List.foldr_append, hzeros]
  rfl

/-! ## Checked arithmetic -/

theorem add_eq_ok {a b r : UInt32} (h : add a b = .ok r) :
    r = a + b ∧ a.toNat + b.toNat < 0x100000000 := by
  unfold add at h
  split at h
  · next hlt => exact ⟨(Except.ok.inj h).symm, hlt⟩
  · cases h

theorem mul_eq_ok {a b r : UInt32} (h : mul a b = .ok r) :
    r = a * b ∧ a.toNat * b.toNat < 0x100000000 := by
  unfold mul at h
  split at h
  · next hlt => exact ⟨(Except.ok.inj h).symm, hlt⟩
  · cases h

theorem div_eq_ok {a b r : UInt32} (h : div a b = .ok r) : r = a / b ∧ b ≠ 0 := by
  unfold div at h
  split at h
  · cases h
  · next hne => exact ⟨(Except.ok.inj h).symm, hne⟩

end BadgeLink.Word

namespace BadgeLink.Size

theorem add_eq_ok {a b r : Nat} (h : add a b = .ok r) : r = a + b := by
  unfold add at h
  split at h
  · exact (Except.ok.inj h).symm
  · cases h

end BadgeLink.Size
