import BadgeLink.Proofs.Frame.Codec

/-!
# Changes that decoding detects

Of a frame that arrives with some of its bytes changed, as many bytes as it had, decoding looks at
the length byte first. If this is what it was, all that counts is the exclusive or of the changes:
it is what the checksum that is computed and the one that came differ by, so the changes go
unnoticed just if it is zero. That takes two of them.

* `differences` is the changes, and `parity_differences` their exclusive or.
* `exists_two_changes`: changes that cancel each other are at least two.
* `decode_of_changed`: the outcome of decoding, for every byte string as long as a frame.
-/

namespace BadgeLink.Frame

variable {xs ys payload frame received : List UInt8}

/-! ## Parity of changes -/

/-- The bits in which two byte strings differ, byte for byte. -/
def differences (xs ys : List UInt8) : List UInt8 :=
  List.zipWith (· ^^^ ·) xs ys

theorem parity_append (xs ys : List UInt8) : parity (xs ++ ys) = parity xs ^^^ parity ys := by
  induction xs with
  | nil => exact UInt8.zero_xor.symm
  | cons x xs ih => rw [List.cons_append, parity, ih, parity, UInt8.xor_assoc]

theorem parity_singleton (b : UInt8) : parity [b] = b :=
  UInt8.xor_zero

theorem parity_differences (h : xs.length = ys.length) :
    parity (differences xs ys) = parity xs ^^^ parity ys := by
  induction xs generalizing ys with
  | nil =>
    obtain rfl := List.length_eq_zero_iff.1 h.symm
    rfl
  | cons x xs ih =>
    cases ys with
    | nil => cases h
    | cons y ys =>
      have hrest : parity (differences xs ys) = parity xs ^^^ parity ys := ih (Nat.succ.inj h)
      show x ^^^ y ^^^ parity (differences xs ys) = x ^^^ parity xs ^^^ (y ^^^ parity ys)
      rw [hrest]
      ac_rfl

/-- The payload and the checksum of a frame have no parity, so what arrives in their place has that
of the changes. -/
theorem parity_changes {sum : UInt8} (h : received.length = payload.length) :
    parity (differences (payload ++ [parity payload]) (received ++ [sum])) =
      parity received ^^^ sum := by
  have hlength : (payload ++ [parity payload]).length = (received ++ [sum]).length := by
    rw [List.length_append, List.length_append, h]
    rfl
  rw [parity_differences hlength, parity_append, parity_append, parity_singleton, parity_singleton,
    UInt8.xor_self, UInt8.zero_xor]

/-- A change of one byte changes the parity alike. -/
theorem parity_modify {place : Nat} (h : place < xs.length) (change : UInt8) :
    parity (xs.modify place (· ^^^ change)) = parity xs ^^^ change := by
  induction xs generalizing place with
  | nil => cases h
  | cons x xs ih =>
    cases place with
    | zero =>
      show x ^^^ change ^^^ parity xs = x ^^^ parity xs ^^^ change
      ac_rfl
    | succ place =>
      show x ^^^ parity (xs.modify place (· ^^^ change)) = x ^^^ parity xs ^^^ change
      rw [ih (Nat.lt_of_succ_lt_succ h), UInt8.xor_assoc]

theorem exists_change (h : xs ≠ ys) : ∃ i : Nat, xs[i]? ≠ ys[i]? :=
  Classical.not_forall.1 fun hall => h (List.ext_getElem? hall)

/-- Byte strings of one length and one parity that differ do so in two places. -/
theorem exists_two_changes (hlength : xs.length = ys.length) (hparity : parity xs = parity ys)
    (hne : xs ≠ ys) : ∃ i j : Nat, i < j ∧ xs[i]? ≠ ys[i]? ∧ xs[j]? ≠ ys[j]? := by
  induction xs generalizing ys with
  | nil => exact absurd (List.length_eq_zero_iff.1 hlength.symm).symm hne
  | cons x xs ih =>
    cases ys with
    | nil => cases hlength
    | cons y ys =>
      by_cases hxy : x = y
      · subst hxy
        have hrest : xs ≠ ys := fun h => hne (congrArg (x :: ·) h)
        have hparity : parity xs = parity ys := (UInt8.xor_right_inj x).1 hparity
        obtain ⟨i, j, hij, hi, hj⟩ := ih (Nat.succ.inj hlength) hparity hrest
        exact ⟨i + 1, j + 1, Nat.succ_lt_succ hij, hi, hj⟩
      · -- The first bytes have changed the parity, so something in the rest has changed it back.
        have hrest : xs ≠ ys := by
          rintro rfl
          exact hxy ((UInt8.xor_left_inj (parity xs)).1 hparity)
        obtain ⟨j, hj⟩ := exists_change hrest
        have hfirst : (x :: xs)[0]? ≠ (y :: ys)[0]? := fun h => hxy (Option.some.inj h)
        exact ⟨0, j + 1, Nat.succ_pos j, hfirst, hj⟩

/-- A change of one byte makes no two places differ. -/
theorem not_two_changes_set (frame : List UInt8) (i : Nat) (b : UInt8) :
    ¬∃ j k : Nat, j < k ∧ (frame.set i b)[j]? ≠ frame[j]? ∧ (frame.set i b)[k]? ≠ frame[k]? := by
  rintro ⟨j, k, hjk, hj, hk⟩
  have hplace : ∀ l, (frame.set i b)[l]? ≠ frame[l]? → i = l := by
    intro l hl
    exact Decidable.of_not_not fun hil => hl (List.getElem?_set_ne hil)
  exact Nat.ne_of_lt hjk ((hplace j hj).symm.trans (hplace k hk))

/-! ## Decoding -/

/-- What is as long as a frame has the parts of a frame. -/
theorem Frames.exists_parts (hframe : Frames payload frame)
    (hlength : received.length = frame.length) :
    ∃ count count' body sum, count.toNat = payload.length ∧
      frame = count :: (payload ++ [parity payload]) ∧ received = count' :: (body ++ [sum]) ∧
      body.length = payload.length := by
  obtain ⟨count, hcount, hsome, rfl⟩ := hframe
  have hpos := List.length_pos_iff.2 hsome
  rw [List.length_cons, List.length_append, List.length_singleton] at hlength
  rcases cases_ends received with rfl | ⟨count', rfl⟩ | ⟨count', body, sum, rfl⟩
  · cases hlength
  · rw [List.length_singleton] at hlength
    omega
  · rw [List.length_cons, List.length_append, List.length_singleton] at hlength
    exact ⟨count, count', body, sum, hcount, rfl, rfl, by omega⟩

/-- The length byte decides first, and then the checksum does. -/
theorem decode_body {count : UInt8} {body : List UInt8} (hcount : count.toNat = payload.length)
    (hsome : payload ≠ []) (hbody : body.length = payload.length) (count' sum : UInt8) :
    decode (count' :: (body ++ [sum])) =
      if count' = count then
        if parity body = sum then .ok ⟨body.headD 0, body.tail⟩
        else .error (.checksum (parity body) sum)
      else .error (.frameLength count'.toNat payload.length) := by
  have hdeclared : payload.length = count'.toNat ↔ count' = count := by
    rw [← hcount, UInt8.toNat_inj, eq_comm]
  have hpos : 0 < body.length := hbody ▸ List.length_pos_iff.2 hsome
  obtain ⟨kind, data, rfl⟩ := List.exists_cons_of_length_pos hpos
  simp only [decode_concat, hbody, hdeclared, Response.parse_concat]
  rfl

/-- Of a byte string as long as a frame, decoding first compares the length byte with that of the
frame and then looks at the exclusive or of all changes behind it. It accepts the string just if the
one is the same and the other is zero, for which two bytes must have changed. A change of one byte
is always refused. -/
theorem decode_of_changed (hencode : encode payload = .ok frame)
    (hlength : received.length = frame.length) (hne : received ≠ frame) :
    let change := parity (differences frame.tail received.tail)
    ((∃ r, decode received = .ok r) ↔ received.head? = frame.head? ∧ change = 0) ∧
    ((∃ r, decode received = .ok r) →
      ∃ i j : Nat, i < j ∧ received[i]? ≠ frame[i]? ∧ received[j]? ≠ frame[j]?) ∧
    (received.head? ≠ frame.head? →
      decode received = .error (.frameLength (received.headD 0).toNat payload.length)) ∧
    (received.head? = frame.head? → change ≠ 0 → ∃ computed sum,
      decode received = .error (.checksum computed sum) ∧ computed ^^^ sum = change) ∧
    ∀ i b, received = frame.set i b → ∃ e, decode received = .error e := by
  have hframe := encode_eq_ok_iff_frames.1 hencode
  have hsome : payload ≠ [] := by
    obtain ⟨_, -, hsome, -⟩ := hframe
    exact hsome
  obtain ⟨count, count', body, sum, hcount, rfl, rfl, hbody⟩ := hframe.exists_parts hlength
  have hdecode := decode_body hcount hsome hbody count' sum
  have hrefused : ∀ e : LinkError, ¬∃ r, (.error e : Except LinkError Response) = .ok r := by
    rintro e ⟨r, h⟩
    cases h
  dsimp only [List.tail_cons, List.head?_cons, List.headD_cons]
  rw [parity_changes hbody]
  by_cases hhead : count' = count
  · rw [if_pos hhead] at hdecode
    subst hhead
    by_cases hsum : parity body = sum
    · rw [if_pos hsum] at hdecode
      have hzero : parity body ^^^ sum = 0 := UInt8.xor_eq_zero_iff.2 hsum
      have hparity : parity (count' :: (body ++ [sum])) =
          parity (count' :: (payload ++ [parity payload])) := by
        rw [parity, parity, parity_append, parity_append, parity_singleton, parity_singleton, hzero,
          UInt8.xor_self]
      have htwo := exists_two_changes hlength hparity hne
      refine ⟨⟨fun _ => ⟨rfl, hzero⟩, fun _ => ⟨_, hdecode⟩⟩, fun _ => htwo, fun h => absurd rfl h,
        fun _ h => absurd hzero h, ?_⟩
      intro i b hset
      rw [hset] at htwo
      exact absurd htwo (not_two_changes_set _ i b)
    · rw [if_neg hsum] at hdecode
      rw [hdecode]
      have hnonzero : parity body ^^^ sum ≠ 0 := fun h => hsum (UInt8.xor_eq_zero_iff.1 h)
      exact ⟨⟨fun h => absurd h (hrefused _), fun h => absurd h.2 hnonzero⟩,
        fun h => absurd h (hrefused _), fun h => absurd rfl h,
        fun _ _ => ⟨_, _, rfl, rfl⟩, fun _ _ _ => ⟨_, rfl⟩⟩
  · rw [if_neg hhead] at hdecode
    rw [hdecode]
    have hother : some count' ≠ some count := fun h => hhead (Option.some.inj h)
    exact ⟨⟨fun h => absurd h (hrefused _), fun h => absurd h.1 hother⟩,
      fun h => absurd h (hrefused _), fun _ => rfl, fun h => absurd h hother, fun _ _ _ => ⟨_, rfl⟩⟩

/-- Two changes that cancel each other go unnoticed. The first of them alone does not. -/
theorem decode_of_cancelling_changes :
    encode [2, 0xab] = .ok [2, 2, 0xab, 0xa9] ∧
    (∃ r, decode [2, 2, 0xaa, 0xa8] = .ok r) ∧
    ∃ computed sum, decode [2, 2, 0xaa, 0xa9] = .error (.checksum computed sum) ∧
      computed ^^^ sum = 1 := by
  have hencode : encode [2, 0xab] = .ok [2, 2, 0xab, 0xa9] := rfl
  have htwo := decode_of_changed hencode (show [2, 2, 0xaa, 0xa8].length = 4 from rfl) (by decide)
  have hone := decode_of_changed hencode (show [2, 2, 0xaa, 0xa9].length = 4 from rfl) (by decide)
  exact ⟨hencode, htwo.1.2 ⟨rfl, rfl⟩, hone.2.2.2.1 rfl (by decide)⟩

end BadgeLink.Frame
