import BadgeLink.Frame.Basic

/-!
# The grammar of frames

A frame is a byte that counts the payload, the payload, which is not empty, and the parity of the
payload. Encoding gives the frame of a payload, and decoding accepts the frames and nothing else.

* `Frames` is the grammar. `Misframes` says with which error each other byte string is refused.
* `decode_eq_ok_iff` and `decode_eq_error_iff` give the outcome of decoding, for every byte string.
-/

namespace BadgeLink

namespace Frame

/-! ## Parity -/

/-- The exclusive or of bytes: each bit is the parity of this bit of all of them. -/
def parity : List UInt8 → UInt8
  | [] => 0
  | b :: rest => b ^^^ parity rest

theorem foldl_xor (data : List UInt8) (a : UInt8) : data.foldl (· ^^^ ·) a = a ^^^ parity data := by
  induction data generalizing a with
  | nil => exact UInt8.xor_zero.symm
  | cons b rest ih => rw [List.foldl_cons, ih, parity, UInt8.xor_assoc]

theorem checksum_eq_parity (data : List UInt8) : checksum data = parity data := by
  rw [checksum, foldl_xor, UInt8.zero_xor]

/-! ## The grammar -/

/-- A byte string is the frame of a payload. -/
def Frames (payload frame : List UInt8) : Prop :=
  ∃ count : UInt8, count.toNat = payload.length ∧ payload ≠ [] ∧
    frame = count :: (payload ++ [parity payload])

/-- A frame has one payload. -/
theorem Frames.unique {payload payload' frame : List UInt8} (h : Frames payload frame)
    (h' : Frames payload' frame) : payload = payload' := by
  obtain ⟨_, -, -, rfl⟩ := h
  obtain ⟨_, -, -, heq⟩ := h'
  exact (List.append_inj' (List.cons.inj heq).2 rfl).1

/-- A byte string is refused with an error. -/
inductive Misframes : List UInt8 → LinkError → Prop where
  /-- The string is not as long as its first byte says; a string without one says zero. -/
  | length {frame : List UInt8} (h : frame.length ≠ (frame.headD 0).toNat + 2) :
      Misframes frame (.frameLength (frame.headD 0).toNat (frame.length - 2))
  | noPayload (sum : UInt8) : Misframes [0, sum] (.frameLength 0 0)
  | checksum {count sum : UInt8} {payload : List UInt8} (hcount : count.toNat = payload.length)
      (hsome : payload ≠ []) (hsum : parity payload ≠ sum) :
      Misframes (count :: (payload ++ [sum])) (.checksum (parity payload) sum)

/-! ## Encoding -/

theorem encode_eq_ok_iff {payload frame : List UInt8} :
    encode payload = .ok frame ↔ 0 < payload.length ∧ payload.length ≤ 255 ∧
      frame = UInt8.ofNat payload.length :: (payload ++ [checksum payload]) := by
  unfold encode
  cases payload with
  | nil => simp
  | cons b rest =>
    by_cases hlong : maxPayload < (b :: rest).length
    · have hmax : ¬(b :: rest).length ≤ 255 := Nat.not_le.2 hlong
      simp only [List.isEmpty_cons, if_pos hlong, hmax]
      simp
    · have hmax : (b :: rest).length ≤ 255 := Nat.not_lt.1 hlong
      simp only [List.isEmpty_cons, if_neg hlong, hmax]
      simp [eq_comm]

theorem encode_of_long {payload : List UInt8} (h : maxPayload < payload.length) :
    encode payload = .error .longPayload := by
  cases payload with
  | nil => cases h
  | cons b rest => exact if_pos h

theorem toNat_count {payload : List UInt8} (h : payload.length ≤ 255) :
    (UInt8.ofNat payload.length).toNat = payload.length := by
  rw [UInt8.toNat_ofNat']
  omega

/-- Encoding gives the frame of a payload. -/
theorem encode_eq_ok_iff_frames {payload frame : List UInt8} :
    encode payload = .ok frame ↔ Frames payload frame := by
  rw [encode_eq_ok_iff, checksum_eq_parity]
  constructor
  · rintro ⟨hpos, hmax, rfl⟩
    exact ⟨_, toNat_count hmax, List.ne_nil_of_length_pos hpos, rfl⟩
  · rintro ⟨count, hcount, hsome, rfl⟩
    have hmax := count.toNat_lt
    refine ⟨List.length_pos_iff.2 hsome, by omega, ?_⟩
    rw [← hcount, UInt8.ofNat_toNat]

theorem encode_eq_error_iff {payload : List UInt8} :
    (∃ why, encode payload = .error why) ↔ ¬(1 ≤ payload.length ∧ payload.length ≤ 255) := by
  cases hencode : encode payload with
  | ok frame =>
    obtain ⟨hpos, hmax, -⟩ := encode_eq_ok_iff.1 hencode
    refine ⟨?_, fun h => absurd ⟨hpos, hmax⟩ h⟩
    rintro ⟨_, h⟩
    cases h
  | error why =>
    refine ⟨fun _ ⟨hpos, hmax⟩ => ?_, fun _ => ⟨why, rfl⟩⟩
    have hframe := encode_eq_ok_iff.2 ⟨hpos, hmax, rfl⟩
    rw [hencode] at hframe
    cases hframe

end Frame

/-! ## Decoding -/

theorem Response.parse_concat (payload : List UInt8) (sum : UInt8) :
    parse (payload ++ [sum]) =
      match payload with
      | [] => .error (.frameLength 0 0)
      | kind :: data =>
        if Frame.parity payload = sum then .ok ⟨kind, data⟩
        else .error (.checksum (Frame.parity payload) sum) := by
  unfold parse
  rw [List.dropLast_concat, List.getLast?_concat]
  cases payload with
  | nil => rfl
  | cons kind data => simp only [Frame.checksum_eq_parity]

namespace Frame

/-- The length is checked first, and then the rest. -/
theorem decode_concat (count : UInt8) (payload : List UInt8) (sum : UInt8) :
    decode (count :: (payload ++ [sum])) =
      if payload.length = count.toNat then Response.parse (payload ++ [sum])
      else .error (.frameLength count.toNat payload.length) := by
  simp only [decode, List.length_append, List.length_singleton, Nat.add_right_cancel_iff,
    Nat.add_sub_cancel]

/-- A byte string is empty, or a single byte, or has a first and a last byte. -/
theorem cases_ends (frame : List UInt8) :
    frame = [] ∨ (∃ count, frame = [count]) ∨
      ∃ count payload sum, frame = count :: (payload ++ [sum]) := by
  cases frame with
  | nil => exact .inl rfl
  | cons count body =>
    rcases List.eq_nil_or_concat body with rfl | ⟨payload, sum, rfl⟩
    · exact .inr (.inl ⟨count, rfl⟩)
    · exact .inr (.inr ⟨count, payload, sum, by rw [List.concat_eq_append]⟩)

theorem decode_of_frames {kind : UInt8} {data frame : List UInt8}
    (h : Frames (kind :: data) frame) : decode frame = .ok ⟨kind, data⟩ := by
  obtain ⟨count, hcount, -, rfl⟩ := h
  rw [decode_concat, if_pos hcount.symm, Response.parse_concat]
  exact if_pos rfl

theorem decode_of_misframes {frame : List UInt8} {e : LinkError} (h : Misframes frame e) :
    decode frame = .error e := by
  cases h with
  | length hlength =>
    rcases cases_ends frame with rfl | ⟨count, rfl⟩ | ⟨count, payload, sum, rfl⟩
    · rfl
    · rfl
    · have hcount : payload.length ≠ count.toNat := by
        simpa using hlength
      rw [decode_concat, if_neg hcount]
      simp
  | noPayload sum => rfl
  | @checksum count sum payload hcount hsome hsum =>
    obtain ⟨kind, data, rfl⟩ := List.exists_cons_of_ne_nil hsome
    rw [decode_concat, if_pos hcount.symm, Response.parse_concat]
    exact if_neg hsum

/-- Every byte string is a frame or refused. -/
theorem frames_or_misframes (frame : List UInt8) :
    (∃ kind data, Frames (kind :: data) frame) ∨ ∃ e, Misframes frame e := by
  by_cases hlength : frame.length = (frame.headD 0).toNat + 2
  · rcases cases_ends frame with rfl | ⟨count, rfl⟩ | ⟨count, payload, sum, rfl⟩
    · cases hlength
    · exact absurd hlength (by simp)
    · have hcount : count.toNat = payload.length := by
        simpa using hlength.symm
      cases payload with
      | nil =>
        obtain rfl : count = 0 := UInt8.toNat_inj.1 hcount
        exact .inr ⟨_, .noPayload sum⟩
      | cons kind data =>
        by_cases hsum : parity (kind :: data) = sum
        · exact .inl ⟨kind, data, count, hcount, List.cons_ne_nil _ _, by rw [hsum]⟩
        · exact .inr ⟨_, .checksum hcount (List.cons_ne_nil _ _) hsum⟩
  · exact .inr ⟨_, .length hlength⟩

theorem decode_eq_ok_iff {frame : List UInt8} {r : Response} :
    decode frame = .ok r ↔ Frames (r.kind :: r.data) frame := by
  refine ⟨fun h => ?_, decode_of_frames⟩
  rcases frames_or_misframes frame with ⟨kind, data, hframe⟩ | ⟨e, herror⟩
  · rw [decode_of_frames hframe] at h
    cases h
    exact hframe
  · rw [decode_of_misframes herror] at h
    cases h

theorem decode_eq_error_iff {frame : List UInt8} {e : LinkError} :
    decode frame = .error e ↔ Misframes frame e := by
  refine ⟨fun h => ?_, decode_of_misframes⟩
  rcases frames_or_misframes frame with ⟨kind, data, hframe⟩ | ⟨e', herror⟩
  · rw [decode_of_frames hframe] at h
    cases h
  · rw [decode_of_misframes herror] at h
    cases h
    exact herror

/-- Encoding and decoding are inverse to each other between the payloads of 1 to 255 bytes and the
frames, and every other payload and every other byte string is refused. -/
theorem encode_decode_inverse :
    (∀ payload frame, encode payload = .ok frame ↔ Frames payload frame) ∧
    (∀ payload, (∃ why, encode payload = .error why) ↔
      ¬(1 ≤ payload.length ∧ payload.length ≤ 255)) ∧
    (∀ payload, (∃ frame r, encode payload = .ok frame ∧ decode frame = .ok r ∧
      r.kind :: r.data = payload) ↔ 1 ≤ payload.length ∧ payload.length ≤ 255) ∧
    (∀ frame r, decode frame = .ok r ↔ Frames (r.kind :: r.data) frame) ∧
    (∀ frame r, decode frame = .ok r ↔ encode (r.kind :: r.data) = .ok frame) ∧
    (∀ frame e, decode frame = .error e ↔ Misframes frame e) := by
  refine ⟨fun _ _ => encode_eq_ok_iff_frames, fun _ => encode_eq_error_iff, fun payload => ?_,
    fun _ _ => decode_eq_ok_iff, fun _ _ => decode_eq_ok_iff.trans encode_eq_ok_iff_frames.symm,
    fun _ _ => decode_eq_error_iff⟩
  constructor
  · rintro ⟨frame, r, hencode, -, -⟩
    obtain ⟨hpos, hmax, -⟩ := encode_eq_ok_iff.1 hencode
    exact ⟨hpos, hmax⟩
  · rintro ⟨hpos, hmax⟩
    obtain ⟨kind, data, rfl⟩ := List.exists_cons_of_length_pos hpos
    have hencode := encode_eq_ok_iff.2 ⟨hpos, hmax, rfl⟩
    exact ⟨_, ⟨kind, data⟩, hencode, decode_of_frames (encode_eq_ok_iff_frames.1 hencode), rfl⟩

end Frame

end BadgeLink
