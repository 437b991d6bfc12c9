import BadgeLink.Proofs.Badge.Response
import BadgeLink.Proofs.Frame.Detection

/-!
# Responses with a flipped bit

The checksum of a frame covers the payload and itself but not the length byte, and a client that
reads from a stream takes the end of the frame from that byte. So a flipped bit behind the length
byte is always detected, and one in it is if it makes the frame longer, or empty. If it makes the
frame shorter, the client takes a byte of the payload for the checksum, and it may be the right one.

* `ReadsFlipped` says what becomes of the frame of a payload.
* `first_flip`: this is what is read of it.
* `command_of_flipped`: so a command ends accordingly. `command_of_recut_response` is a command that
  succeeds.
-/

namespace BadgeLink

open Dialogue Bench

namespace Frame

/-- The byte with this bit alone. -/
def mask (bit : Fin 8) : UInt8 :=
  1 <<< UInt8.ofNat bit.val

/-- A byte string in which a bit of the byte at a place is flipped. -/
def flip (frame : List UInt8) (place : Nat) (bit : Fin 8) : List UInt8 :=
  frame.modify place (· ^^^ mask bit)

/-- What is read of the frame of a payload in which a bit of the byte at a place was flipped, when
its length byte now declares so many bytes. -/
inductive ReadsFlipped (timeout : UInt32) (payload : List UInt8) (bit : Fin 8) (declared : Nat) :
    (place : Nat) → Except LinkError Response → Prop where
  /-- The flipped bit is not in the length byte. -/
  | body {place : Nat} {computed sum : UInt8} (h : computed ^^^ sum = mask bit) :
      ReadsFlipped timeout payload bit declared (place + 1) (.error (.checksum computed sum))
  /-- Bytes are missing. -/
  | long (h : payload.length < declared) :
      ReadsFlipped timeout payload bit declared 0
        (.error (.timeout timeout (declared + 1) (payload.length + 1)))
  | empty (h : declared = 0) :
      ReadsFlipped timeout payload bit declared 0 (.error (.frameLength 0 0))
  /-- The payload is cut, and the byte at the cut is not the checksum of what is before it. -/
  | cut {before : List UInt8} {sum : UInt8} {behind : List UInt8} (hsome : before ≠ [])
      (hbefore : before.length = declared) (hpayload : payload = before ++ sum :: behind)
      (hsum : parity before ≠ sum) :
      ReadsFlipped timeout payload bit declared 0 (.error (.checksum (parity before) sum))
  /-- The payload is cut, and the byte at the cut is the checksum of what is before it. -/
  | recut {kind : UInt8} {data behind : List UInt8} (hbefore : (kind :: data).length = declared)
      (hpayload : payload = kind :: data ++ parity (kind :: data) :: behind) :
      ReadsFlipped timeout payload bit declared 0 (.ok ⟨kind, data⟩)

variable {timeout : UInt32} {payload frame : List UInt8} {place : Nat} {bit : Fin 8}

theorem mask_ne_zero (bit : Fin 8) : mask bit ≠ 0 := by
  revert bit
  decide

/-- A byte string that is as long as its first byte says is read whole. -/
theorem first_of_length {count : UInt8} {body : List UInt8} (h : body.length = count.toNat + 1) :
    first timeout (count :: body) = (decode (count :: body), []) := by
  have hwhole : first timeout (count :: (body ++ [])) = (Response.parse body, []) :=
    first_of_whole timeout h
  rw [List.append_nil] at hwhole
  rw [hwhole, decode, if_pos h]

theorem first_flip_body (hframe : Frames payload frame) (hplace : place + 1 < frame.length) :
    ∃ computed sum, computed ^^^ sum = mask bit ∧
      first timeout (flip frame (place + 1) bit) = (.error (.checksum computed sum), []) := by
  have hsome : payload ≠ [] := by
    obtain ⟨_, -, hsome, -⟩ := hframe
    exact hsome
  obtain ⟨count, count', body, sum, hcount, hparts, hflip, hbody⟩ :=
    hframe.exists_parts (List.length_modify (· ^^^ mask bit) frame (place + 1))
  subst hparts
  obtain rfl : count = count' := (List.cons.inj hflip).1
  have hchanged : (payload ++ [parity payload]).modify place (· ^^^ mask bit) = body ++ [sum] :=
    (List.cons.inj hflip).2
  have hlength : (body ++ [sum]).length = count.toNat + 1 := by
    rw [List.length_append, hbody, hcount]
    rfl
  have hparity : parity body ^^^ sum = mask bit := by
    have hchange := parity_modify (Nat.lt_of_succ_lt_succ hplace) (mask bit)
    rw [hchanged, parity_append, parity_append, parity_singleton, parity_singleton, UInt8.xor_self,
      UInt8.zero_xor] at hchange
    exact hchange
  have hne : parity body ≠ sum := by
    intro h
    rw [h, UInt8.xor_self] at hparity
    exact mask_ne_zero bit hparity.symm
  refine ⟨parity body, sum, hparity, ?_⟩
  rw [flip, hflip, first_of_length hlength, decode_body hcount hsome hbody, if_pos rfl, if_neg hne]

theorem exists_split {n : Nat} (h : n < payload.length) :
    ∃ before sum behind, before.length = n ∧ payload = before ++ sum :: behind :=
  ⟨payload.take n, payload[n], payload.drop (n + 1), List.length_take_of_le (Nat.le_of_lt h), by
    rw [List.getElem_cons_drop, List.take_append_drop]⟩

theorem first_flip_head (hframe : Frames payload frame) :
    ∃ x rest, first timeout (flip frame 0 bit) = (x, rest) ∧
      ReadsFlipped timeout payload bit ((flip frame 0 bit).headD 0).toNat 0 x := by
  obtain ⟨count, hcount, hsome, rfl⟩ := hframe
  have hflip : flip (count :: (payload ++ [parity payload])) 0 bit =
      (count ^^^ mask bit) :: (payload ++ [parity payload]) := rfl
  rw [hflip, List.headD_cons]
  generalize hdeclared : count ^^^ mask bit = count'
  have hne : payload.length ≠ count'.toNat := by
    intro h
    have hsame : count = count' := UInt8.toNat_inj.1 (hcount.trans h)
    have hzero : count ^^^ mask bit = count ^^^ 0 := by
      rw [hdeclared, ← hsame, UInt8.xor_zero]
    exact mask_ne_zero bit ((UInt8.xor_right_inj count).1 hzero)
  rcases Nat.lt_or_gt_of_ne hne with hlong | hshort
  · have hmissing : (payload ++ [parity payload]).length < count'.toNat + 1 := by
      rw [List.length_append]
      exact Nat.succ_lt_succ hlong
    rw [first_of_short timeout hmissing, List.length_append]
    exact ⟨_, _, rfl, .long hlong⟩
  · obtain ⟨before, sum, behind, hbefore, rfl⟩ := exists_split hshort
    have hbody : (before ++ [sum]).length = count'.toNat + 1 := by
      rw [List.length_append, hbefore]
      rfl
    have hqueue (last : UInt8) :
        before ++ sum :: behind ++ [last] = before ++ [sum] ++ (behind ++ [last]) := by
      simp
    rw [hqueue, first_of_whole timeout hbody, Response.parse_concat]
    cases before with
    | nil => exact ⟨_, _, rfl, .empty hbefore.symm⟩
    | cons kind data =>
      dsimp only
      by_cases hsum : parity (kind :: data) = sum
      · subst hsum
        rw [if_pos rfl]
        exact ⟨_, _, rfl, .recut hbefore rfl⟩
      · rw [if_neg hsum]
        exact ⟨_, _, rfl, .cut (List.cons_ne_nil kind data) hbefore rfl hsum⟩

theorem first_flip (hframe : Frames payload frame) (hplace : place < frame.length) :
    ∃ x rest, first timeout (flip frame place bit) = (x, rest) ∧
      ReadsFlipped timeout payload bit ((flip frame place bit).headD 0).toNat place x := by
  cases place with
  | zero => exact first_flip_head hframe
  | succ place =>
    obtain ⟨computed, sum, hchange, hfirst⟩ := first_flip_body hframe hplace
    exact ⟨_, _, hfirst, .body hchange⟩

/-- A flipped bit goes undetected just if it is in the length byte and cuts the payload in front of
a byte that is the checksum of what is left of it. -/
theorem ReadsFlipped.exists_ok_iff {declared : Nat} {x : Except LinkError Response}
    (h : ReadsFlipped timeout payload bit declared place x) :
    (∃ r, x = .ok r) ↔ place = 0 ∧ 0 < declared ∧
      payload[declared]? = some (parity (payload.take declared)) := by
  cases h with
  | body hchange => exact ⟨nofun, fun h => absurd h.1 (Nat.succ_ne_zero _)⟩
  | long hlong =>
    refine ⟨nofun, fun h => ?_⟩
    rw [List.getElem?_eq_none (Nat.le_of_lt hlong)] at h
    cases h.2.2
  | empty hempty => exact ⟨nofun, fun h => absurd hempty (Nat.ne_of_gt h.2.1)⟩
  | cut hsome hbefore hpayload hsum =>
    subst hbefore hpayload
    refine ⟨nofun, fun h => absurd ?_ hsum⟩
    rw [List.take_left, List.getElem?_append_right (Nat.le_refl _), Nat.sub_self] at h
    exact (Option.some.inj h.2.2).symm
  | @recut kind data behind hbefore hpayload =>
    subst hbefore hpayload
    rw [List.take_left, List.getElem?_append_right (Nat.le_refl _), Nat.sub_self]
    exact ⟨fun _ => ⟨rfl, Nat.succ_pos _, rfl⟩, fun _ => ⟨_, rfl⟩⟩

end Frame

namespace Badge

open BadgeLink.Frame

variable {ρ α : Type} {port : SimulatedPort ρ} {P : List UInt8 → ρ → Prop}

/-- When a frame that reports success waits on a port with one bit flipped and no more comes, a
command that is sent ends with the error that `ReadsFlipped` gives, be it for the checksum, for the
length or for the time. It succeeds in one case only: the flipped bit is in the length byte, and the
byte that follows as much of the payload as this now declares is the checksum of that much. The
clock has to move if bytes are missing. -/
theorem command_of_flipped (hport : Queued port P) (options : Options) (resetInterval : UInt32)
    (pace : Pace) {data frame : List UInt8} (hencode : Frame.encode (0x02 :: data) = .ok frame)
    {place : Nat} (hplace : place < frame.length) (bit : Fin 8)
    (hmoves : frame.length < ((flip frame place bit).headD 0).toNat + 2 → 0 < pace.tick options) :
    let b : Badge := ⟨{ options }, resetInterval⟩
    let declared := ((flip frame place bit).headD 0).toNat
    ∃ x rest, ReadsFlipped options.responseTimeout (0x02 :: data) bit declared place x ∧
      (∀ (kind : CommandKind) (arguments request : List UInt8)
        (decode : List UInt8 → Except LinkError α) (s : ρ),
        Frame.encode (kind.code :: arguments) = .ok request →
        Runs port pace (b.channel.send request) s (fun _ s₁ => P (flip frame place bit) s₁) →
        Concludes port pace ((b.command kind arguments).bind fun data =>
          Dialogue.ofExcept (decode data)) s (x >>= fun r => decode r.data) (P rest)) ∧
      ((∃ r, x = .ok r) ↔ place = 0 ∧ 0 < declared ∧
        (0x02 :: data)[declared]? = some (parity ((0x02 :: data).take declared))) := by
  intro b declared
  have hflip : ∃ x rest, first options.responseTimeout (flip frame place bit) = (x, rest) ∧
      ReadsFlipped options.responseTimeout (0x02 :: data) bit declared place x :=
    first_flip (encode_eq_ok_iff_frames.1 hencode) hplace
  obtain ⟨x, rest, hfirst, hreads⟩ := hflip
  refine ⟨x, rest, hreads, ?_, hreads.exists_ok_iff⟩
  intro kind arguments request decode s hrequest hsend
  have hlength : (flip frame place bit).length = frame.length := List.length_modify _ _ _
  have hresponse (s₁ : ρ) (h : P (flip frame place bit) s₁) :
      Concludes port pace b.response s₁ x (P rest) := by
    have hconcludes := concludes_response (b := b) hport rfl (hlength ▸ hmoves) h
    rw [hfirst] at hconcludes
    exact hconcludes
  have hok : x >>= Response.ok >>= decode = x >>= fun r => decode r.data := by
    rw [ok_bind_decode]
    cases hreads with
    | body _ | long _ | empty _ | cut _ _ _ _ => rfl
    | recut _ hpayload =>
      obtain rfl := (List.cons.inj hpayload).1
      rfl
  rw [← hok]
  refine (concludes_command hrequest hsend hresponse).bind ?_
  intro data s₁ hs₁
  exact concludes_ofExcept (decode data) hs₁

/-- The last bit of a byte of the data is flipped. -/
theorem command_of_flipped_data :
    Frame.encode [2, 0xab] = .ok [2, 2, 0xab, 0xa9] ∧
    flip [2, 2, 0xab, 0xa9] 2 0 = [2, 2, 0xaa, 0xa9] ∧
    ∃ computed sum bench, computed ^^^ sum = 1 ∧
      (((Badge.mk { options := Wire.options } 1).command .buttons []).bind
          fun data => Dialogue.ofExcept (.ok data)).run
          (device (Wire.port Wire.silent) .simulated)
          ⟨{ device := (), queue := [2, 2, 0xaa, 0xa9] }, 0, {}⟩ =
        (.error (.checksum computed sum), bench) := by
  have hencode : Frame.encode [2, 0xab] = .ok [2, 2, 0xab, 0xa9] := rfl
  have hfeeds : Feeds Wire.silent [1, 7, 7] () [] () :=
    .cons_silent rfl (.cons_silent rfl (.cons_silent rfl (.nil ())))
  have hsend : Runs (Wire.port Wire.silent) .simulated
      (Channel.send { options := Wire.options } [1, 7, 7]) (onWire () [2, 2, 0xaa, 0xa9])
      fun _ w => w = onWire () (flip [2, 2, 0xab, 0xa9] 2 0) :=
    runs_send (Channel.patience_pos _) hfeeds
  obtain ⟨x, rest, hreads, hcommand, -⟩ :=
    command_of_flipped (queued_onWire ()) Wire.options 1 .simulated hencode
      (show 2 < [2, 2, 0xab, 0xa9].length by decide) 0 (by decide)
  obtain ⟨_, clock, t, hrun, -⟩ :=
    hcommand .buttons [] [1, 7, 7] .ok _ rfl hsend 0 {}
  cases hreads with
  | body h => exact ⟨hencode, rfl, _, _, _, h, hrun⟩

/-- A payload of three bytes of which the first two are the same, and the second lowest bit of its
length is flipped: the first byte is left of it, the second one is the checksum of that, and the
command succeeds. The rest of the frame waits for the next response. -/
theorem command_of_recut_response :
    Frame.encode [2, 2, 0] = .ok [3, 2, 2, 0, 0] ∧
    flip [3, 2, 2, 0, 0] 0 1 = [1, 2, 2, 0, 0] ∧
    ∃ bench, ((Badge.mk {} 100).command .buttons []).run (device Script.port (.scripted 0))
        ⟨{ deliveries := [.bytes [1, 2, 2, 0, 0]] }, 0, {}⟩ = (.ok [], bench) ∧
      bench.port.deliveries = [.bytes [0, 0]] :=
  ⟨rfl, rfl, _, rfl, rfl⟩

end Badge

end BadgeLink
