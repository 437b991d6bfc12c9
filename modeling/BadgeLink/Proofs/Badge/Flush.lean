import BadgeLink.Proofs.Badge.Handshake
import BadgeLink.Proofs.Frame.Detection

/-!
# What a reset makes of a partial command

A badge that got a part of a frame takes the zero bytes of a reset for the rest of it: the payload
is filled up with zeros, and the checksum is zero. Zeros do not change a parity, so whether the
badge executes what it has then is decided by the bytes of the payload that it got before the reset.

* `flushed` is the command that a part of a payload becomes, if any.
* `over_of_begun`: what a series of requests does to a badge that has begun to take a frame.
* `commands_of_flushed`: the commands after a reset, for each part of each frame.
-/

namespace BadgeLink

open Dialogue Bench

namespace Badge

/-! ## Zeros behind a payload -/

/-- The commands that a badge executes when zeros follow the bytes that it has of a payload, of
which so many are missing. -/
def flushed (body : List UInt8) (missing : Nat) : List (List UInt8) :=
  if Frame.checksum body = 0 then [body ++ List.replicate missing 0] else []

theorem checksum_concat_zero (body : List UInt8) :
    Frame.checksum (body ++ [0]) = Frame.checksum body := by
  simp only [Frame.checksum_eq_parity, Frame.parity_append, Frame.parity_singleton, UInt8.xor_zero]

theorem flushed_concat_zero (body : List UInt8) (missing : Nat) :
    flushed (body ++ [0]) missing = flushed body (missing + 1) := by
  simp only [flushed, checksum_concat_zero, List.append_assoc, List.singleton_append,
    List.replicate_succ]

variable {b : Badge} {pace : Pace} {f : Firmware}

/-- The zero that stands for the checksum completes the frame. -/
theorem receive_zero_of_whole {length : UInt8} {body : List UInt8}
    (hbuffer : f.buffer = length :: body) (hwhole : body.length = length.toNat) :
    ∃ reply f', f.receive 0 = (reply, f') ∧ f'.buffer = [] ∧
      f'.commands = flushed body 0 ++ f.commands := by
  have hlength : (body ++ [0]).length = body.length + 1 := List.length_append
  rw [Firmware.receive_of_buffer hbuffer, if_neg (by omega), List.take_left' hwhole,
    List.getD_append_right _ _ _ _ (Nat.le_of_eq hwhole), hwhole, Nat.sub_self,
    List.getD_cons_zero, Firmware.execute, flushed, List.replicate_zero, List.append_nil]
  by_cases hsum : Frame.checksum body = 0
  · rw [if_neg (not_not.2 hsum), if_pos hsum]
    cases f.replies <;> exact ⟨_, _, rfl, rfl, rfl⟩
  · rw [if_pos hsum, if_neg hsum]
    exact ⟨_, _, rfl, rfl, rfl⟩

/-! ## Series of requests -/

/-- A series of requests has ended as a reset may end, with an acknowledgement or without one, and
the badge is between two frames and has executed these commands. -/
def Over (commands : List (List UInt8))
    (r : Outcome LinkError Unit × Bench (Wire Firmware)) : Prop :=
  (r.1 = .ok () ∨ r.1 = .error (.resetTimeout resetAttempts)) ∧
    ∃ f queue, r.2.port = onWire f queue ∧ f.buffer = [] ∧ f.commands = commands

section Requests

variable (hpatience : b.channel.patience = 0x4000000000000000)
  (htick : 0 < pace.tick b.channel.options)

include hpatience htick

/-- A request that leaves the badge between two frames, whether it ends the series or not. -/
theorem over_requestResets_succ {left : Nat} (number : Nat) {reply queue : List UInt8}
    {f' : Firmware} (hreceive : f.receive 0 = (reply, f')) (hidle : f'.buffer = [])
    (hrest : ∀ queue' clock t, Over f'.commands ((b.requestResets left (number + 1)).run
      (device (Wire.port Firmware.responder) pace) ⟨onWire f' queue', clock, t⟩)) (clock : Nat)
    (t : Transcript) :
    Over f'.commands ((b.requestResets (left + 1) number).run
      (device (Wire.port Firmware.responder) pace) ⟨onWire f queue, clock, t⟩) := by
  obtain ⟨clock', t', hrequest, -⟩ :=
    transmits_requestReset hpatience htick number hreceive (rfl : queue ++ reply = _) clock t
  rw [run_requestResets_succ hrequest]
  by_cases hack : (queue ++ reply).take 3 = resetAcknowledgement
  · rw [if_pos (decide_eq_true hack)]
    exact ⟨.inl rfl, f', _, rfl, hidle, rfl⟩
  · rw [if_neg (ne_true_of_eq_false (decide_eq_false hack))]
    exact hrest _ clock' t'

/-- A badge between two frames executes nothing, whatever waits on its wire. -/
theorem over_of_idle (left number : Nat) (hidle : f.buffer = []) (queue : List UInt8) (clock : Nat)
    (t : Transcript) :
    Over f.commands ((b.requestResets left number).run
      (device (Wire.port Firmware.responder) pace) ⟨onWire f queue, clock, t⟩) := by
  induction left generalizing f number queue clock t with
  | zero => exact ⟨.inr rfl, f, queue, rfl, hidle, rfl⟩
  | succ left ih =>
    exact over_requestResets_succ hpatience htick number (Firmware.receive_zero_of_idle hidle) hidle
      (ih (f := f.requested 1) (number + 1) hidle) clock t

/-- A badge that has begun to take a frame fills it up with zeros. -/
theorem over_of_begun {left : Nat} (number : Nat) {length : UInt8} {body : List UInt8}
    {missing : Nat} (hbuffer : f.buffer = length :: body) (hmissing : body.length + missing = length.toNat)
    (hleft : missing < left) (clock : Nat) (t : Transcript) :
    Over (flushed body missing ++ f.commands) ((b.requestResets left number).run
      (device (Wire.port Firmware.responder) pace) ⟨onWire f [], clock, t⟩) := by
  -- each request but the last is one more zero of the payload, which `flushed` does not see
  induction missing generalizing f left number body clock t with
  | zero =>
    obtain ⟨left, rfl⟩ := Nat.exists_eq_succ_of_ne_zero (Nat.ne_of_gt hleft)
    obtain ⟨reply, f', hreceive, hidle, hcommands⟩ := receive_zero_of_whole hbuffer hmissing
    rw [← hcommands]
    exact over_requestResets_succ hpatience htick number hreceive hidle
      (over_of_idle hpatience htick left (number + 1) hidle) clock t
  | succ missing ih =>
    obtain ⟨left, rfl⟩ := Nat.exists_eq_succ_of_ne_zero (Nat.ne_of_gt (Nat.zero_lt_of_lt hleft))
    have hbody : (body ++ [0]).length = body.length + 1 := List.length_append
    have hreceive : f.receive 0 = ([], { f with buffer := length :: (body ++ [0]) }) := by
      rw [Firmware.receive_of_buffer hbuffer, if_pos (by omega)]
    obtain ⟨clock', t', hrequest, -⟩ :=
      transmits_requestReset hpatience htick number hreceive (rfl : [] ++ _ = _) clock t
    rw [run_requestResets_succ hrequest, ← flushed_concat_zero]
    exact ih (f := { f with buffer := length :: (body ++ [0]) }) (number + 1) rfl (by omega)
      (Nat.lt_of_succ_lt_succ hleft) clock' t'

end Requests

/-! ## Resets -/

/-- The buffer of a badge that got the first bytes of the frame of a payload. -/
theorem take_frame {payload frame : List UInt8} (hframe : Frame.encode payload = .ok frame)
    {k : Nat} (hk : k + 1 < frame.length) :
    frame.take (k + 1) = UInt8.ofNat payload.length :: payload.take k ∧ k ≤ payload.length := by
  obtain ⟨-, -, rfl⟩ := Frame.encode_eq_ok_iff.1 hframe
  rw [List.length_cons, List.length_append, List.length_singleton] at hk
  have hle : k ≤ payload.length := by omega
  exact ⟨by rw [List.take_succ_cons, List.take_append_of_le_length hle], hle⟩

/-- A reset of a badge that has a part of the frame of a payload in its buffer, with whatever
replies it has prepared and however many requests it is deaf to. If the exclusive or of the bytes
that it has of the payload is not zero, it executes nothing. If it is zero, it executes one command:
these bytes, filled up with zeros to the length of the payload. Either way the reset succeeds or is
given up, and the badge is between two frames then. -/
theorem commands_of_flushed (options : Options) (resetInterval : UInt32) {pace : Pace}
    (htick : 0 < pace.tick options) {payload frame : List UInt8}
    (hframe : Frame.encode payload = .ok frame) {k : Nat} (hpos : 0 < k) (hk : k < frame.length)
    {f : Firmware} (hbuffer : f.buffer = frame.take k) (clock : Nat) (t : Transcript) :
    let got := payload.take (k - 1)
    ∃ o f' queue clock' t',
      (Badge.mk { options } resetInterval).reset.run (device (Wire.port Firmware.responder) pace)
          ⟨{ device := f }, clock, t⟩ =
        (o, ⟨{ device := f', queue := queue }, clock', t'⟩) ∧
      (o = .ok () ∨ o = .error (.resetTimeout 256)) ∧ f'.buffer = [] ∧
      f'.commands =
        if Frame.checksum got = 0 then
          (got ++ List.replicate (payload.length - got.length) 0) :: f.commands
        else f.commands := by
  intro got
  obtain ⟨k, rfl⟩ := Nat.exists_eq_succ_of_ne_zero (Nat.ne_of_gt hpos)
  obtain ⟨htake, hle⟩ := take_frame hframe hk
  obtain ⟨-, hmax, -⟩ := Frame.encode_eq_ok_iff.1 hframe
  have hgot : got.length ≤ payload.length := List.length_take_le' k payload
  have hmissing : got.length + (payload.length - got.length) =
      (UInt8.ofNat payload.length).toNat := by
    rw [Frame.toNat_count hmax]
    omega
  have hleft : payload.length - got.length < resetAttempts := by
    rw [show resetAttempts = 256 from rfl]
    omega
  obtain ⟨hend, f', queue, hport, hidle, hcommands⟩ :=
    over_of_begun (b := ⟨{ options }, resetInterval⟩) rfl htick 1 (hbuffer.trans htake) hmissing
      hleft clock t
  refine ⟨_, f', queue, _, _, Prod.ext rfl (congrArg (Bench.mk · _ _) hport), hend, hidle, ?_⟩
  rw [hcommands]
  exact apply_ite (· ++ f.commands) _ _ _

/-- The first three bytes of a command to clear the display are flushed out. -/
theorem commands_of_flushed_clear :
    Frame.encode [6, 0] = .ok [2, 6, 0, 6] ∧
    ∃ o f' queue clock' t',
      (Badge.mk { options := Wire.options } 1).reset.run
          (device (Wire.port Firmware.responder) .simulated)
          ⟨{ device := { buffer := [2, 6, 0] } }, 0, {}⟩ =
        (o, ⟨{ device := f', queue := queue }, clock', t'⟩) ∧
      (o = .ok () ∨ o = .error (.resetTimeout 256)) ∧ f'.buffer = [] ∧ f'.commands = [] := by
  have hframe : Frame.encode [6, 0] = .ok [2, 6, 0, 6] := rfl
  have htick : 0 < Pace.simulated.tick Wire.options := by decide
  exact ⟨hframe, commands_of_flushed Wire.options 1 htick hframe (k := 3) (by decide) (by decide)
    (f := { buffer := [2, 6, 0] }) rfl 0 {}⟩

/-- Its length byte alone is not: the badge executes a command of two zeros. -/
theorem zeros_executed_after_length :
    Frame.encode [6, 0] = .ok [2, 6, 0, 6] ∧
    ∃ f' clock' t',
      (Badge.mk { options := Wire.options } 1).reset.run
          (device (Wire.port Firmware.responder) .simulated)
          ⟨{ device := { buffer := [2] } }, 0, {}⟩ =
        (.ok (), ⟨{ device := f' }, clock', t'⟩) ∧
      f'.commands = [[0, 0]] :=
  ⟨rfl, _, _, _, rfl, rfl⟩

end Badge

end BadgeLink
