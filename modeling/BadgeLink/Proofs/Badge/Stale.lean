import BadgeLink.Proofs.Badge.Reset
import BadgeLink.Proofs.Badge.Session

/-!
# Resets on a wire that is not empty

The first request of a reset takes the first three bytes that wait for the answer of the badge. If
these are no acknowledgement, it discards all that waits, and the second request finds the wire
empty. But if they look like one, the reset is over: the rest of what waited stays, and with it the
acknowledgement that was meant, or a part of it. The next call takes that for its answer.

* `Misleads` says which bytes do this, and `reset_of_stale` that all others do not.
* `call_after_three_ones` is a call after a reset that was misled.
-/

namespace BadgeLink

open Dialogue Bench

namespace Badge

variable {b : Badge} {pace : Pace} {f : Firmware} {stale : List UInt8}

/-- Bytes that are taken for an acknowledgement, or for its beginning. -/
def Misleads (stale : List UInt8) : Prop :=
  stale ≠ [] ∧ ∀ b ∈ stale.take 3, b = 1

instance (stale : List UInt8) : Decidable (Misleads stale) :=
  @instDecidableAnd _ _ _ (List.decidableBAll _ _)

/-- What is left on the wire by a reset that finds these bytes there. -/
def leftover (stale : List UInt8) : List UInt8 :=
  if Misleads stale then (stale ++ resetAcknowledgement).drop 3 else []

theorem take_eq_acknowledgement_iff :
    (stale ++ resetAcknowledgement).take 3 = resetAcknowledgement ↔ ∀ b ∈ stale.take 3, b = 1 := by
  have hack : resetAcknowledgement = [1, 1, 1] := rfl
  rw [hack]
  match stale with
  | [] => simp
  | [x] => simp
  | [x, y] => simp
  | x :: y :: z :: rest => simp

theorem leftover_eq_nil_iff : leftover stale = [] ↔ ¬Misleads stale := by
  unfold leftover
  by_cases hmisleads : Misleads stale
  · have hpos := List.length_pos_iff.2 hmisleads.1
    rw [if_pos hmisleads, List.drop_eq_nil_iff, List.length_append]
    have hthree : resetAcknowledgement.length = 3 := rfl
    simp only [hmisleads, not_true, iff_false]
    omega
  · simp [hmisleads]

theorem leftover_of_acknowledged
    (h : (stale ++ resetAcknowledgement).take 3 = resetAcknowledgement) :
    leftover stale = (stale ++ resetAcknowledgement).drop 3 := by
  by_cases hempty : stale = []
  · subst hempty
    rfl
  · rw [leftover, if_pos ⟨hempty, take_eq_acknowledgement_iff.1 h⟩]

theorem leftover_of_unexpected
    (h : (stale ++ resetAcknowledgement).take 3 ≠ resetAcknowledgement) : leftover stale = [] :=
  leftover_eq_nil_iff.2 fun hmisleads => h (take_eq_acknowledgement_iff.2 hmisleads.2)

theorem runs_reset (hpatience : b.channel.patience = 0x4000000000000000) (hhears : f.deafResets = 0)
    (hidle : f.buffer = []) (hstale : stale.length ≤ Channel.maxDrain) :
    Runs (Wire.port Firmware.responder) pace b.reset (onWire f stale)
      fun _ w => ∃ resets, w = onWire { f with resets } (leftover stale) := by
  have hthree : resetAcknowledgement.length = 3 := rfl
  have hlength : ((stale ++ resetAcknowledgement).take 3).length = 3 := by
    rw [List.length_take, List.length_append]
    omega
  have hfirst : Runs (Wire.port Firmware.responder) pace (b.requestReset 1) (onWire f stale) _ :=
    runs_requestReset_of_reply hpatience (Firmware.receive_zero hhears hidle)
      (List.take_append_drop 3 _).symm hlength
  refine hfirst.bind ?_
  rintro _ _ ⟨rfl, rfl⟩
  by_cases hack : (stale ++ resetAcknowledgement).take 3 = resetAcknowledgement
  · rw [if_pos hack, leftover_of_acknowledged hack, decide_eq_true hack]
    exact runs_ok ⟨_, rfl⟩
  · have hdrained : ((stale ++ resetAcknowledgement).drop 3).drop Channel.maxDrain = [] := by
      rw [List.drop_drop, List.drop_eq_nil_iff, List.length_append]
      omega
    rw [if_neg hack, leftover_of_unexpected hack, decide_eq_false hack, hdrained]
    have hqueue : [] ++ resetAcknowledgement = resetAcknowledgement ++ [] := rfl
    have hsecond : Runs (Wire.port Firmware.responder) pace (b.requestReset 2)
        (onWire { f with resets := f.resets + 1 } []) _ :=
      runs_requestReset_of_reply hpatience (Firmware.receive_zero hhears hidle) hqueue rfl
    refine hsecond.bind ?_
    rintro _ _ ⟨rfl, rfl⟩
    exact runs_ok ⟨_, rfl⟩

/-! ## The call after a reset -/

/-- What a call ends with if the next reply of the badge is the first thing that it reads: the bytes
after the length byte, as many as that byte says, and that is all of them if the reply fits its
frame. -/
def Call.reading (c : Call) (reply : List UInt8) : Except LinkError Reply :=
  Response.parse ((reply ++ [Frame.checksum reply]).take (reply.length % 256 + 1)) >>=
    Response.ok >>= c.decode

theorem length_body {reply : List UInt8} (h : reply.length ≤ 255) :
    (reply ++ [Frame.checksum reply]).length = reply.length % 256 + 1 := by
  rw [List.length_append, List.length_singleton, Nat.mod_eq_of_lt (by omega)]

theorem Call.reading_eq_outcome {c : Call} {reply : List UInt8} (h : reply.length ≤ 255) :
    c.reading reply = c.outcome reply := by
  rw [outcome_eq, reading, List.take_of_length_le (Nat.le_of_eq (length_body h))]

theorem ends_call_of_empty {c : Call} {payload : List UInt8} (hpatience : 0 < b.channel.patience)
    (hidle : f.buffer = []) (h : c.payload = .ok payload) :
    Ends (Wire.port Firmware.responder) pace (b.call c) (onWire f []) (c.reading f.nextReply)
      (onWire (f.record payload) ((f.nextReply ++ [Frame.checksum f.nextReply]).drop
        (f.nextReply.length % 256 + 1))) := by
  have hbody : ((f.nextReply ++ [Frame.checksum f.nextReply]).take
      (f.nextReply.length % 256 + 1)).length = (UInt8.ofNat f.nextReply.length).toNat + 1 := by
    have hle := Nat.mod_le f.nextReply.length 256
    rw [UInt8.toNat_ofNat', List.length_take, List.length_append, List.length_singleton]
    omega
  refine ends_call_of_payload hpatience hbody hidle ?_ h
  rw [List.take_append_drop]
  rfl

/-- A reset on a wire on which up to 4096 bytes wait, to a badge between two frames that hears it,
succeeds. It leaves the wire empty unless the bytes that waited mislead it, and if it does, the next
call reads the reply to that call. -/
theorem reset_of_stale (options : Options) (resetInterval : UInt32) (pace : Pace) {f : Firmware}
    (hhears : f.deafResets = 0) (hidle : f.buffer = []) {stale : List UInt8}
    (hstale : stale.length ≤ 4096) (clock : Nat) (t : Transcript) :
    ∃ resets clock' t',
      (Badge.mk { options } resetInterval).reset.run (device (Wire.port Firmware.responder) pace)
          ⟨{ device := f, queue := stale }, clock, t⟩ =
        (.ok (), ⟨{ device := { f with resets }, queue := leftover stale }, clock', t'⟩) ∧
      (leftover stale = [] ↔ ¬Misleads stale) ∧
      (¬Misleads stale → ∀ c payload, Call.payload c = .ok payload → ∃ rest clock'' t'',
        ((Badge.mk { options } resetInterval).call c).run
            (device (Wire.port Firmware.responder) pace)
            ⟨{ device := { f with resets }, queue := leftover stale }, clock', t'⟩ =
          (.ofExcept (c.reading f.nextReply),
            ⟨{ device := Firmware.record { f with resets } payload, queue := rest },
              clock'', t''⟩) ∧
        (f.nextReply.length ≤ 255 → rest = [] ∧ c.reading f.nextReply = c.outcome f.nextReply)) := by
  obtain ⟨_, _, clock', t', hrun, resets, rfl⟩ :=
    runs_reset (b := ⟨{ options }, resetInterval⟩) rfl hhears hidle hstale clock t
  refine ⟨resets, clock', t', hrun, leftover_eq_nil_iff, ?_⟩
  intro hclean c payload hpayload
  have hcall : Ends (Wire.port Firmware.responder) pace
      ((Badge.mk { options } resetInterval).call c) (onWire { f with resets } []) _ _ :=
    ends_call_of_empty (Channel.patience_pos options) hidle hpayload
  obtain ⟨clock'', t'', hnext⟩ := hcall clock' t'
  rw [leftover_eq_nil_iff.2 hclean]
  refine ⟨_, clock'', t'', hnext, ?_⟩
  intro hreply
  exact ⟨List.drop_of_length_le (Nat.le_of_eq (length_body hreply)), Call.reading_eq_outcome hreply⟩

/-- A late reply to an earlier command is discarded, and the next call succeeds. -/
theorem call_after_late_reply :
    ∃ resets clock' t' bench,
      (Badge.mk { options := Wire.options } 1).reset.run
          (device (Wire.port Firmware.responder) .simulated)
          ⟨{ device := {}, queue := [1, 3, 3] }, 0, {}⟩ =
        (.ok (), ⟨{ device := { resets } }, clock', t'⟩) ∧
      ((Badge.mk { options := Wire.options } 1).call (.ledSet 0 1)).run
          (device (Wire.port Firmware.responder) .simulated)
          ⟨{ device := { resets } }, clock', t'⟩ = (.ok .done, bench) := by
  obtain ⟨resets, clock', t', hrun, -, hnext⟩ :=
    reset_of_stale Wire.options 1 .simulated (f := {}) rfl rfl
      (show [1, 3, 3].length ≤ 4096 by decide) 0 {}
  obtain ⟨_, _, _, hcall, -⟩ := hnext (by decide) (.ledSet 0 1) [5, 0, 0, 1] rfl
  exact ⟨resets, clock', t', _, hrun, hcall⟩

/-- Three stale ones are taken for the acknowledgement; the acknowledgement stays on the wire, and
the next call takes it for the reply of the badge, which was success. -/
theorem call_after_three_ones :
    ∃ bench bench',
      (Badge.mk { options := Wire.options } 1).reset.run
          (device (Wire.port Firmware.responder) .simulated)
          ⟨{ device := {}, queue := [1, 1, 1] }, 0, {}⟩ = (.ok (), bench) ∧
      bench.port.queue = [1, 1, 1] ∧
      Firmware.nextReply bench.port.device = [2] ∧
      ((Badge.mk { options := Wire.options } 1).call (.ledSet 0 1)).run
          (device (Wire.port Firmware.responder) .simulated) bench =
        (.error (.device 1 []), bench') := by
  have hleft : leftover [1, 1, 1] = [1, 1, 1] := by decide
  have hreset : Runs (Wire.port Firmware.responder) .simulated
      (Badge.mk { options := Wire.options } 1).reset (onWire {} [1, 1, 1]) _ :=
    runs_reset rfl rfl rfl (by decide)
  obtain ⟨_, _, clock', t', hrun, resets, rfl⟩ := hreset 0 {}
  rw [hleft] at hrun
  have hcall : Ends (Wire.port Firmware.responder) .simulated
      ((Badge.mk { options := Wire.options } 1).call (.ledSet 0 1)) (onWire { resets } [1, 1, 1])
      (Response.parse [1, 1] >>= Response.ok >>= (Call.ledSet 0 1).decode)
      (onWire (Firmware.record { resets } [5, 0, 0, 1]) [1, 2, 2]) :=
    ends_call_of_payload (Channel.patience_pos Wire.options) rfl rfl rfl rfl
  obtain ⟨clock'', t'', hnext⟩ := hcall clock' t'
  exact ⟨_, _, hrun, rfl, rfl, hnext⟩

end Badge

end BadgeLink
