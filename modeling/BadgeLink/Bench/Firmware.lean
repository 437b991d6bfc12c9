import BadgeLink.Bench.Wire
import BadgeLink.Frame.Basic

/-!
# Simulated badges

The command interpreter of a badge, seen from its serial line. Bytes are collected until they make
a frame. A zero byte at the start of a frame is a request to reset. A frame with the right checksum
is recorded as a command and answered from a list of prepared replies.
-/

namespace BadgeLink

/-- The state of a simulated badge. -/
structure Firmware where
  /-- The payloads of the commands received, latest first. -/
  commands : List (List UInt8) := []
  /-- The payloads of the replies to come; success, when there are none. -/
  replies : List (List UInt8) := []
  /-- How many of the next reset requests get no answer. -/
  deafResets : Nat := 0
  resets : Nat := 0
  buffer : List UInt8 := []
deriving DecidableEq, Repr

namespace Firmware

/-- A payload as the badge sends it: a payload that does not fit a frame is sent with the length
that is left of its own in one byte. -/
def frame (payload : List UInt8) : List UInt8 :=
  UInt8.ofNat payload.length :: payload ++ [Frame.checksum payload]

/-- A request to reset: it empties the buffer and is acknowledged, unless the badge is deaf. -/
def reset (f : Firmware) : List UInt8 × Firmware :=
  let f := { f with buffer := [], resets := f.resets + 1 }
  match f.deafResets with
  | n + 1 => ([], { f with deafResets := n })
  | 0 => (frame [ResponseKind.reset.code], f)

/-- A frame that is complete: a length byte, the payload and the checksum. -/
def execute (f : Firmware) (payload : List UInt8) (checksum : UInt8) : List UInt8 × Firmware :=
  let f := { f with buffer := [] }
  if Frame.checksum payload ≠ checksum then
    (frame [ResponseKind.badChecksum.code], f)
  else
    let f := { f with commands := payload :: f.commands }
    match f.replies with
    | reply :: replies => (frame reply, { f with replies })
    | [] => (frame [ResponseKind.ok.code], f)

def receive (b : UInt8) (f : Firmware) : List UInt8 × Firmware :=
  match f.buffer ++ [b] with
  | [0] => f.reset
  | [] => ([], f)
  | length :: body =>
    if body.length < length.toNat + 1 then ([], { f with buffer := length :: body })
    else f.execute (body.take length.toNat) (body.getD length.toNat 0)

def responder : Responder Firmware := fun b f =>
  let (reply, f) := f.receive b
  (.ok reply, f)

end Firmware

end BadgeLink
