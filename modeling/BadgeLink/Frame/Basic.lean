import BadgeLink.Frame.Code
import BadgeLink.Link.Error

/-!
# Frames of the badge protocol

A frame is a length byte, a payload of 1 to 255 bytes, and the exclusive or of the payload as
checksum. The first byte of the payload is the kind of the command or response, the rest its data.
A lone zero byte, which would be a frame without payload, asks the badge for a reset.

## Main definitions

* `Frame.encode`: the frame of a payload.
* `Frame.decode`: the response in a whole frame.
* `Response.parse`: the response in what follows the length byte.
* `Response.ok`: the data of a response that reports success.
-/

namespace BadgeLink

namespace Frame

/-- The largest payload of a frame, in bytes. -/
def maxPayload : Nat := 255

/-- The byte that asks for a reset, sent without framing. -/
def resetRequest : UInt8 := CommandKind.reset.code

/-- The exclusive or of all bytes. -/
def checksum (data : List UInt8) : UInt8 :=
  data.foldl (· ^^^ ·) 0

/-- The frame of a payload; a payload that is empty or longer than `maxPayload` has none. -/
def encode (payload : List UInt8) : Except Refusal (List UInt8) :=
  if payload.isEmpty then .error .emptyPayload
  else if maxPayload < payload.length then .error .longPayload
  else .ok (UInt8.ofNat payload.length :: payload ++ [checksum payload])

end Frame

structure Response where
  /-- The kind of the response, which need not be one of `ResponseKind`. -/
  kind : UInt8
  data : List UInt8
deriving DecidableEq, Repr

namespace Response

/-- The response in a body, which is a payload followed by its checksum. -/
def parse (body : List UInt8) : Except LinkError Response :=
  match body.dropLast, body.getLast? with
  | kind :: data, some received =>
    let computed := Frame.checksum (kind :: data)
    if computed = received then .ok ⟨kind, data⟩ else .error (.checksum computed received)
  | _, _ => .error (.frameLength (body.length - 1) 0)

/-- The data of a response that reports success. -/
def ok (r : Response) : Except LinkError (List UInt8) :=
  if r.kind = ResponseKind.ok.code then .ok r.data else .error (.device r.kind r.data)

end Response

/-- The response in a whole frame, length byte included. -/
def Frame.decode : List UInt8 → Except LinkError Response
  | [] => .error (.frameLength 0 0)
  | len :: body =>
    if body.length = len.toNat + 1 then Response.parse body
    else .error (.frameLength len.toNat (body.length - 1))

end BadgeLink
