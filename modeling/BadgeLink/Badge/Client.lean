import BadgeLink.Badge.Call
import BadgeLink.Channel

/-!
# Clients of a badge

A client brings the command buffer of the badge to a known state and then makes calls, each one
frame to the badge and one frame back.
-/

namespace BadgeLink

/-- A client of a badge. -/
structure Badge where
  channel : Channel
  /-- The time between two reset requests, in milliseconds. -/
  resetInterval : UInt32 := 100
deriving DecidableEq, Repr

namespace Badge

def resetAttempts : Nat := 256

/-- The frame with which a badge acknowledges a reset. -/
def resetAcknowledgement : List UInt8 :=
  [1, ResponseKind.reset.code, ResponseKind.reset.code]

/-- Sends one reset request and waits for its acknowledgement; returns whether it came. Without it,
what the badge sent instead is discarded. -/
def requestReset (b : Badge) (number : Nat) : Link Bool := do
  b.channel.send [Frame.resetRequest]
  b.channel.pause b.resetInterval
  let answer ← Dialogue.attempt (ε := LinkError)
    (b.channel.receiveWithin resetAcknowledgement.length b.resetInterval)
  match answer with
  | .ok data =>
    if data = resetAcknowledgement then
      Link.note (.resetAcknowledged number)
      return true
    Link.note (.unexpectedReset data)
  | .error (.timeout ..) => pure ()
  | .error e => throw e
  discard b.channel.drain
  return false

/-- Sends `left` reset requests, the first of them number `number`, until one is acknowledged. -/
def requestResets (b : Badge) : (left number : Nat) → Link Unit
  | 0, _ => do
    Link.note (.resetGivenUp resetAttempts)
    throw (.resetTimeout resetAttempts)
  | left + 1, number => do
    if ← b.requestReset number then
      return
    requestResets b left (number + 1)

/-- Brings the command buffer of the badge to a known state. A command that was left incomplete
takes the first requests for its own bytes, and a later one is acknowledged. -/
def reset (b : Badge) : Link Unit :=
  b.requestResets resetAttempts 1

def response (b : Badge) : Link Response := do
  let head ← b.channel.receive 1
  let length := (head.headD 0).toNat
  let body ← b.channel.receive (length + 1)
  Dialogue.ofExcept (Response.parse body)

/-- Sends a command and returns the data of its response. -/
def command (b : Badge) (kind : CommandKind) (arguments : List UInt8) : Link (List UInt8) := do
  let payload := kind.code :: arguments
  let frame ← Dialogue.ofExcept ((Frame.encode payload).mapError .refused)
  Link.note (.command kind payload.length)
  b.channel.send frame
  let response ← b.response
  match response.ok with
  | .ok data => return data
  | .error e =>
    Link.note (.commandFailed kind (ResponseKind.ofCode? response.kind))
    throw e

def call (b : Badge) (c : Call) : Link Reply := do
  let arguments ← Dialogue.ofExcept (c.arguments.mapError .refused)
  let data ← b.command c.kind arguments
  Dialogue.ofExcept (c.decode data)

end Badge

end BadgeLink
