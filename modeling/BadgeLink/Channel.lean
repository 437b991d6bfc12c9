import BadgeLink.Link.Basic

/-!
# Channels

A channel moves whole byte strings over a serial port. Sending retries bytes that the port does not
take yet, and flushes at the end. Receiving polls the port until exactly the bytes asked for have
arrived or their time is up, and sleeps between polls that find nothing.

Each single wait is bounded by the patience of the channel: a wait that exhausts it ends in the
crash `Crash.stalled`. The default is out of reach of any run that lasts less than a lifetime, so
with it a stalled wait is one that would not have ended.
-/

namespace BadgeLink

/-- The timing of a serial link; all times are in milliseconds. -/
structure Options where
  /-- How long to wait for a complete response. -/
  responseTimeout : UInt32 := 10000
  /-- How long to sleep between two polls of a line that has no data. -/
  pollDelay : UInt32 := 10
  /-- How long the port itself waits in one read. -/
  readTimeout : UInt32 := 100
deriving DecidableEq, Repr

/-- A serial port with the timing under which it is used. -/
structure Channel where
  options : Options := {}
  /-- How often a single wait may look at the port. -/
  patience : Nat := 0x4000000000000000
deriving DecidableEq, Repr

namespace Channel

/-- The most bytes that a single `drain` discards. -/
def maxDrain : Nat := 4096

/-- Repeats a write or a flush, at most `patience` times, until the port has done it. -/
def settle (action : Link Acceptance) : (patience : Nat) → Link Unit
  | 0 => .crash .stalled
  | patience + 1 => do
    match ← action with
    | .done => return
    | .busy => settle action patience
    | .fault f => throw (.port f)

def writeAll (c : Channel) : List UInt8 → Link Unit
  | [] => return
  | b :: rest => do
    settle (Link.write b) c.patience
    writeAll c rest

/-- Sends bytes and waits until they have left the port. -/
def send (c : Channel) (data : List UInt8) : Link Unit := do
  Link.note (.sending data)
  c.writeAll data
  settle Link.flush c.patience

/-- What bounds a receive: the bytes asked for, the time they may take, and when they were asked
for. -/
structure Deadline where
  count : Nat
  /-- The time they may take, in milliseconds. -/
  timeout : UInt32
  /-- The time at the start, in microseconds. -/
  start : Nat
deriving DecidableEq, Repr

/-- After a read that yielded nothing while `missing` of the bytes had not arrived: gives up if the
time is up, and sleeps otherwise. -/
def lapse (c : Channel) (d : Deadline) (missing : Nat) : Link Unit := do
  let time ← Link.now
  if d.timeout.toNat * 1000 < time - d.start then
    let received := d.count - missing
    Link.note (.receiveTimeout received d.count d.timeout)
    throw (.timeout d.timeout d.count received)
  Link.pause c.options.pollDelay

/-- The first of the `missing` bytes, for which the port is polled at most `patience` times. A
failed read counts as one that found nothing. -/
def nextByte (c : Channel) (d : Deadline) (missing : Nat) : (patience : Nat) → Link UInt8
  | 0 => .crash .stalled
  | patience + 1 => do
    match ← Link.read with
    | .byte b => return b
    | .idle =>
      c.lapse d missing
      nextByte c d missing patience
    | .fault f =>
      Link.note (.readFault f)
      c.lapse d missing
      nextByte c d missing patience

/-- Receives the last `missing` of the bytes, after those in `got`, which stand latest first. -/
def collect (c : Channel) (d : Deadline) : (missing : Nat) → (got : List UInt8) →
    Link (List UInt8)
  | 0, got => return got.reverse
  | missing + 1, got => do
    let b ← c.nextByte d (missing + 1) c.patience
    collect c d missing (b :: got)

/-- Receives exactly `count` bytes within a time in milliseconds. Fewer bytes are never returned:
what arrived before the time was up is lost. -/
def receiveWithin (c : Channel) (count : Nat) (timeout : UInt32) : Link (List UInt8) := do
  let start ← Link.now
  Size.reserve count
  let data ← c.collect ⟨count, timeout, start⟩ count []
  Link.note (.received data)
  return data

def receive (c : Channel) (count : Nat) : Link (List UInt8) :=
  c.receiveWithin count c.options.responseTimeout

/-- Reads until a read yields no byte, at most `limit` times; returns how many bytes were read. -/
def skip : (limit : Nat) → (skipped : Nat) → Link Nat
  | 0, skipped => return skipped
  | limit + 1, skipped => do
    match ← Link.read with
    | .byte _ => skip limit (skipped + 1)
    | _ => return skipped

/-- Discards the bytes that wait on the port, but no more than `maxDrain`, so that a device that
never pauses cannot hold the caller. -/
def drain (_ : Channel) : Link Nat := do
  let count ← skip maxDrain 0
  if 0 < count then
    Link.note (.discarded count)
  return count

def pause (_ : Channel) (milliseconds : UInt32) : Link Unit :=
  Link.pause milliseconds

/-- The operations of a channel, as data. -/
inductive Operation where
  | send (data : List UInt8)
  | receive (count : Nat)
  | receiveWithin (count : Nat) (timeout : UInt32)
  | drain
  | pause (milliseconds : UInt32)
deriving DecidableEq, Repr

inductive Answer where
  | done
  | received (data : List UInt8)
  | drained (count : Nat)
deriving DecidableEq, Repr

def perform (c : Channel) : Operation → Link Answer
  | .send data => do
    c.send data
    return .done
  | .receive count => return .received (← c.receive count)
  | .receiveWithin count timeout => return .received (← c.receiveWithin count timeout)
  | .drain => return .drained (← c.drain)
  | .pause milliseconds => do
    c.pause milliseconds
    return .done

end Channel

end BadgeLink
