import BadgeLink.Bench.Basic
import BadgeLink.Channel

/-!
# Wires to simulated devices

A port with a simulated device at its other end. Each byte that is written goes to the device at
once, and what the device replies waits until it is read. Reads and writes can be made to fail.
-/

namespace BadgeLink

/-- A simulated device with a state of type `δ` that takes one byte at a time and may reply, or
crash. -/
abbrev Responder (δ : Type) : Type := UInt8 → δ → Except Crash (List UInt8) × δ

/-- The state of a port with a simulated device. -/
structure Wire (δ : Type) where
  device : δ
  queue : List UInt8 := []
  /-- How many of the next reads fail. -/
  readFaults : Nat := 0
  /-- How many of the next writes fail. -/
  writeFaults : Nat := 0
deriving DecidableEq, Repr

namespace Wire

/-- The timing of a client at the near end: it need not wait long, since a device replies at once. -/
def options : Options where
  responseTimeout := 20
  pollDelay := 1
  readTimeout := 1

def readFault : PortFault := ⟨"Interrupted"⟩

def writeFault : PortFault := ⟨"BrokenPipe"⟩

/-- The port at the near end of the wire. -/
def port {δ : Type} (receive : Responder δ) : SimulatedPort (Wire δ) where
  read _ w :=
    match w.readFaults with
    | n + 1 => (.fault readFault, { w with readFaults := n })
    | 0 =>
      match w.queue with
      | b :: queue => (.byte b, { w with queue })
      | [] => (.idle, w)
  write b w :=
    match w with
    | ⟨device, queue, readFaults, writeFaults + 1⟩ =>
      (.ok (.fault writeFault), ⟨device, queue, readFaults, writeFaults⟩)
    | ⟨device, queue, readFaults, 0⟩ =>
      match receive b device with
      | (.ok reply, device) => (.ok .done, ⟨device, queue ++ reply, readFaults, 0⟩)
      | (.error c, device) => (.error c, ⟨device, queue, readFaults, 0⟩)
  flush w := (.done, w)

def enqueue {δ : Type} (w : Wire δ) (data : List UInt8) : Wire δ :=
  { w with queue := w.queue ++ data }

/-- The device that never replies. -/
def silent : Responder Unit := fun _ s => (.ok [], s)

end Wire

end BadgeLink
