import BadgeLink.Channel
import BadgeLink.Monitor.Command

/-!
# Clients of the boot monitor

Word access to the memory of a chip through its monitor. The monitor answers reads with four bytes,
least significant first, and does not answer writes and jumps. Blocks are read word by word.
-/

namespace BadgeLink

structure Monitor where
  channel : Channel
deriving DecidableEq, Repr

namespace Monitor

def issue (m : Monitor) (c : Command) : Link Unit :=
  m.channel.send c.bytes

/-- Switches the monitor to binary mode. A monitor that does not acknowledge is expected where the
board is in another mode, so this tells whether it did and fails in no other way. -/
def enter (m : Monitor) : Link Bool := do
  Link.note .enteringMonitor
  let answer ← Dialogue.attempt (ε := LinkError) do
    m.issue .normalMode
    m.channel.receive acknowledgement.length
  match answer with
  | .ok data =>
    if data = acknowledgement then
      return true
    Link.note (.unexpectedAcknowledgement data)
    return false
  | .error e =>
    Link.note (.noAcknowledgement e)
    return false

def readWord (m : Monitor) (address : UInt32) : Link UInt32 := do
  m.issue (.readWord address)
  let data ← m.channel.receive 4
  let value := Word.ofLittleEndian data
  Link.note (.wordRead address value)
  return value

def writeWord (m : Monitor) (address value : UInt32) : Link Unit := do
  Link.note (.writingWord address value)
  m.issue (.writeWord address value)

/-- The address of the `n`-th word from an address on. -/
def wordAddress (address : UInt32) (n : Nat) : Except Crash UInt32 := do
  let offset ← Word.mul (UInt32.ofNat n) 4
  Word.add address offset

/-- Reads `left` words, from the `n`-th after an address on, in addition to those in `got`, which
stand latest first. -/
def readWords (m : Monitor) (address : UInt32) : (left n : Nat) → (got : List UInt32) →
    Link (List UInt32)
  | 0, _, got => return got.reverse
  | left + 1, n, got => do
    let place ← wordAddress address n
    let value ← m.readWord place
    readWords m address left (n + 1) (value :: got)

/-- Reads `size` bytes from an address on, in as many words as they take. -/
def readBlock (m : Monitor) (address : UInt32) (size : Nat) : Link (List UInt8) := do
  let padded ← Size.add size 3
  let words := padded / 4
  Size.reserve (words * 4)
  let values ← m.readWords address words 0 []
  return (values.flatMap Word.littleEndian).take size

/-- Tells the processor to jump to an address. -/
def go (m : Monitor) (address : UInt32) : Link Unit := do
  Link.note (.jumping address)
  m.issue (.go address)

def readChipId (m : Monitor) (cidrAddress exidAddress : UInt32) : Link (UInt32 × UInt32) := do
  let cidr ← m.readWord cidrAddress
  let exid ← m.readWord exidAddress
  return (cidr, exid)

/-- The operations of a monitor client, as data. -/
inductive Operation where
  | enter
  | readWord (address : UInt32)
  | writeWord (address value : UInt32)
  | readBlock (address : UInt32) (size : Nat)
  | go (address : UInt32)
  | readChipId (cidrAddress exidAddress : UInt32)
deriving DecidableEq, Repr

inductive Answer where
  | done
  | entered (acknowledged : Bool)
  | word (value : UInt32)
  | block (data : List UInt8)
  | chipId (cidr exid : UInt32)
deriving DecidableEq, Repr

def perform (m : Monitor) : Operation → Link Answer
  | .enter => return .entered (← m.enter)
  | .readWord address => return .word (← m.readWord address)
  | .writeWord address value => do
    m.writeWord address value
    return .done
  | .readBlock address size => return .block (← m.readBlock address size)
  | .go address => do
    m.go address
    return .done
  | .readChipId cidrAddress exidAddress => do
    let (cidr, exid) ← m.readChipId cidrAddress exidAddress
    return .chipId cidr exid

end Monitor

end BadgeLink
