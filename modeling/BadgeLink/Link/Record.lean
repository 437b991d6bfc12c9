import BadgeLink.Flash.Geometry
import BadgeLink.Frame.Basic

/-!
# Log records

What the clients of a link report about their work, with the severity and the wording of each kind
of record.
-/

namespace BadgeLink

/-- The severity of a log record, most severe first. -/
inductive Level where
  | error
  | warn
  | info
  | debug
  | trace
deriving DecidableEq, Repr

namespace Level

def rank : Level → Nat
  | error => 1
  | warn => 2
  | info => 3
  | debug => 4
  | trace => 5

def name : Level → String
  | error => "ERROR"
  | warn => "WARN"
  | info => "INFO"
  | debug => "DEBUG"
  | trace => "TRACE"

/-- Whether records of a severity pass a threshold; without a threshold none does. -/
def passes (level : Level) (threshold : Option Level) : Bool :=
  threshold.any (level.rank ≤ ·.rank)

end Level

inductive Record where
  | sending (data : List UInt8)
  | readFault (fault : PortFault)
  | received (data : List UInt8)
  | receiveTimeout (received expected : Nat) (milliseconds : UInt32)
  | discarded (count : Nat)
  | enteringMonitor
  | unexpectedAcknowledgement (data : List UInt8)
  | noAcknowledgement (e : LinkError)
  | wordRead (address value : UInt32)
  | writingWord (address value : UInt32)
  | jumping (address : UInt32)
  | flashCommand (code : UInt8) (arg : UInt32)
  | flashBusy (attempts : Nat)
  | badPageSize (value : UInt32)
  | badPlaneCount (value : UInt32)
  | badLockCount (value : UInt32)
  | flashFound (flash : Flash.Descriptor)
  | unlocking (count : Nat)
  | entryFailed
  | chipId (cidr exid : UInt32)
  | wrongChip (expected : String)
  | imageTooLarge
  | programming (bytes pages : Nat) (pageSize : UInt32)
  | verificationFailed (address : UInt32)
  | programmed
  | resetAcknowledged (attempt : Nat)
  | unexpectedReset (data : List UInt8)
  | resetGivenUp (attempts : Nat)
  | command (kind : CommandKind) (bytes : Nat)
  | commandFailed (kind : CommandKind) (response : Option ResponseKind)
deriving DecidableEq, Repr

namespace Record

def level : Record → Level
  | sending _ | readFault _ | received _ | wordRead .. | writingWord .. | unexpectedReset _ =>
    .trace
  | receiveTimeout .. | discarded _ | enteringMonitor | unexpectedAcknowledgement _
  | noAcknowledgement _ | jumping _ | flashCommand .. | unlocking _ | chipId ..
  | resetAcknowledged _ | command .. => .debug
  | flashFound _ | programming .. | programmed => .info
  | commandFailed .. => .warn
  | flashBusy _ | badPageSize _ | badPlaneCount _ | badLockCount _ | entryFailed | wrongChip _
  | imageTooLarge | verificationFailed _ | resetGivenUp _ => .error

/-- The name of the kind of a response, where it has one. -/
def responseName : Option ResponseKind → String
  | some kind => s!"Some({kind.name})"
  | none => "None"

def text : Record → String
  | sending data => s!"tx: {Hex.listing data}"
  | readFault fault => s!"Read error: {fault.name}"
  | received data => s!"rx: {Hex.listing data}"
  | receiveTimeout got expected ms =>
    s!"Receive timeout ({got} of {expected} bytes after {ms} ms)"
  | discarded count => s!"Discarded {count} stale bytes"
  | enteringMonitor => "Entering SAM-BA normal mode"
  | unexpectedAcknowledgement data => s!"Unexpected bootloader response: {Hex.listing data}"
  | noAcknowledgement e => s!"Bootloader did not respond: {e.message}"
  | wordRead address value => s!"read_word 0x{Hex.word address}: 0x{Hex.word value}"
  | writingWord address value => s!"write_word 0x{Hex.word address}: 0x{Hex.word value}"
  | jumping address => s!"Jumping to 0x{Hex.word address}"
  | flashCommand code arg =>
    s!"EEFC command 0x{Hex.byte code} arg 0x{Hex.padded 4 arg.toNat}"
  | flashBusy attempts => s!"Flash controller busy after {attempts} polls"
  | badPageSize value => s!"Invalid flash page size: {value}"
  | badPlaneCount value => s!"Invalid flash plane count: {value}"
  | badLockCount value => s!"Invalid flash lock region count: {value}"
  | flashFound flash => s!"Flash {flash.text}"
  | unlocking count => s!"Unlocking {count} lock regions"
  | entryFailed => "Failed to enter bootloader mode"
  | chipId cidr exid => s!"Chip ID: 0x{Hex.word cidr} / 0x{Hex.word exid}"
  | wrongChip expected => s!"Unrecognized chip, expected {expected}"
  | imageTooLarge => "Image does not fit in flash"
  | programming bytes pages pageSize =>
    s!"Programming {bytes} bytes ({pages} pages of {pageSize} bytes)"
  | verificationFailed address => s!"Verification failed at 0x{Hex.word address}"
  | programmed => "Programming complete"
  | resetAcknowledged attempt => s!"Reset acknowledged after {attempt} attempt(s)"
  | unexpectedReset data => s!"Unexpected reset response: {Hex.listing data}"
  | resetGivenUp attempts => s!"No response after {attempts} reset attempts"
  | command kind bytes => s!"Command {kind.name} ({bytes} bytes)"
  | commandFailed kind response => s!"Command {kind.name} failed: {responseName response}"

/-- A record with its severity in front. -/
def line (r : Record) : String :=
  s!"{r.level.name} {r.text}"

end Record

end BadgeLink
