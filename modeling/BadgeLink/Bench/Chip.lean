import BadgeLink.Bench.Wire
import BadgeLink.Flash.Command
import BadgeLink.Monitor.Command

/-!
# Simulated chips

The boot monitor of a chip with a flash controller behind it, seen from its serial line. The
monitor collects bytes until a hash sign and carries out the command they make. Words written to
the window of the flash go to the page latch; words written to the command register of the flash
controller are flash commands; all other words are plain registers.
-/

namespace BadgeLink

/-- Words stored by address, in ascending order of the addresses. -/
structure RegisterFile where
  entries : List (UInt32 × UInt32) := []
deriving DecidableEq, Repr

namespace RegisterFile

/-- The word at an address; a word that was never stored is zero. -/
def get (r : RegisterFile) (address : UInt32) : UInt32 :=
  (r.entries.lookup address).getD 0

def insert (address value : UInt32) : List (UInt32 × UInt32) → List (UInt32 × UInt32)
  | [] => [(address, value)]
  | (a, v) :: rest =>
    if address < a then (address, value) :: (a, v) :: rest
    else if address = a then (address, value) :: rest
    else (a, v) :: insert address value rest

def set (r : RegisterFile) (address value : UInt32) : RegisterFile :=
  ⟨insert address value r.entries⟩

end RegisterFile

namespace Chip

def flashBase : UInt32 := 0x00400000

abbrev flashSize : Nat := 65536

abbrev pageSize : Nat := 512

abbrev lockSize : Nat := 8192

abbrev lockCount : Nat := 8

def controllerBase : UInt32 := 0x400e0a00

def flashId : UInt32 := 0x00150200

end Chip

open Chip in
/-- The state of a simulated chip. -/
structure Chip where
  bootloader : Bool := true
  cidr : UInt32 := 0x29970ce0
  exid : UInt32 := 0
  flash : Vector UInt8 flashSize := .replicate flashSize 0xff
  locks : Vector Bool lockCount := .replicate lockCount true
  bits : UInt32 := 0
  /-- The flash commands executed, with their arguments, latest first. -/
  executed : List (UInt8 × UInt32) := []
  /-- How many polls find the controller busy after each command. -/
  busyPolls : Nat := 0
  /-- The offset of a byte that is inverted whenever it is written. -/
  corrupt : Option Nat := none
  flashError : Bool := false
  /-- The addresses that the processor was told to jump to, latest first. -/
  jumps : List UInt32 := []
  windowReads : Nat := 0
  /-- The registers that mean nothing to the chip. -/
  registers : RegisterFile := {}
  /-- The bytes of the command that is not complete, latest first. -/
  line : List UInt8 := []
  latch : Vector UInt8 pageSize := .replicate pageSize 0xff
  results : List UInt32 := []
  /-- The status of the controller when it is not busy. -/
  status : UInt32 := Flash.Status.ready
  /-- How many of the next polls find the controller busy. -/
  busy : Nat := 0

namespace Chip

/-- The offset in the flash that an address of its window stands for. -/
def windowOffset? (address : UInt32) : Option Nat :=
  if flashBase ≤ address ∧ address.toNat < flashBase.toNat + flashSize then
    some (address.toNat - flashBase.toNat)
  else none

/-- The lock region that a page lies in. -/
def region (page : Nat) : Nat :=
  page * pageSize / lockSize

/-- Whether the region of a page is locked; crashes on a page outside the flash. -/
def isLocked (c : Chip) (page : Nat) : Except Crash Bool :=
  match c.locks[region page]? with
  | some locked => .ok locked
  | none => .error (.indexOutOfRange lockCount (region page))

/-- The word of the flash at an offset; crashes where it would reach past the end. -/
def flashWord (c : Chip) (offset : Nat) : Except Crash UInt32 :=
  if offset + 4 ≤ flashSize then
    .ok <| Word.ofLittleEndian <|
      (List.range 4).map fun i => c.flash[offset + i]?.getD 0
  else .error (.sliceOutOfRange flashSize (offset + 4))

/-- Stores bytes in the latch, from a place on. -/
def fillLatch (latch : Vector UInt8 pageSize) (place : Nat) : List UInt8 → Vector UInt8 pageSize
  | [] => latch
  | b :: rest => fillLatch (latch.setIfInBounds place b) (place + 1) rest

/-- The flash after the latch was written to a page, one byte of which may come out inverted. -/
def commit (flash : Vector UInt8 flashSize) (latch : Vector UInt8 pageSize)
    (corrupt : Option Nat) (page : Nat) : Vector UInt8 flashSize :=
  let start := page * pageSize
  .ofFn fun i =>
    if h : start ≤ i.val ∧ i.val < start + pageSize then
      let b := latch[i.val - start]
      if corrupt = some i.val then ~~~b else b
    else flash[i.val]

/-- The flash after the bytes from `start` up to `stop` were erased. -/
def erase (flash : Vector UInt8 flashSize) (start stop : Nat) : Vector UInt8 flashSize :=
  .ofFn fun i => if start ≤ i.val ∧ i.val < stop then 0xff else flash[i.val]

/-- The word with one bit set; crashes where the word has no such bit. -/
def bitMask (bit : Nat) : Except Crash UInt32 :=
  if bit < 32 then .ok (1 <<< UInt32.ofNat bit) else .error .shiftOverflow

/-- The chip with a bit added to the status of its controller. -/
def flag (c : Chip) (bit : UInt32) : Chip :=
  { c with status := c.status ||| bit }

/-- The results of asking for the description of the flash. -/
def descriptorWords : List UInt32 :=
  [flashId, UInt32.ofNat flashSize, UInt32.ofNat pageSize, 1, UInt32.ofNat flashSize,
    UInt32.ofNat lockCount] ++ List.replicate lockCount (UInt32.ofNat lockSize)

/-- Writes the latch to a page and clears the latch, also when the page is locked or the flash
fails. -/
def writePage (c : Chip) (page : Nat) : Except Crash Chip := do
  let locked ← c.isLocked page
  let c :=
    if locked then c.flag Flash.Status.locked
    else if c.flashError then c.flag Flash.Status.failed
    else { c with flash := commit c.flash c.latch c.corrupt page }
  return { c with latch := .replicate pageSize 0xff }

/-- Erases several pages: the lower two bits of the argument tell how many, the others are the
first of them. -/
def erasePages (c : Chip) (arg : Nat) : Except Crash Chip := do
  let first := arg / 4 * 4
  let count := 4 <<< (arg % 4)
  if ← c.isLocked first then
    return c.flag Flash.Status.locked
  return { c with flash := erase c.flash (first * pageSize) ((first + count) * pageSize) }

/-- Locks or unlocks a region; crashes if the chip has no such region. -/
def setLock (c : Chip) (region : Nat) (locked : Bool) : Except Crash Chip :=
  if region < lockCount then .ok { c with locks := c.locks.setIfInBounds region locked }
  else .error (.indexOutOfRange lockCount region)

def execute (c : Chip) (code : UInt8) (arg : Nat) : Except Crash Chip := do
  let c : Chip :=
    { c with
      executed := (code, UInt32.ofNat arg) :: c.executed
      busy := c.busyPolls
      status := Flash.Status.ready }
  match Flash.Command.all.find? (·.code == code) with
  | some .getDescriptor => return { c with results := descriptorWords }
  | some .writePage => c.writePage arg
  | some .erasePages => c.erasePages arg
  | some .eraseAll =>
    if c.locks.toList.any id then return c.flag Flash.Status.locked
    return { c with flash := .replicate flashSize 0xff }
  | some .setLock => c.setLock arg true
  | some .clearLock => c.setLock arg false
  | some .setBit => return { c with bits := c.bits ||| (← bitMask arg) }
  | some .clearBit => return { c with bits := c.bits &&& ~~~(← bitMask arg) }
  | some .getBits => return { c with results := [c.bits] }
  | _ => return c.flag Flash.Status.invalid

def registerAddress (r : Flash.Register) : UInt32 :=
  controllerBase + r.offset

def readWord (c : Chip) (address : UInt32) : Except Crash (UInt32 × Chip) :=
  match windowOffset? address with
  | some offset => do
    let word ← c.flashWord offset
    return (word, { c with windowReads := c.windowReads + 1 })
  | none =>
    if address = Monitor.cidrAddress then .ok (c.cidr, c)
    else if address = Monitor.exidAddress then .ok (c.exid, c)
    else if address = registerAddress .status then
      match c.busy with
      | n + 1 => .ok (0, { c with busy := n })
      | 0 => .ok (c.status, c)
    else if address = registerAddress .result then
      match c.results with
      | word :: results => .ok (word, { c with results })
      | [] => .ok (0, c)
    else .ok (c.registers.get address, c)

def writeWord (c : Chip) (address value : UInt32) : Except Crash Chip :=
  match windowOffset? address with
  | some offset =>
    let place := offset % pageSize
    if place + 4 ≤ pageSize then
      .ok { c with latch := fillLatch c.latch place (Word.littleEndian value) }
    else .error (.sliceOutOfRange pageSize (place + 4))
  | none =>
    if address = registerAddress .command then
      if value >>> 24 = Flash.Command.key >>> 24 then
        c.execute value.toUInt8 (value.toNat / 256 % 65536)
      else .error (.missingKey (value >>> 24).toUInt8)
    else .ok { c with registers := c.registers.set address value }

/-- The word that eight hexadecimal digits in a line denote, from a place on; the first of them may
be a plus sign instead. -/
def argument (line : List UInt8) (place : Nat) : Except Crash UInt32 :=
  if line.length < place + 8 then .error (.sliceOutOfRange line.length (place + 8))
  else
    let field := (line.drop place).take 8
    match Utf8.fault? field with
    | some fault => .error (.notText fault)
    | none =>
      let digits :=
        match field.map fun b => Char.ofNat b.toNat with
        | '+' :: rest => rest
        | cs => cs
      match Hex.value? digits with
      | some n => .ok (UInt32.ofNat n)
      | none => .error .notHexadecimal

/-- Checks that a comma follows the letter and the address in a line. -/
def expectComma (received : List UInt8) : Except Crash Unit :=
  match received[9]? with
  | none => .error (.indexOutOfRange received.length 9)
  | some b => if b = UInt8.ofNat ','.toNat then .ok () else .error (.missingComma b)

/-- Carries out the monitor command in a line and gives the reply. What follows the arguments of a
command is ignored. -/
def command (c : Chip) (line : List UInt8) : Except Crash (List UInt8 × Chip) :=
  match line with
  | [] => .error (.indexOutOfRange 0 0)
  | letter :: _ =>
    match Char.ofNat letter.toNat with
    | 'N' => .ok (if c.bootloader then Monitor.acknowledgement else [], c)
    | 'w' => do
      expectComma line
      let (word, c) ← c.readWord (← argument line 1)
      return (Word.littleEndian word, c)
    | 'W' => do
      expectComma line
      let address ← argument line 1
      let value ← argument line 10
      return ([], ← c.writeWord address value)
    | 'G' => do
      let address ← argument line 1
      return ([], { c with jumps := address :: c.jumps })
    | _ => .error (.unexpectedCommand letter)

/-- Takes a byte and replies, when it completes a command. -/
def receive : Responder Chip := fun b c =>
  if b = UInt8.ofNat '#'.toNat then
    let line := c.line.reverse
    let c := { c with line := [] }
    match c.command line with
    | .ok (reply, c) => (.ok reply, c)
    | .error e => (.error e, c)
  else (.ok [], { c with line := b :: c.line })

def count (c : Chip) (code : UInt8) : Nat :=
  (c.executed.filter (·.1 == code)).length

def flashSum (c : Chip) : Nat :=
  c.flash.foldl (fun n b => n + b.toNat) 0

def erasedBytes (c : Chip) : Nat :=
  c.flash.foldl (fun n b => if b = 0xff then n + 1 else n) 0

/-- A flash with bytes replaced one by one, from an offset on. -/
def overwrite (flash : Vector UInt8 flashSize) (offset : Nat) :
    List UInt8 → Vector UInt8 flashSize
  | [] => flash
  | b :: rest => overwrite (flash.setIfInBounds offset b) (offset + 1) rest

/-- Crashes if a part of the flash reaches past its end. That the place where the part ends is a size
comes first, then where it starts, then where it ends. -/
def requireWithin (offset length : Nat) : Except Crash Unit := do
  let stop ← Size.add offset length
  if flashSize < offset then throw (.startOutOfRange flashSize offset)
  if flashSize < stop then throw (.sliceOutOfRange flashSize stop)

def poke (c : Chip) (offset : Nat) (data : List UInt8) : Except Crash Chip := do
  requireWithin offset data.length
  return { c with flash := overwrite c.flash offset data }

def peek (c : Chip) (offset length : Nat) : Except Crash (List UInt8) := do
  requireWithin offset length
  return (c.flash.toList.drop offset).take length

end Chip

end BadgeLink
