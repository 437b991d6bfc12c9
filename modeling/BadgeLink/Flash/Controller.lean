import BadgeLink.Flash.Command
import BadgeLink.Monitor.Client

/-!
# Flash controllers

A flash controller is driven through its registers, which the monitor reads and writes. A command
is a write to the command register; then the status register is polled until the controller is
ready, and the status that says so tells whether the command failed. A page is written by filling
the latch through the window of the flash in the memory map and then committing it.
-/

namespace BadgeLink.Flash

/-- A flash controller with the description of its memory. -/
structure Controller where
  monitor : Monitor
  base : UInt32
  /-- How many polls may find the controller busy; without a limit the polling goes on. -/
  pollLimit : Option UInt32
  flash : Descriptor
deriving DecidableEq, Repr

namespace Controller

def readRegister (c : Controller) (r : Register) : Link UInt32 := do
  let address ← Word.add c.base r.offset
  c.monitor.readWord address

/-- Polls the status register until the controller is ready. The polls that found it busy are
counted in a machine word: `busy` of them are counted, and `headroom` more can be. -/
def pollReady (c : Controller) (headroom busy : Nat) : Link UInt32 := do
  let status ← c.readRegister .status
  if Status.has status Status.ready then
    return status
  match headroom with
  | 0 => .crash .addOverflow
  | headroom + 1 =>
    if c.pollLimit.any (·.toNat ≤ busy + 1) then
      Link.note (.flashBusy (busy + 1))
      throw (.flashBusy (busy + 1))
    c.pollReady headroom (busy + 1)

/-- Waits until the controller is ready, and returns the status that says so. -/
def awaitReady (c : Controller) : Link UInt32 :=
  c.pollReady 0xffffffff 0

/-- Issues the command of a code and waits for its completion; fails if the controller reports an
error. -/
def send (c : Controller) (code : UInt8) (arg : UInt32) : Link UInt32 := do
  Link.note (.flashCommand code arg)
  let address ← Word.add c.base Register.command.offset
  c.monitor.writeWord address (Command.wordOf code arg)
  let status ← c.awaitReady
  Dialogue.ofExcept (Status.check status)
  return status

def issue (c : Controller) (command : Command) (arg : UInt32) : Link UInt32 :=
  c.send command.code arg

def readResult (c : Controller) : Link UInt32 :=
  c.readRegister .result

/-- Reads `left` further results after those in `got`, which stand latest first. -/
def readResults (c : Controller) : (left : Nat) → (got : List UInt32) → Link (List UInt32)
  | 0, got => return got.reverse
  | left + 1, got => do
    let value ← c.readResult
    readResults c left (value :: got)

/-- Asks the controller for the description of its memory. The counts of planes and lock regions
are checked before as many entries are read. -/
def readDescriptor (c : Controller) : Link Descriptor := do
  discard <| c.issue .getDescriptor 0
  let id ← c.readResult
  let size ← c.readResult
  let pageSize ← c.readResult
  if pageSize = 0 ∨ pageSize % 4 ≠ 0 then
    Link.note (.badPageSize pageSize)
    throw (.implausibleGeometry .pageSize pageSize)
  let most := min (size / pageSize) maxEntries
  let planeCount ← c.readResult
  if planeCount = 0 ∨ most < planeCount then
    Link.note (.badPlaneCount planeCount)
    throw (.implausibleGeometry .planeCount planeCount)
  let planes ← c.readResults planeCount.toNat []
  let lockCount ← c.readResult
  if most < lockCount then
    Link.note (.badLockCount lockCount)
    throw (.implausibleGeometry .lockCount lockCount)
  let locks ← c.readResults lockCount.toNat []
  return { id, size, pageSize, pagesPerSector, planes, locks, base := c.flash.base }

/-- Attaches to the controller whose registers start at `base` and asks for the description of its
memory, which lies at `flashBase` in the memory map. -/
def connect (monitor : Monitor) (base flashBase : UInt32) (pollLimit : Option UInt32) :
    Link Controller := do
  let c : Controller := { monitor, base, pollLimit, flash := { base := flashBase } }
  let flash ← c.readDescriptor
  Link.note (.flashFound flash)
  return { c with flash }

def setLock (c : Controller) (region : UInt32) (locked : Bool) : Link Unit :=
  discard <| c.issue (if locked then .setLock else .clearLock) region

/-- Unlocks `left` regions, from a region on. -/
def unlockFrom (c : Controller) : (left region : Nat) → Link Unit
  | 0, _ => return
  | left + 1, region => do
    c.setLock (UInt32.ofNat region) false
    unlockFrom c left (region + 1)

def unlockAll (c : Controller) : Link Unit := do
  Link.note (.unlocking c.flash.locks.length)
  c.unlockFrom c.flash.locks.length 0

def eraseAll (c : Controller) : Link Unit :=
  discard <| c.issue .eraseAll 0

/-- Erases the sector that contains an offset. -/
def eraseSector (c : Controller) (offset : UInt32) : Link Unit := do
  let sectorSize ← c.flash.sectorSize
  let sector ← Word.div offset sectorSize
  let firstPage ← Word.mul sector pagesPerSector
  discard <| c.issue .erasePages (firstPage ||| Command.sixteenPages)

/-- Writes `left` words to consecutive addresses, the first of them the `n`-th after `window`. The
words are those of a byte string; where it ends, zeros follow. -/
def fillLatch (c : Controller) (window : UInt32) : (left n : Nat) → List UInt8 → Link Unit
  | 0, _, _ => return
  | left + 1, n, data => do
    let place ← Monitor.wordAddress window n
    c.monitor.writeWord place (Word.ofLittleEndian (data.take 4))
    fillLatch c window left (n + 1) (data.drop 4)

/-- Writes a page at an offset; data shorter than the page is padded with zeros. -/
def writePage (c : Controller) (offset : UInt32) (data : List UInt8) : Link Unit := do
  let pageSize := c.flash.pageSize.toNat
  if pageSize < data.length then
    throw (.refused .longPage)
  let window ← Word.add c.flash.base offset
  c.fillLatch window (pageSize / 4) 0 data
  let number ← Word.div offset c.flash.pageSize
  discard <| c.issue .writePage number

def readPage (c : Controller) (offset : UInt32) : Link (List UInt8) := do
  let address ← Word.add c.flash.base offset
  c.monitor.readBlock address c.flash.pageSize.toNat

def setBit (c : Controller) (bit : UInt32) : Link Unit :=
  discard <| c.issue .setBit bit

def clearBit (c : Controller) (bit : UInt32) : Link Unit :=
  discard <| c.issue .clearBit bit

def readBits (c : Controller) : Link UInt32 := do
  discard <| c.issue .getBits 0
  c.readResult

/-- The operations of a flash controller, as data. -/
inductive Operation where
  | readDescriptor
  | setLock (region : UInt32) (locked : Bool)
  | unlockAll
  | eraseAll
  | eraseSector (offset : UInt32)
  | writePage (offset : UInt32) (data : List UInt8)
  | readPage (offset : UInt32)
  | setBit (bit : UInt32)
  | clearBit (bit : UInt32)
  | readBits
deriving DecidableEq, Repr

inductive Answer where
  | done
  | flash (d : Descriptor)
  | page (data : List UInt8)
  | bits (value : UInt32)
deriving DecidableEq, Repr

def perform (c : Controller) : Operation → Link Answer
  | .readDescriptor => return .flash (← c.readDescriptor)
  | .setLock region locked => do
    c.setLock region locked
    return .done
  | .unlockAll => do
    c.unlockAll
    return .done
  | .eraseAll => do
    c.eraseAll
    return .done
  | .eraseSector offset => do
    c.eraseSector offset
    return .done
  | .writePage offset data => do
    c.writePage offset data
    return .done
  | .readPage offset => return .page (← c.readPage offset)
  | .setBit bit => do
    c.setBit bit
    return .done
  | .clearBit bit => do
    c.clearBit bit
    return .done
  | .readBits => return .bits (← c.readBits)

end Controller

end BadgeLink.Flash
