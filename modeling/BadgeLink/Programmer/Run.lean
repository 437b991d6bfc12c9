import BadgeLink.Flash.Controller

/-!
# Programming

A target is a kind of chip that can be programmed: how it is recognised and where its flash is. A
programmer connects to a chip through its monitor, makes sure that it is the expected one, erases
and writes its flash page by page, reads it back, and makes the flash the boot source. The boot
source is set last, so a chip does not boot from a flash that was not written to the end.
-/

namespace BadgeLink

/-- The identity and the memory map of a kind of chip. -/
structure Target where
  name : String := "KiCon badge"
  cidrAddress : UInt32 := Monitor.cidrAddress
  exidAddress : UInt32 := Monitor.exidAddress
  cidr : UInt32 := 0x29970ce0
  exid : UInt32 := 0x00000000
  controllerBase : UInt32 := 0x400e0a00
  flashBase : UInt32 := 0x00400000
  /-- The general-purpose bit that selects the flash as boot source. -/
  bootBit : UInt32 := 1
  /-- How many polls may find the flash controller busy. -/
  pollLimit : Option UInt32 := some 100000
deriving DecidableEq, Repr

/-- The microcontroller on the badge. -/
def Target.badge : Target := {}

/-- The connection to a chip that is to be programmed. -/
structure Programmer where
  target : Target
  controller : Flash.Controller
deriving DecidableEq, Repr

/-- Cuts a list into parts of `size` elements, the last of which may be shorter; a part has at least
one element. -/
def chunks {α : Type} (size : Nat) : List α → List (List α)
  | [] => []
  | a :: rest => (a :: rest.take (size - 1)) :: chunks size (rest.drop (size - 1))
termination_by l => l.length

namespace Programmer

/-- Connects to a chip: enters its monitor, compares its identity with the target's, and attaches
to its flash controller. -/
def connect (channel : Channel) (target : Target) : Link Programmer := do
  let monitor : Monitor := { channel }
  if !(← monitor.enter) then
    Link.note .entryFailed
    throw .noBootloader
  let (cidr, exid) ← monitor.readChipId target.cidrAddress target.exidAddress
  Link.note (.chipId cidr exid)
  if cidr ≠ target.cidr ∨ exid ≠ target.exid then
    Link.note (.wrongChip target.name)
    throw (.unknownChip cidr exid)
  let controller ←
    Flash.Controller.connect monitor target.controllerBase target.flashBase target.pollLimit
  return { target, controller }

def flash (p : Programmer) : Flash.Descriptor :=
  p.controller.flash

def pageOffset (p : Programmer) (page : Nat) : UInt32 :=
  UInt32.ofNat (page * p.flash.pageSize.toNat)

/-- Writes consecutive pages from page number `page` on, of `total` in all; a sector is erased
before its first page is written. -/
def writePages (p : Programmer) (total : Nat) : (page : Nat) → List (List UInt8) → Link Unit
  | _, [] => return
  | page, chunk :: rest => do
    if page % p.flash.pagesPerSector.toNat = 0 then
      Link.report ⟨.erasing, page, total⟩
      p.controller.eraseSector (p.pageOffset page)
    Link.report ⟨.writing, page, total⟩
    p.controller.writePage (p.pageOffset page) chunk
    writePages p total (page + 1) rest

/-- Reads back consecutive pages from page number `page` on, of `total` in all; fails at the first
that does not begin with its chunk. -/
def verifyPages (p : Programmer) (total : Nat) : (page : Nat) → List (List UInt8) → Link Unit
  | _, [] => return
  | page, chunk :: rest => do
    Link.report ⟨.verifying, page, total⟩
    let data ← p.controller.readPage (p.pageOffset page)
    if data.take chunk.length ≠ chunk then
      let address ← Word.add p.flash.base (p.pageOffset page)
      Link.note (.verificationFailed address)
      throw (.verification address)
    verifyPages p total (page + 1) rest

/-- Writes an image to the start of the flash, reads it back if `verify` says so, and makes the
flash the boot source. The listener is told of every step before it is taken. -/
def install (p : Programmer) (image : List UInt8) (verify : Bool) : Link Unit := do
  if p.flash.size.toNat < image.length then
    Link.note .imageTooLarge
    throw (.imageTooLarge image.length p.flash.size.toNat)
  let total ← p.flash.pageCount image.length
  Link.note (.programming image.length total p.flash.pageSize)
  p.controller.unlockAll
  let pages := chunks p.flash.pageSize.toNat image
  p.writePages total 0 pages
  if verify then
    p.verifyPages total 0 pages
  p.controller.setBit p.target.bootBit
  Link.note .programmed

/-- Tells the processor to run what is at the start of the flash. -/
def launch (p : Programmer) : Link Unit :=
  p.controller.monitor.go p.flash.base

end Programmer

end BadgeLink
