import BadgeLink.Link.Error

/-!
# Commands and status of a flash controller

A controller has four registers. A command is a word written to the command register, made of a
key, an argument of 16 bits and a code. The status register tells when the command is complete and
whether it failed, and the result register delivers its results one by one.
-/

namespace BadgeLink.Flash

/-- The offsets of the registers from the base of the controller. -/
inductive Register where
  | mode
  | command
  | status
  | result
deriving DecidableEq, Repr

def Register.offset : Register → UInt32
  | mode => 0x00
  | command => 0x04
  | status => 0x08
  | result => 0x0c

inductive Command where
  | getDescriptor
  | writePage
  | writePageAndLock
  | eraseWritePage
  | eraseWritePageAndLock
  | eraseAll
  | erasePages
  | setLock
  | clearLock
  | getLock
  | setBit
  | clearBit
  | getBits
deriving DecidableEq, Repr

namespace Command

def all : List Command :=
  [getDescriptor, writePage, writePageAndLock, eraseWritePage, eraseWritePageAndLock, eraseAll,
    erasePages, setLock, clearLock, getLock, setBit, clearBit, getBits]

def code : Command → UInt8
  | getDescriptor => 0x00
  | writePage => 0x01
  | writePageAndLock => 0x02
  | eraseWritePage => 0x03
  | eraseWritePageAndLock => 0x04
  | eraseAll => 0x05
  | erasePages => 0x07
  | setLock => 0x08
  | clearLock => 0x09
  | getLock => 0x0a
  | setBit => 0x0b
  | clearBit => 0x0c
  | getBits => 0x0d

/-- The key in the top byte of a word that is a command. -/
def key : UInt32 := 0x5a000000

/-- The word that issues the command of a code; of the argument it holds the lower 16 bits. -/
def wordOf (code : UInt8) (arg : UInt32) : UInt32 :=
  key ||| ((arg &&& 0xffff) <<< 8) ||| code.toUInt32

def word (c : Command) (arg : UInt32) : UInt32 :=
  wordOf c.code arg

/-- What `erasePages` takes besides the first page to erase sixteen pages. -/
def sixteenPages : UInt32 := 0x2

end Command

def pagesPerSector : UInt32 := 16

/-- The most planes, and the most lock regions, that a descriptor may list. -/
def maxEntries : UInt32 := 1024

namespace Status

/-- The controller is ready for a command. -/
def ready : UInt32 := 0x1

/-- The command or its key was invalid. -/
def invalid : UInt32 := 0x2

/-- A page to write or erase is locked. -/
def locked : UInt32 := 0x4

/-- The flash failed. -/
def failed : UInt32 := 0x8

def has (status bit : UInt32) : Bool :=
  status &&& bit != 0

/-- The error that a status reports. A locked page is named before a failure of the flash, and that
before an invalid command. -/
def check (status : UInt32) : Except LinkError Unit :=
  if has status locked then .error (.flashLocked status)
  else if has status failed then .error (.flashWrite status)
  else if has status invalid then .error (.flashCommand status)
  else .ok ()

end Status

end BadgeLink.Flash
