import BadgeLink.Text.Hex

/-!
# Errors of a link

What can go wrong between a client and its device, one constructor for each cause, and the wording
of each in one place.
-/

namespace BadgeLink

/-- A fault that the serial port reports, known by its name. -/
structure PortFault where
  name : String
deriving DecidableEq, Repr

/-- Why a call was refused before anything was sent. -/
inductive Refusal where
  | emptyPayload
  | longPayload
  | longPage
  | pixelOutside
  | textNotAscii
  | longText
  | unknownLed
  | longRegister
  | longI2cRead
  | longI2cWrite
  | spiClock
  | spiMode
  | longSpi
deriving DecidableEq, Repr

def Refusal.message : Refusal → String
  | emptyPayload => "frame payload must not be empty"
  | longPayload => "frame payload must be at most 255 bytes"
  | longPage => "page data exceeds flash page size"
  | pixelOutside => "pixel must be within the 128x64 display"
  | textNotAscii => "LCD text must be ASCII"
  | longText => "LCD text must be at most 250 characters"
  | unknownLed => "invalid LED number"
  | longRegister => "I2C register address cannot be longer than 4 bytes"
  | longI2cRead => "I2C read length must be in range [0-255]"
  | longI2cWrite => "I2C write length must be in range [0-255]"
  | spiClock => "SPI clock must be in range [1-60000] kHz"
  | spiMode => "SPI mode must be in range [0-3]"
  | longSpi => "SPI data length must be in range [0-255]"

/-- The entries of a flash descriptor that are checked when it is read. -/
inductive GeometryField where
  | pageSize
  | planeCount
  | lockCount
deriving DecidableEq, Repr

def GeometryField.name : GeometryField → String
  | pageSize => "page size"
  | planeCount => "plane count"
  | lockCount => "lock region count"

/-- What can go wrong on a link. -/
inductive LinkError where
  | port (fault : PortFault)
  /-- A response did not arrive whole within its time. -/
  | timeout (milliseconds : UInt32) (expected received : Nat)
  | noBootloader
  | unknownChip (cidr exid : UInt32)
  | flashLocked (status : UInt32)
  | flashWrite (status : UInt32)
  | flashCommand (status : UInt32)
  /-- The flash controller was still busy after the last permitted poll. -/
  | flashBusy (attempts : Nat)
  | imageTooLarge (size capacity : Nat)
  | verification (address : UInt32)
  | checksum (computed received : UInt8)
  /-- A frame is shorter or longer than it says. -/
  | frameLength (declared actual : Nat)
  | device (code : UInt8) (data : List UInt8)
  | resetTimeout (attempts : Nat)
  | implausibleGeometry (field : GeometryField) (value : UInt32)
  | refused (why : Refusal)
deriving DecidableEq, Repr

def LinkError.message : LinkError → String
  | port fault => s!"serial port error: {fault.name}"
  | timeout ms expected received =>
    s!"serial interface timeout exceeded ({ms} ms, received {received} of {expected} bytes)"
  | noBootloader => "can't enter SAM-BA bootloader mode, did you forget to reset the board?"
  | unknownChip cidr exid => s!"unrecognized chip ID: 0x{Hex.word cidr} / 0x{Hex.word exid}"
  | flashLocked status =>
    s!"write/erase error: at least one page is locked (status 0x{Hex.word status})"
  | flashWrite status => s!"write/erase error: flash error (status 0x{Hex.word status})"
  | flashCommand status => s!"flash controller rejected command (status 0x{Hex.word status})"
  | flashBusy attempts => s!"flash controller not ready after {attempts} status polls"
  | imageTooLarge size capacity =>
    s!"image size ({size} bytes) is larger than the flash size ({capacity} bytes)"
  | verification address => s!"verification failed: offending page 0x{Hex.word address}"
  | checksum computed received =>
    s!"checksum error (expected 0x{Hex.byte computed}, got 0x{Hex.byte received})"
  | frameLength declared actual =>
    s!"frame length mismatch (declared {declared}, actual {actual})"
  | device code data =>
    s!"response != OK: code = 0x{Hex.byte code}, data = \"{Hex.ofBytes data}\""
  | resetTimeout attempts => s!"no response after reset ({attempts} attempts)"
  | implausibleGeometry field value =>
    s!"implausible flash descriptor: {field.name} = {value}"
  | refused why => s!"invalid argument: {why.message}"

end BadgeLink
