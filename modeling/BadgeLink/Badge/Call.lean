import BadgeLink.Badge.Buttons
import BadgeLink.Frame.Basic
import BadgeLink.Monitor.Command

/-!
# Calls to the peripherals of a badge

A call is one command to a peripheral with its arguments. `Call.arguments` checks the arguments and
gives the bytes that follow the kind of the command in the payload; `Call.decode` reads the data of
the response. The checks use only the arguments, so a call that is refused has sent nothing.
-/

namespace BadgeLink

/-- The shortest big-endian byte string, of at least one byte, for a register address. -/
def registerAddress (address : UInt32) : List UInt8 :=
  match (Word.bigEndian address).dropWhile (· == 0) with
  | [] => [0]
  | bytes => bytes

namespace Badge

/-- The numbers of the lights. -/
def leds : List UInt8 := [0, 1]

def lcdWidth : UInt8 := 128

def lcdHeight : UInt8 := 64

/-- The slowest clock of the SPI bus, in kilohertz. -/
def minSpiClock : UInt16 := 1

/-- The fastest clock of the SPI bus, in kilohertz. -/
def maxSpiClock : UInt16 := 60000

/-- The longest register address, in bytes. -/
def maxRegister : Nat := 4

/-- The largest number that a byte of a payload can hold as a length. -/
def maxLength : Nat := 255

/-- The calls to the peripherals. -/
inductive Call where
  | raw (kind : CommandKind) (data : List UInt8)
  | lcdClear
  | lcdRefresh
  | lcdPixel (x y value : UInt8)
  | lcdText (row column : UInt8) (text : String)
  | ledSet (led value : UInt8)
  /-- Makes a light change every so many ticks; no ticks stop it. -/
  | ledBlink (led period : UInt8)
  | buttons
  | uartTransfer (data : List UInt8)
  | i2cRead (device : UInt8) (register : List UInt8) (length : Nat)
  | i2cWrite (device : UInt8) (register : List UInt8) (data : List UInt8)
  /-- Sets the clock, in kilohertz, and the mode of the SPI bus. -/
  | spiConfig (clock : UInt16) (mode : UInt8)
  | spiTransfer (data : List UInt8)
deriving DecidableEq, Repr

inductive Reply where
  | done
  | data (bytes : List UInt8)
  | pressed (buttons : Buttons)
deriving DecidableEq, Repr

namespace Call

def kind : Call → CommandKind
  | raw kind _ => kind
  | lcdClear | lcdRefresh | lcdPixel .. | lcdText .. => .lcd
  | ledSet .. | ledBlink .. => .led
  | buttons => .buttons
  | uartTransfer _ => .uart
  | i2cRead .. | i2cWrite .. => .i2c
  | spiConfig .. | spiTransfer _ => .spi

/-- Refuses with `why` unless a condition holds. -/
def require (condition : Bool) (why : Refusal) : Except Refusal Unit :=
  if condition then .ok () else .error why

/-- The bytes that follow the kind of the command in the payload of a call. -/
def arguments : Call → Except Refusal (List UInt8)
  | raw _ data => return data
  | lcdClear => return [LcdOperation.clear.code]
  | lcdRefresh => return [LcdOperation.refresh.code]
  | lcdPixel x y value => do
    require (x < lcdWidth && y < lcdHeight) .pixelOutside
    return [LcdOperation.pixel.code, x, y, value]
  | lcdText row column text => do
    let characters := text.toList
    require (characters.all (·.toNat < 128)) .textNotAscii
    require (characters.length ≤ Frame.maxPayload - 5) .longText
    return [LcdOperation.text.code, row, column, UInt8.ofNat characters.length] ++
      asciiBytes characters
  | ledSet led value => do
    require (leds.contains led) .unknownLed
    return [LedOperation.set.code, led, value]
  | ledBlink led period => do
    require (leds.contains led) .unknownLed
    return [LedOperation.blink.code, led, period]
  | buttons => return []
  | uartTransfer data => return data
  | i2cRead device register length => do
    require (register.length ≤ maxRegister) .longRegister
    require (length ≤ maxLength) .longI2cRead
    return [I2cOperation.read.code, device, UInt8.ofNat register.length] ++ register ++
      [UInt8.ofNat length]
  | i2cWrite device register data => do
    require (register.length ≤ maxRegister) .longRegister
    require (data.length ≤ maxLength) .longI2cWrite
    return [I2cOperation.write.code, device, UInt8.ofNat register.length] ++ register ++
      UInt8.ofNat data.length :: data
  | spiConfig clock mode => do
    require (minSpiClock ≤ clock && clock ≤ maxSpiClock) .spiClock
    require (mode ≤ 3) .spiMode
    return [SpiOperation.config.code, UInt8.ofNat (clock.toNat / 256), UInt8.ofNat clock.toNat,
      mode]
  | spiTransfer data => do
    require (data.length ≤ maxLength) .longSpi
    return [SpiOperation.transfer.code, UInt8.ofNat data.length] ++ data

/-- What a call yields when the badge answers success with these data. -/
def decode : Call → List UInt8 → Except LinkError Reply
  | raw .., data | uartTransfer _, data | i2cRead .., data | spiTransfer _, data =>
    return .data data
  | buttons, data =>
    match data with
    | b :: _ => return .pressed (.ofByte b)
    | [] => throw (.frameLength 1 0)
  | _, _ => return .done

end Call

end Badge

end BadgeLink
