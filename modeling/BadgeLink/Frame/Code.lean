/-!
# Codes of the badge protocol

The first byte of a payload: the kind of a command or of a response. The second byte of most
commands selects an operation of the peripheral.
-/

namespace BadgeLink

/-- The kinds of command. -/
inductive CommandKind where
  | reset
  | uart
  | i2c
  | spi
  /-- Accesses the pins; badges do not handle it. -/
  | pio
  | led
  | lcd
  | buttons
  /-- Reads an analogue input; badges do not handle it. -/
  | adc
  /-- Drives an analogue output; badges do not handle it. -/
  | dac
deriving DecidableEq, Repr

namespace CommandKind

def all : List CommandKind :=
  [reset, uart, i2c, spi, pio, led, lcd, buttons, adc, dac]

def code : CommandKind → UInt8
  | reset => 0x00
  | uart => 0x01
  | i2c => 0x02
  | spi => 0x03
  | pio => 0x04
  | led => 0x05
  | lcd => 0x06
  | buttons => 0x07
  | adc => 0x08
  | dac => 0x09

def name : CommandKind → String
  | reset => "Reset"
  | uart => "Uart"
  | i2c => "I2c"
  | spi => "Spi"
  | pio => "Pio"
  | led => "Led"
  | lcd => "Lcd"
  | buttons => "Btn"
  | adc => "Adc"
  | dac => "Dac"

def ofName? (s : String) : Option CommandKind :=
  all.find? (·.name == s)

end CommandKind

/-- The kinds of response. -/
inductive ResponseKind where
  | null
  | reset
  | ok
  | invalidCommand
  | overflow
  | badChecksum
deriving DecidableEq, Repr

namespace ResponseKind

def all : List ResponseKind :=
  [null, reset, ok, invalidCommand, overflow, badChecksum]

def code : ResponseKind → UInt8
  | null => 0x00
  | reset => 0x01
  | ok => 0x02
  | invalidCommand => 0x03
  | overflow => 0x04
  | badChecksum => 0x05

def name : ResponseKind → String
  | null => "Null"
  | reset => "Reset"
  | ok => "Ok"
  | invalidCommand => "InvalidCmd"
  | overflow => "Overflow"
  | badChecksum => "CrcErr"

def ofCode? (b : UInt8) : Option ResponseKind :=
  all.find? (·.code == b)

end ResponseKind

/-- Operations of the display. -/
inductive LcdOperation where
  | clear
  | refresh
  | pixel
  | text
deriving DecidableEq, Repr

def LcdOperation.all : List LcdOperation := [clear, refresh, pixel, text]

def LcdOperation.code : LcdOperation → UInt8
  | clear => 0x00
  | refresh => 0x01
  | pixel => 0x02
  | text => 0x03

/-- Operations of the lights. -/
inductive LedOperation where
  | set
  | blink
deriving DecidableEq, Repr

def LedOperation.all : List LedOperation := [set, blink]

def LedOperation.code : LedOperation → UInt8
  | set => 0x00
  | blink => 0x01

/-- Operations of the I²C bus. -/
inductive I2cOperation where
  | read
  | write
deriving DecidableEq, Repr

def I2cOperation.all : List I2cOperation := [read, write]

def I2cOperation.code : I2cOperation → UInt8
  | read => 0x00
  | write => 0x01

/-- Operations of the SPI bus. -/
inductive SpiOperation where
  | config
  | transfer
deriving DecidableEq, Repr

def SpiOperation.all : List SpiOperation := [config, transfer]

def SpiOperation.code : SpiOperation → UInt8
  | config => 0x00
  | transfer => 0x01

end BadgeLink
