import BadgeLink.Word

/-!
# Commands of the boot monitor

The monitor in the chip's boot memory takes commands of a letter, arguments as words of eight
hexadecimal digits with commas between them, and a closing hash sign.
-/

namespace BadgeLink

/-- The byte string of ASCII characters. -/
def asciiBytes (cs : List Char) : List UInt8 :=
  cs.map fun c => UInt8.ofNat c.toNat

namespace Monitor

/-- The commands of the monitor. -/
inductive Command where
  | normalMode
  | readWord (address : UInt32)
  | writeWord (address value : UInt32)
  | go (address : UInt32)
deriving DecidableEq, Repr

/-- The bytes of a command as they travel. -/
def Command.bytes : Command → List UInt8
  | normalMode => asciiBytes ['N', '#']
  | readWord address => asciiBytes ('w' :: Hex.digits 8 address.toNat ++ [',', '#'])
  | writeWord address value =>
    asciiBytes ('W' :: Hex.digits 8 address.toNat ++ ',' :: Hex.digits 8 value.toNat ++ ['#'])
  | go address => asciiBytes ('G' :: Hex.digits 8 address.toNat ++ ['#'])

/-- What the monitor answers to the switch to binary mode. -/
def acknowledgement : List UInt8 := [0x0a, 0x0d]

def cidrAddress : UInt32 := 0x400e0740

def exidAddress : UInt32 := 0x400e0744

end Monitor

end BadgeLink
