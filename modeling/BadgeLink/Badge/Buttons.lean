/-!
# Buttons

The four buttons of the badge, as the set of those that are pressed.
-/

namespace BadgeLink

/-- The buttons of the badge. -/
inductive Button where
  | right
  | left
  | down
  | up
deriving DecidableEq, Repr

namespace Button

def all : List Button := [right, left, down, up]

def bit : Button → UInt8
  | right => 1
  | left => 2
  | down => 4
  | up => 8

def name : Button → String
  | right => "RIGHT"
  | left => "LEFT"
  | down => "DOWN"
  | up => "UP"

end Button

/-- A set of buttons. -/
structure Buttons where
  bits : UInt8
deriving DecidableEq, Repr

namespace Buttons

/-- The buttons whose bits are set in a byte; bits that stand for no button are dropped. -/
def ofByte (b : UInt8) : Buttons :=
  ⟨b &&& 0x0f⟩

def toList (b : Buttons) : List Button :=
  Button.all.filter fun button => b.bits &&& button.bit != 0

/-- The names of the buttons in the set; the empty set is shown by its bits. -/
def text (b : Buttons) : String :=
  match b.toList with
  | [] => "Buttons(0x0)"
  | pressed => "Buttons(" ++ " | ".intercalate (pressed.map Button.name) ++ ")"

end Buttons

end BadgeLink
