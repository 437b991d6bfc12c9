import BadgeLink.Link.Basic
import BadgeLink.Text.Decimal

/-!
# The console

The interface between the command line program and its host: the serial port with its set-up, the
files, the time of day, and two streams of lines for people.
-/

namespace BadgeLink

namespace Console

/-- The settings of a serial port that sends eight data bits and one stop bit, without parity and
without flow control. -/
structure LineSettings where
  baud : Nat
deriving DecidableEq, Repr

def LineSettings.text (s : LineSettings) : String :=
  s!"{s.baud} Bits8 ParityNone Stop1 FlowNone"

/-- Why a serial port could not be set up. -/
structure SetupFault where
  kind : String
  message : String
deriving DecidableEq, Repr

/-- The fault of the port that a fault of its set-up amounts to. -/
def SetupFault.toPortFault (f : SetupFault) : PortFault :=
  if f.kind = "NoDevice" then ⟨"NotFound"⟩ else ⟨f.kind⟩

/-- Why a file could not be read. -/
inductive FileFault where
  | notFound
  | isDirectory
  | notDirectory
  | nameTooLong
  | tooManyLinks
  | permissionDenied
  | inputOutput
  | invalidArgument
  | noDevice
  | other (message : String)
deriving DecidableEq, Repr

def FileFault.message : FileFault → String
  | notFound => "No such file or directory (os error 2)"
  | isDirectory => "Is a directory (os error 21)"
  | notDirectory => "Not a directory (os error 20)"
  | nameTooLong => "File name too long (os error 36)"
  | tooManyLinks => "Too many levels of symbolic links (os error 40)"
  | permissionDenied => "Permission denied (os error 13)"
  | inputOutput => "Input/output error (os error 5)"
  | invalidArgument => "Invalid argument (os error 22)"
  | noDevice => "No such device or address (os error 6)"
  | other message => message

/-- Why a command failed. -/
inductive Error where
  | link (e : LinkError)
  | setup (f : SetupFault)
  | unreadable (path : String) (f : FileFault)
  | imageTooLarge (path : String) (capacity : Nat)
deriving DecidableEq, Repr

def Error.message : Error → String
  | link e => e.message
  | setup f => f.message
  | unreadable path f => s!"Can't load file: {path} : {f.message}"
  | imageTooLarge path capacity =>
    s!"Image size in {path} is larger than the Flash size of the microcontroller " ++
      s!"({ByteSize.text capacity})"

inductive Request where
  /-- A request to the link; the port is open. -/
  | port (q : Link.Request)
  | openPort (path : String)
  | readSettings
  | setBaud (baud : Nat)
  | writeSettings (s : LineSettings)
  | setReadTimeout (milliseconds : UInt32)
  | readFile (path : String)
  /-- Asks for the seconds since midnight. -/
  | timeOfDay
  | print (line : String)
  | complain (line : String)
deriving DecidableEq, Repr

@[reducible] def Answer : Request → Type
  | .port q => Link.Answer q
  | .openPort _ | .readSettings | .setBaud _ | .writeSettings _ | .setReadTimeout _ =>
    Except SetupFault Unit
  | .readFile _ => Except FileFault (List UInt8)
  | .timeOfDay => Nat
  | .print _ | .complain _ => Unit

@[reducible] def interface : Interface := ⟨Request, Answer⟩

end Console

/-- A program that works for a person at a command line. -/
abbrev Console (α : Type) : Type := Dialogue Console.interface Console.Error α

namespace Console

def port (q : Link.Request) : Console (Link.Answer q) :=
  .ask (.port q : Request) fun a => .done (.ok a)

def openPort (path : String) : Console (Except SetupFault Unit) :=
  .ask (.openPort path : Request) fun a => .done (.ok a)

def readSettings : Console (Except SetupFault Unit) :=
  .ask (.readSettings : Request) fun a => .done (.ok a)

def setBaud (baud : Nat) : Console (Except SetupFault Unit) :=
  .ask (.setBaud baud : Request) fun a => .done (.ok a)

def writeSettings (s : LineSettings) : Console (Except SetupFault Unit) :=
  .ask (.writeSettings s : Request) fun a => .done (.ok a)

def setReadTimeout (milliseconds : UInt32) : Console (Except SetupFault Unit) :=
  .ask (.setReadTimeout milliseconds : Request) fun a => .done (.ok a)

def readFile (path : String) : Console (Except FileFault (List UInt8)) :=
  .ask (.readFile path : Request) fun a => .done (.ok a)

def timeOfDay : Console Nat :=
  .ask (.timeOfDay : Request) fun t => .done (.ok t)

def print (line : String) : Console Unit :=
  .ask (.print line : Request) fun _ => .done (.ok ())

def complain (line : String) : Console Unit :=
  .ask (.complain line : Request) fun _ => .done (.ok ())

end Console

end BadgeLink
