import BadgeLink.Badge.Call
import BadgeLink.Link.Record
import BadgeLink.Channel
import BadgeLink.Text.Decimal

/-!
# Invocations

What a command line asks for, and how it is read. Options stand before the command, each at most
once, with their value after an equals sign or as the next argument; where another option follows
instead of a value, the default stands. The arguments of a command are read in order; two dashes end
its flags. A command line that is not well formed asks for nothing.
-/

namespace BadgeLink.Console

/-- What is done with a badge. -/
inductive BadgeAction where
  /-- Nothing but the reset that every action starts with. -/
  | reset
  | call (c : Badge.Call)
deriving DecidableEq, Repr

inductive Command where
  /-- Programs a file, over a port of its own if one is given. -/
  | program (firmware : String) (device : Option String) (verify launch : Bool)
  | info
  | badge (action : BadgeAction)
deriving DecidableEq, Repr

/-- What a command line asks for. -/
structure Invocation where
  command : Command
  port : String := "/dev/ttyACM0"
  baud : Nat := 115200
  options : Options := {}
  threshold : Option Level := some .info
deriving DecidableEq, Repr

/-- An argument, by its shape. -/
inductive Argument where
  | separator
  | long (name : String) (value : Option String)
  | short
  /-- Anything else, a lone dash included. -/
  | plain (text : String)
deriving DecidableEq, Repr

/-- The shape of an argument. -/
def Argument.ofString (s : String) : Argument :=
  match s.toList with
  | ['-', '-'] => .separator
  | '-' :: '-' :: rest =>
    let body := rest.dropWhile (· == '-')
    let name := String.ofList (body.takeWhile (· != '='))
    match body.dropWhile (· != '=') with
    | [] => .long name none
    | value => .long name (some (String.ofList (value.dropWhile (· == '='))))
  | '-' :: _ :: _ => .short
  | _ => .plain s

def optionNames : List String :=
  ["port", "baud", "response-timeout-ms", "poll-delay-ms", "read-timeout-ms", "log-level"]

/-- Options with their values, in addition to those in `given`, and the arguments after them. -/
def readOptions (given : List (String × Option String)) :
    List String → Option (List (String × Option String) × List String)
  | [] => some (given, [])
  | a :: rest =>
    match Argument.ofString a with
    | .long name value => do
      guard (optionNames.contains name && (given.lookup name).isNone)
      match value, rest with
      | none, b :: rest =>
        match Argument.ofString b with
        | .plain value => readOptions ((name, some value) :: given) rest
        | _ => readOptions ((name, none) :: given) (b :: rest)
      | value, rest => readOptions ((name, value) :: given) rest
    | .plain _ => some (given, a :: rest)
    | _ => none

/-- The flags and the positional arguments of a command that knows certain flags. -/
def readArguments (known : List String) (flags positional : List String) :
    List String → Option (List String × List String)
  | [] => some (flags, positional.reverse)
  | a :: rest =>
    match Argument.ofString a with
    | .separator => some (flags, positional.reverse ++ rest)
    | .long name _ => do
      guard (known.contains name && !flags.contains name)
      readArguments known (name :: flags) positional rest
    | .short => none
    | .plain text => readArguments known flags (text :: positional) rest

def byte? (s : String) : Option UInt8 :=
  (Decimal.read? 0x100 s).map UInt8.ofNat

def halfWord? (s : String) : Option UInt16 :=
  (Decimal.read? 0x10000 s).map UInt16.ofNat

def word? (s : String) : Option UInt32 :=
  (Decimal.read? 0x100000000 s).map UInt32.ofNat

/-- A byte string as an argument, in hexadecimal. -/
def bytes? (s : String) : Option (List UInt8) :=
  Hex.toBytes? s.toList

/-- A threshold for the log as an argument, in either case. -/
def threshold? (s : String) : Option (Option Level) :=
  match String.ofList (s.toList.map Char.toLower) with
  | "off" => some none
  | "error" => some (some .error)
  | "warn" => some (some .warn)
  | "info" => some (some .info)
  | "debug" => some (some .debug)
  | "trace" => some (some .trace)
  | _ => none

/-- The action that the arguments after `badge` ask for. -/
def badgeAction? : List String → Option BadgeAction
  | [] => none
  | name :: rest => do
    let (_, arguments) ← readArguments [] [] [] rest
    match name, arguments with
    | "reset", [] => return .reset
    | "buttons", [] => return .call .buttons
    | "lcd-clear", [] => return .call .lcdClear
    | "lcd-refresh", [] => return .call .lcdRefresh
    | "lcd-pixel", [x, y, value] => return .call (.lcdPixel (← byte? x) (← byte? y) (← byte? value))
    | "lcd-text", [row, column, text] =>
      return .call (.lcdText (← byte? row) (← byte? column) text)
    | "led", [led, value] => return .call (.ledSet (← byte? led) (← byte? value))
    | "blink", [led, period] => return .call (.ledBlink (← byte? led) (← byte? period))
    | "uart", [data] => return .call (.uartTransfer (← bytes? data))
    | "i2c-read", [device, register, length] =>
      return .call (.i2cRead (← byte? device) (registerAddress (← word? register))
        (← Decimal.read? Size.bound length))
    | "i2c-write", [device, register, data] =>
      return .call (.i2cWrite (← byte? device) (registerAddress (← word? register))
        (← bytes? data))
    | "spi-config", [clock, mode] => return .call (.spiConfig (← halfWord? clock) (← byte? mode))
    | "spi-transfer", [data] => return .call (.spiTransfer (← bytes? data))
    | _, _ => none

/-- The command that the arguments after the options ask for. -/
def command? : List String → Option Command
  | "program" :: rest => do
    let (flags, arguments) ← readArguments ["no-verify", "no-run"] [] [] rest
    let verify := !flags.contains "no-verify"
    let launch := !flags.contains "no-run"
    match arguments with
    | [firmware] => return .program firmware none verify launch
    | [firmware, device] => return .program firmware (some device) verify launch
    | _ => none
  | "info" :: rest => do
    let (_, []) ← readArguments [] [] [] rest | none
    return .info
  | "badge" :: rest => (badgeAction? rest).map .badge
  | _ => none

/-- What a command line asks for, if it is well formed. -/
def invocation? (arguments : List String) : Option Invocation := do
  let (given, rest) ← readOptions [] arguments
  let command ← command? rest
  let option {α : Type} (name : String) (read? : String → Option α) (default : α) : Option α :=
    match (given.lookup name).join with
    | some value => read? value
    | none => some default
  let d : Invocation := { command }
  return {
    command
    port := ← option "port" some d.port
    baud := ← option "baud" (Decimal.read? Size.bound) d.baud
    options := {
      responseTimeout := ← option "response-timeout-ms" word? d.options.responseTimeout
      pollDelay := ← option "poll-delay-ms" word? d.options.pollDelay
      readTimeout := ← option "read-timeout-ms" word? d.options.readTimeout }
    threshold := ← option "log-level" threshold? d.threshold }

end BadgeLink.Console
