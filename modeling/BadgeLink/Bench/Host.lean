import BadgeLink.Bench.Folder
import BadgeLink.Bench.Script

/-!
# Simulated hosts

A host for the command line program: a scripted serial port whose set-up can be made to fail, a
working directory with files, and a clock that starts at midnight.
-/

namespace BadgeLink

open Console (SetupFault LineSettings)

/-- The calls that set up a serial port. -/
inductive SetupCall where
  | openPort
  | readSettings
  | setBaud
  | writeSettings
  | setReadTimeout
deriving DecidableEq, Repr

structure Host where
  bench : Bench Script
  folder : Folder := {}
  failure : Option (SetupCall × SetupFault) := none
  /-- The path of the port, once it was asked for. -/
  path : Option String := none
  /-- The settings of the port, once they were written. -/
  settings : Option LineSettings := none
  /-- The time that a read waits, in milliseconds, once it was set. -/
  readTimeout : Option UInt32 := none
  /-- The lines on the standard output, latest first. -/
  output : List String := []

namespace Host

def setup (h : Host) (call : SetupCall) : Except SetupFault Unit :=
  match h.failure with
  | some (place, fault) => if place = call then .error fault else .ok ()
  | none => .ok ()

/-- The surroundings that a host plays; its port keeps the pace of a scripted port. -/
def device (pace : Pace) : Device Console.interface Host where
  respond h
    | .port q =>
      let (a, bench) := (Bench.device Script.port pace).respond h.bench q
      (a, { h with bench })
    | .openPort path => (.ok (h.setup .openPort), { h with path := some path })
    | .readSettings => (.ok (h.setup .readSettings), h)
    | .setBaud _ => (.ok (h.setup .setBaud), h)
    | .writeSettings settings =>
      match h.setup .writeSettings with
      | .ok () => (.ok (.ok ()), { h with settings := some settings })
      | .error f => (.ok (.error f), h)
    | .setReadTimeout milliseconds =>
      match h.setup .setReadTimeout with
      | .ok () => (.ok (.ok ()), { h with readTimeout := some milliseconds })
      | .error f => (.ok (.error f), h)
    | .readFile path => (.ok (h.folder.read path), h)
    | .timeOfDay => (.ok (h.bench.clock / 1000000 % 86400), h)
    | .print line => (.ok (), { h with output := line :: h.output })
    | .complain _ => (.ok (), h)

def outputText (h : Host) : String :=
  String.join (h.output.reverse.map (· ++ "\n"))

end Host

end BadgeLink
