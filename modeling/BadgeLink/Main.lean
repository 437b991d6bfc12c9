import BadgeLink.Console.Run

/-!
# The program

Runs the command line program on the machine: the serial port is a device file, which is read in
the background so that a read can be given up, and the progress is shown on the standard error. The
device file is used with the line settings it has.
-/

namespace BadgeLink.Machine

open Console (SetupFault FileFault)

/-- A serial port of the machine. -/
structure Port where
  input : IO.FS.Handle
  output : IO.FS.Handle
  /-- The read that has not delivered its byte, if there is one. -/
  pending : Option (Task (Except IO.Error ByteArray)) := none

/-- What the program keeps while it runs. -/
structure State where
  /-- The port, once it is open. -/
  port : Option Port := none
  /-- How long a read waits, in milliseconds. -/
  readTimeout : Nat := 0

/-- A fault of the machine as a fault of the port. -/
def portFault (e : IO.Error) : PortFault := ⟨toString e⟩

/-- A fault of the machine as a fault of the set-up of the port. -/
def setupFault (e : IO.Error) : SetupFault :=
  match e with
  | .noFileOrDirectory .. => ⟨"NoDevice", toString e⟩
  | _ => ⟨"Other", toString e⟩

/-- The code of a fault as the machine numbers it; some faults carry its negation. -/
def faultCode (code : UInt32) : UInt32 :=
  if code < 0x80000000 then code else -code

/-- A fault of the machine as a fault of a file. -/
def fileFault (e : IO.Error) : FileFault :=
  match e with
  | .noFileOrDirectory .. => .notFound
  | .inappropriateType _ code _ => if faultCode code = 20 then .notDirectory else .isDirectory
  | .invalidArgument _ code _ =>
    if faultCode code = 36 then .nameTooLong
    else if faultCode code = 40 then .tooManyLinks
    else .invalidArgument
  | .permissionDenied .. => .permissionDenied
  | .hardwareFault .. => .inputOutput
  | .noSuchThing .. => .noDevice
  | _ => .other (toString e)

/-- Waits for a task, at most so many milliseconds; tells whether it is complete. -/
def waitFor (task : Task (Except IO.Error ByteArray)) : Nat → BaseIO Bool
  | 0 => IO.hasFinished task
  | n + 1 => do
    if ← IO.hasFinished task then
      return true
    IO.sleep 1
    waitFor task n

/-- Reads a byte, if one arrives before the read is given up. -/
def read (state : IO.Ref State) : IO Reading := do
  let s ← state.get
  let some port := s.port | return .fault ⟨"NotConnected"⟩
  let task ←
    match port.pending with
    | some task => pure task
    | none => IO.asTask (port.input.read 1)
  if ← waitFor task s.readTimeout then
    state.set { s with port := some { port with pending := none } }
    match task.get with
    | .ok bytes =>
      match bytes.toList with
      | b :: _ => return .byte b
      | [] => return .idle
    | .error e => return .fault (portFault e)
  else
    state.set { s with port := some { port with pending := some task } }
    return .idle

/-- Hands bytes to the port or has it send them. -/
def act (state : IO.Ref State) (action : IO.FS.Handle → IO Unit) : IO Acceptance := do
  let some port := (← state.get).port | return .fault ⟨"NotConnected"⟩
  try
    action port.output
    return .done
  catch e => return .fault (portFault e)

/-- Answers a request of a client. -/
def answerLink (state : IO.Ref State) : (q : Link.Request) → IO (Link.Answer q)
  | .read => read state
  | .write b => act state fun h => h.write (ByteArray.mk #[b])
  | .flush => act state fun h => h.flush
  | .pause milliseconds => IO.sleep milliseconds
  | .now => do return (← IO.monoNanosNow) / 1000
  | .note r => IO.eprintln r.line
  | .report p => do
    let done := if p.stage = .erasing then p.page else p.page + 1
    IO.eprintln s!"{p.stage.name}: {done}/{p.total}"

/-- Answers a request of the program. -/
def answer (state : IO.Ref State) : (q : Console.Request) → IO (Console.Answer q)
  | .port q => answerLink state q
  | .openPort path => do
    try
      let input ← IO.FS.Handle.mk path .read
      let output ← IO.FS.Handle.mk path .write
      state.modify fun s => { s with port := some { input, output } }
      return .ok ()
    catch e => return .error (setupFault e)
  | .readSettings | .setBaud _ | .writeSettings _ => return .ok ()
  | .setReadTimeout milliseconds => do
    state.modify fun s => { s with readTimeout := milliseconds.toNat }
    return .ok ()
  | .readFile path => do
    try
      return .ok (← IO.FS.readBinFile path).toList
    catch e => return .error (fileFault e)
  | .timeOfDay => do return (← IO.monoMsNow) / 1000 % 86400
  | .print line => IO.println line
  | .complain line => IO.eprintln line

end BadgeLink.Machine

/-- Runs the command line program and yields its exit code. -/
def main (arguments : List String) : IO UInt32 := do
  let state ← IO.mkRef ({} : BadgeLink.Machine.State)
  let outcome ← (BadgeLink.Console.main arguments).runM (BadgeLink.Machine.answer state)
  if let .crash c := outcome then
    IO.eprintln c.message
  return BadgeLink.Console.exitCode outcome
