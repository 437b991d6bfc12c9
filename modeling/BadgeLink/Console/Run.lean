import BadgeLink.Badge.Client
import BadgeLink.Console.Basic
import BadgeLink.Console.Invocation
import BadgeLink.Programmer.Run

/-!
# The command line program

What each command does. Log records that pass the threshold are shown as lines with the time of
day, errors on the standard error and the others on the standard output. A port fault that only
says that the port is not ready yet is not a fault to the clients: they try again.
-/

namespace BadgeLink.Console

/-- A time of day in hours, minutes and seconds. -/
def clockText (seconds : Nat) : String :=
  let two (n : Nat) : String := if n < 10 then s!"0{n}" else s!"{n}"
  s!"{two (seconds / 3600)}:{two (seconds / 60 % 60)}:{two (seconds % 60)}"

/-- Shows a log record if it passes the threshold. -/
def log (threshold : Option Level) (level : Level) (text : String) : Console Unit :=
  if level.passes threshold then do
    let seconds ← timeOfDay
    let line := s!"{clockText seconds} [{level.name}] {text}"
    if level = .error then complain line else print line
  else return

/-- Whether a port fault says only that the port is not ready yet. -/
def isTransient (f : PortFault) : Bool :=
  ["WouldBlock", "TimedOut", "Interrupted"].contains f.name

/-- A reading in which transient faults count as nothing read. -/
def settleReading : Reading → Reading
  | .fault f => if isTransient f then .idle else .fault f
  | r => r

/-- An acceptance in which transient faults count as refusals for the time being. -/
def settleAcceptance : Acceptance → Acceptance
  | .fault f => if isTransient f then .busy else .fault f
  | r => r

/-- Answers a request of a client: log records are shown, and all other requests go to the port. -/
def answer (threshold : Option Level) : (q : Link.Request) → Console (Link.Answer q)
  | .read => do return settleReading (← port .read)
  | .write b => do return settleAcceptance (← port (.write b))
  | .flush => do return settleAcceptance (← port .flush)
  | .pause milliseconds => port (.pause milliseconds)
  | .now => port .now
  | .note r => log threshold r.level r.text
  | .report p => port (.report p)

/-- Runs a client on the port. -/
def onPort {α : Type} (threshold : Option Level) (work : Link α) : Console α :=
  work.translate (answer threshold) .link

/-- Fails if a step of the set-up of the port failed. -/
def demand (step : Console (Except SetupFault Unit)) : Console Unit := do
  match ← step with
  | .ok () => return
  | .error f => throw (.setup f)

/-- Opens the serial port at a path and sets it up. -/
def openChannel (i : Invocation) (path : String) : Console Channel := do
  demand (openPort path)
  demand readSettings
  demand (setBaud i.baud)
  demand (writeSettings ⟨i.baud⟩)
  demand (setReadTimeout i.options.readTimeout)
  return { options := i.options }

/-- Connects to the chip behind the serial port at a path. -/
def openProgrammer (i : Invocation) (path : String) : Console Programmer := do
  let channel ←
    try openChannel i path
    catch
      | .setup f => do
        log i.threshold .error s!"Error opening serial port: {f.message}"
        throw (.link (.port f.toPortFault))
      | e => throw e
  onPort i.threshold (Programmer.connect channel .badge)

/-- Programs a file, and runs it if asked to. -/
def program (i : Invocation) (path firmware : String) (verify launch : Bool) : Console Unit := do
  log i.threshold .info "Connecting to bootloader"
  let p ← openProgrammer i path
  let image ←
    match ← readFile firmware with
    | .ok image => pure image
    | .error f => throw (.unreadable firmware f)
  if p.flash.size.toNat < image.length then
    throw (.imageTooLarge firmware p.flash.size.toNat)
  print s!"Programming: {firmware} [{ByteSize.text image.length}]"
  onPort i.threshold (p.install image verify)
  if launch then
    print "Programming complete, running the program."
    onPort i.threshold p.launch
  else
    print "Programming complete."

def info (i : Invocation) : Console Unit := do
  log i.threshold .info "Connecting to bootloader"
  let p ← openProgrammer i i.port
  print s!"Chip: {p.target.name}"
  print s!"Flash {p.flash.text}"
  print s!"Lock regions: {p.flash.locks.length}"

/-- Whether a call draws on the display, which is refreshed afterwards. -/
def draws : Badge.Call → Bool
  | .lcdClear | .lcdPixel .. | .lcdText .. => true
  | _ => false

/-- Shows what a call yields. -/
def showReply : Badge.Reply → Console Unit
  | .done => return
  | .data bytes => print (Hex.ofBytes bytes)
  | .pressed buttons => print buttons.text

/-- Drives a badge, after a reset. -/
def badge (i : Invocation) (action : BadgeAction) : Console Unit := do
  let channel ← openChannel i i.port
  let b : Badge := { channel }
  onPort i.threshold b.reset
  match action with
  | .reset => log i.threshold .info "Command interface reset"
  | .call c =>
    let reply ← onPort i.threshold (b.call c)
    if draws c then
      discard <| onPort i.threshold (b.call .lcdRefresh)
    showReply reply

def execute (i : Invocation) : Console Unit :=
  match i.command with
  | .program firmware device verify launch =>
    program i (device.getD i.port) firmware verify launch
  | .info => info i
  | .badge action => badge i action

/-- The exit code of a command that was carried out. -/
def succeeded : UInt32 := 0

/-- The exit code of a command line that is not well formed. -/
def misused : UInt32 := 1

/-- The exit code of a run that crashed. -/
def crashed : UInt32 := 101

/-- The exit code of a command that failed. -/
def failed : UInt32 := 255

/-- What is printed for a command line that is not well formed. -/
def usage : String :=
  "usage: [--port PATH] [--baud N] [--response-timeout-ms N] [--poll-delay-ms N] " ++
    "[--read-timeout-ms N] [--log-level LEVEL] program|info|badge ..."

/-- Does what the command line asks for; yields the exit code. -/
def main (arguments : List String) : Console UInt32 := do
  match invocation? arguments with
  | none =>
    complain usage
    return misused
  | some i =>
    match ← (execute i).attempt with
    | .ok () => return succeeded
    | .error e =>
      log i.threshold .error e.message
      print s!"Error occurred: {e.message}"
      return failed

/-- The exit code of a run of `main`. -/
def exitCode : Outcome Error UInt32 → UInt32
  | .ok code => code
  | .error _ => failed
  | .crash _ => crashed

end BadgeLink.Console
