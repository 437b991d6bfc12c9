import BadgeLink.Badge.Client
import BadgeLink.Programmer.Run

/-!
# Sessions

A channel belongs to one client at a time. A session holds that client and takes steps: a step
either performs an operation of the client held, or hands the channel on to another client. A
client that fails to open takes the channel with it, so nothing is held afterwards.
-/

namespace BadgeLink

namespace Session

/-- The client that a session holds. -/
inductive Client where
  | none
  | channel (c : Channel)
  | monitor (m : Monitor)
  | controller (c : Flash.Controller)
  | programmer (p : Programmer)
  | badge (b : Badge)
deriving DecidableEq, Repr

/-- The steps of a session. -/
inductive Step where
  | openMonitor
  | openBadge
  | reopen (options : Options)
  | openController (base flashBase : UInt32) (pollLimit : Option UInt32)
  | openProgrammer (target : Target)
  /-- Gives the channel, or the monitor of a flash controller, back. -/
  | release
  | channel (op : Channel.Operation)
  | monitor (op : Monitor.Operation)
  | controller (op : Flash.Controller.Operation)
  | flash
  | target
  | install (image : List UInt8) (verify : Bool)
  | launch
  | setResetInterval (milliseconds : UInt32)
  | reset
  | call (c : Badge.Call)
deriving DecidableEq, Repr

/-- What a step yields. -/
inductive Value where
  | done
  | flag (b : Bool)
  | number (n : Nat)
  | data (bytes : List UInt8)
  | pair (a b : Nat)
  | flash (d : Flash.Descriptor)
  | target (t : Target)
  | buttons (b : Buttons)
deriving DecidableEq, Repr

def Value.ofChannel : Channel.Answer → Value
  | .done => .done
  | .received bytes => .data bytes
  | .drained count => .number count

def Value.ofMonitor : Monitor.Answer → Value
  | .done => .done
  | .entered acknowledged => .flag acknowledged
  | .word value => .number value.toNat
  | .block bytes => .data bytes
  | .chipId cidr exid => .pair cidr.toNat exid.toNat

def Value.ofController : Flash.Controller.Answer → Value
  | .done => .done
  | .flash d => .flash d
  | .page bytes => .data bytes
  | .bits value => .number value.toNat

def Value.ofReply : Badge.Reply → Value
  | .done => .done
  | .data b => .data b
  | .pressed b => .buttons b

/-- A step as the client held takes it. -/
structure Turn where
  /-- The work, which yields a value and the client held afterwards. -/
  work : Link (Value × Client)
  /-- The client held if the work fails. -/
  onError : Client

/-- A step that leaves the client as it is. -/
def Turn.keep {α : Type} (client : Client) (work : Link α) (value : α → Value) : Turn where
  work := do
    let a ← work
    return (value a, client)
  onError := client

/-- A step that hands over to another client at once. -/
def Turn.hand (client : Client) : Turn where
  work := return (.done, client)
  onError := client

/-- A step that opens a client, or fails and leaves none. -/
def Turn.open (work : Link (Value × Client)) : Turn where
  work := work
  onError := .none

/-- The turn that a client takes for a step, if the step applies to it. -/
def turn? : Client → Step → Option Turn
  | .channel c, .openMonitor => some (.hand (.monitor { channel := c }))
  | .channel c, .openBadge => some (.hand (.badge { channel := c }))
  | .channel c, .reopen options => some (.hand (.channel { c with options }))
  | .channel c, .openProgrammer target => some <| .open do
    let p ← Programmer.connect c target
    return (.flash p.flash, .programmer p)
  | .channel c, .channel op => some (.keep (.channel c) (c.perform op) .ofChannel)
  | .monitor m, .release => some (.hand (.channel m.channel))
  | .monitor m, .openController base flashBase pollLimit => some <| .open do
    let c ← Flash.Controller.connect m base flashBase pollLimit
    return (.flash c.flash, .controller c)
  | .monitor m, .monitor op => some (.keep (.monitor m) (m.perform op) .ofMonitor)
  | .controller c, .release => some (.hand (.monitor c.monitor))
  | .controller c, .monitor op => some (.keep (.controller c) (c.monitor.perform op) .ofMonitor)
  | .controller c, .controller op => some (.keep (.controller c) (c.perform op) .ofController)
  | .controller c, .flash => some (.keep (.controller c) (return c.flash) .flash)
  | .programmer p, .release => some (.hand (.channel p.controller.monitor.channel))
  | .programmer p, .flash => some (.keep (.programmer p) (return p.flash) .flash)
  | .programmer p, .target => some (.keep (.programmer p) (return p.target) .target)
  | .programmer p, .install image verify =>
    some (.keep (.programmer p) (p.install image verify) fun _ => .done)
  | .programmer p, .launch => some (.keep (.programmer p) p.launch fun _ => .done)
  | .badge b, .release => some (.hand (.channel b.channel))
  | .badge b, .setResetInterval resetInterval => some (.hand (.badge { b with resetInterval }))
  | .badge b, .reset => some (.keep (.badge b) b.reset fun _ => .done)
  | .badge b, .call c => some (.keep (.badge b) (b.call c) .ofReply)
  | _, _ => none

/-- Takes a step against a device: its outcome, the client held afterwards and the state of the
device, or nothing if the step does not apply to the client held. -/
def play {σ : Type} (d : Device Link.interface σ) (client : Client) (step : Step) (s : σ) :
    Option (Outcome LinkError Value × Client × σ) :=
  (turn? client step).map fun turn =>
    match turn.work.run d s with
    | (.ok (value, next), s) => (.ok value, next, s)
    | (.error e, s) => (.error e, turn.onError, s)
    | (.crash c, s) => (.crash c, turn.onError, s)

end Session

end BadgeLink
