import BadgeLink.Proofs.Badge.Stale
import BadgeLink.Proofs.Badge.Wire
import BadgeLink.Proofs.Console.Order

/-!
# What the badge command puts on the wire

The command that drives a badge opens the port, resets the badge and makes the calls of its action,
one or two of them. Whatever the badge, the port and the host answer, what it sends are reset
requests and then a first part of the frames of these calls, each of which is begun only after
everything before it has succeeded.

* `BadgeAction.calls` lists the calls of each action, and `Makes` those of each subcommand by its
  name; `makes_of_badgeAction` is their agreement.
* `phases_of_badge` takes a run apart into the reset and the calls.
* `badge_on_wire`: the bytes of a run, and what they say about its end.
-/

namespace BadgeLink.Console

open Dialogue

/-- The calls that an action makes, in their order. -/
def BadgeAction.calls : BadgeAction → List Badge.Call
  | reset => []
  | call (.raw kind data) => [.raw kind data]
  | call .lcdClear => [.lcdClear, .lcdRefresh]
  | call .lcdRefresh => [.lcdRefresh]
  | call (.lcdPixel x y value) => [.lcdPixel x y value, .lcdRefresh]
  | call (.lcdText row column text) => [.lcdText row column text, .lcdRefresh]
  | call (.ledSet led value) => [.ledSet led value]
  | call (.ledBlink led period) => [.ledBlink led period]
  | call .buttons => [.buttons]
  | call (.uartTransfer data) => [.uartTransfer data]
  | call (.i2cRead device register length) => [.i2cRead device register length]
  | call (.i2cWrite device register data) => [.i2cWrite device register data]
  | call (.spiConfig clock mode) => [.spiConfig clock mode]
  | call (.spiTransfer data) => [.spiTransfer data]

/-- What the program draws is refreshed, and nothing else is. -/
theorem calls_call (c : Badge.Call) :
    (BadgeAction.call c).calls = if draws c then [c, .lcdRefresh] else [c] := by
  cases c <;> rfl

/-! ## Subcommands -/

/-- The calls that a subcommand makes, whatever its arguments are. -/
inductive Makes : String → List Badge.Call → Prop
  | reset : Makes "reset" []
  | buttons : Makes "buttons" [.buttons]
  | lcdClear : Makes "lcd-clear" [.lcdClear, .lcdRefresh]
  | lcdRefresh : Makes "lcd-refresh" [.lcdRefresh]
  | lcdPixel (x y value : UInt8) : Makes "lcd-pixel" [.lcdPixel x y value, .lcdRefresh]
  | lcdText (row column : UInt8) (text : String) :
      Makes "lcd-text" [.lcdText row column text, .lcdRefresh]
  | led (led value : UInt8) : Makes "led" [.ledSet led value]
  | blink (led period : UInt8) : Makes "blink" [.ledBlink led period]
  | uart (data : List UInt8) : Makes "uart" [.uartTransfer data]
  | i2cRead (device : UInt8) (register : UInt32) (length : Nat) :
      Makes "i2c-read" [.i2cRead device (registerAddress register) length]
  | i2cWrite (device : UInt8) (register : UInt32) (data : List UInt8) :
      Makes "i2c-write" [.i2cWrite device (registerAddress register) data]
  | spiConfig (clock : UInt16) (mode : UInt8) : Makes "spi-config" [.spiConfig clock mode]
  | spiTransfer (data : List UInt8) : Makes "spi-transfer" [.spiTransfer data]

/-- A subcommand is read as an action that makes the calls of its name. -/
theorem makes_of_badgeAction {name : String} {rest : List String} {action : BadgeAction}
    (h : badgeAction? (name :: rest) = some action) : Makes name action.calls := by
  simp only [badgeAction?, Option.bind_eq_bind, Option.bind_eq_some_iff] at h
  obtain ⟨⟨_, arguments⟩, -, h⟩ := h
  split at h
  · obtain rfl := Option.some.inj h
    exact .reset
  · obtain rfl := Option.some.inj h
    exact .buttons
  · obtain rfl := Option.some.inj h
    exact .lcdClear
  · obtain rfl := Option.some.inj h
    exact .lcdRefresh
  · obtain ⟨x, -, h⟩ := Option.bind_eq_some_iff.1 h
    obtain ⟨y, -, h⟩ := Option.bind_eq_some_iff.1 h
    obtain ⟨value, -, h⟩ := Option.bind_eq_some_iff.1 h
    obtain rfl := Option.some.inj h
    exact .lcdPixel x y value
  · obtain ⟨row, -, h⟩ := Option.bind_eq_some_iff.1 h
    obtain ⟨column, -, h⟩ := Option.bind_eq_some_iff.1 h
    obtain rfl := Option.some.inj h
    exact .lcdText row column _
  · obtain ⟨led, -, h⟩ := Option.bind_eq_some_iff.1 h
    obtain ⟨value, -, h⟩ := Option.bind_eq_some_iff.1 h
    obtain rfl := Option.some.inj h
    exact .led led value
  · obtain ⟨led, -, h⟩ := Option.bind_eq_some_iff.1 h
    obtain ⟨period, -, h⟩ := Option.bind_eq_some_iff.1 h
    obtain rfl := Option.some.inj h
    exact .blink led period
  · obtain ⟨data, -, h⟩ := Option.bind_eq_some_iff.1 h
    obtain rfl := Option.some.inj h
    exact .uart data
  · obtain ⟨device, -, h⟩ := Option.bind_eq_some_iff.1 h
    obtain ⟨register, -, h⟩ := Option.bind_eq_some_iff.1 h
    obtain ⟨length, -, h⟩ := Option.bind_eq_some_iff.1 h
    obtain rfl := Option.some.inj h
    exact .i2cRead device register length
  · obtain ⟨device, -, h⟩ := Option.bind_eq_some_iff.1 h
    obtain ⟨register, -, h⟩ := Option.bind_eq_some_iff.1 h
    obtain ⟨data, -, h⟩ := Option.bind_eq_some_iff.1 h
    obtain rfl := Option.some.inj h
    exact .i2cWrite device register data
  · obtain ⟨clock, -, h⟩ := Option.bind_eq_some_iff.1 h
    obtain ⟨mode, -, h⟩ := Option.bind_eq_some_iff.1 h
    obtain rfl := Option.some.inj h
    exact .spiConfig clock mode
  · obtain ⟨data, -, h⟩ := Option.bind_eq_some_iff.1 h
    obtain rfl := Option.some.inj h
    exact .spiTransfer data
  · cases h

example : badgeAction? ["i2c-read", "80", "4096", "3"] =
    some (.call (.i2cRead 80 [0x10, 0x00] 3)) := by decide

/-! ## Runs -/

/-- The client that an invocation drives a badge with. -/
def client (i : Invocation) : Badge where
  channel := { options := i.options }

/-- The calls were made in turn, and if the command succeeded, all of them returned. -/
structure Made (b : Badge) (calls : List Badge.Call) (ss : List Signal) (o : Outcome Error Unit) :
    Prop where
  inTurn : b.InTurn calls ss
  served : o = .ok () → b.Served calls ss

section Calls

variable {b : Badge} {calls : List Badge.Call} {es : List (Exchange interface)}
  {o : Outcome Error Unit}

theorem made_nil (h : signals es = []) : Made b [] (signals es) o := by
  rw [h]
  exact ⟨.stopped [], fun _ => .nil⟩

/-- A call comes before what follows it, and something follows it only if it returned. -/
theorem made_cons {c : Badge.Call} {threshold : Option Level} {next : Badge.Reply → Console Unit}
    (hnext : ∀ reply rest, (next reply).Plays rest o → Made b calls (signals rest) o)
    (h : ((onPort threshold (b.call c)).bind next).Plays es o) :
    Made b (c :: calls) (signals es) o := by
  obtain ⟨es', o', hcall, hrest⟩ := plays_onPort_bind h
  rcases hrest with ⟨hshown, hstop⟩ | ⟨reply, rest, rfl, hshown, hrest⟩
  · rw [hshown]
    exact ⟨.last hcall, fun ho => absurd ho (hstop ())⟩
  · have hmade := hnext reply rest hrest
    rw [hshown]
    exact ⟨.returned hcall hmade.inTurn, fun ho => .cons hcall (hmade.served ho)⟩

end Calls

theorem silent_showReply (reply : Badge.Reply) : Silent (showReply reply) := by
  cases reply with
  | done => exact silent_done _
  | data bytes => exact silent_print _
  | pressed buttons => exact silent_print _

/-- The last step of the command shows nothing. -/
theorem made_showReply {b : Badge} (reply : Badge.Reply) {es : List (Exchange interface)}
    {o : Outcome Error Unit} (h : (showReply reply).Plays es o) : Made b [] (signals es) o :=
  made_nil (silent_showReply reply es o h)

/-- What follows the reset are the calls of the action. -/
theorem made_of_action {i : Invocation} {b : Badge} {action : BadgeAction}
    {es : List (Exchange interface)} {o : Outcome Error Unit}
    (h : (match action with
      | .reset => log i.threshold .info "Command interface reset"
      | .call c => do
        let reply ← onPort i.threshold (b.call c)
        if draws c then
          discard <| onPort i.threshold (b.call .lcdRefresh)
        showReply reply : Console Unit).Plays es o) :
    Made b action.calls (signals es) o := by
  cases action with
  | reset => exact made_nil (silent_log _ _ _ es o h)
  | call c =>
    simp only [bind_eq] at h
    by_cases hdraws : draws c
    · have hcalls : (BadgeAction.call c).calls = [c, .lcdRefresh] :=
        (calls_call c).trans (if_pos hdraws)
      rw [hcalls]
      refine made_cons (fun reply rest hrest => ?_) h
      rw [if_pos hdraws, discard_bind] at hrest
      exact made_cons (fun _ _ => made_showReply reply) hrest
    · have hcalls : (BadgeAction.call c).calls = [c] := (calls_call c).trans (if_neg hdraws)
      rw [hcalls]
      refine made_cons (fun reply rest hrest => ?_) h
      rw [if_neg hdraws] at hrest
      exact made_showReply reply hrest

/-- A run is a reset and the calls of the action. Without a reset that succeeded, no call is made
and the command fails. -/
theorem phases_of_badge {i : Invocation} {action : BadgeAction} {es : List (Exchange interface)}
    {o : Outcome Error Unit} (h : (badge i action).Plays es o) :
    ∃ resetting working, signals es = resetting ++ working ∧ Badge.Requested 256 resetting ∧
      (working ≠ [] ∨ o = .ok () →
        ∃ es', (client i).reset.Plays es' (.ok ()) ∧ resetting = Link.signals es') ∧
      Made (client i) action.calls working o := by
  have hfailed : ∀ {resetting : List Signal}, (∀ a, o ≠ .ok a) → signals es = resetting →
      Badge.Requested 256 resetting → ∃ resetting working, signals es = resetting ++ working ∧
        Badge.Requested 256 resetting ∧ (working ≠ [] ∨ o = .ok () →
          ∃ es', (client i).reset.Plays es' (.ok ()) ∧ resetting = Link.signals es') ∧
        Made (client i) action.calls working o := by
    intro resetting ho hshown hrequested
    refine ⟨resetting, [], ?_, hrequested, ?_, .stopped _, fun h => absurd h (ho ())⟩
    · rw [hshown, List.append_nil]
    · rintro (h | h)
      · exact absurd rfl h
      · exact absurd h (ho ())
  have hnone : Badge.Requested 256 [] := ⟨0, Nat.zero_le 256, rfl⟩
  unfold badge at h
  rcases plays_bind_iff.1 h with ⟨channel, es₀, es₁, rfl, hopen, h⟩ | ⟨e, hopen, rfl⟩ |
    ⟨c, hopen, rfl⟩
  · have hopened : signals es₀ = [] := silent_openChannel _ _ _ _ hopen
    obtain rfl := returns_openChannel _ _ _ _ hopen
    have hshown : signals (es₀ ++ es₁) = signals es₁ := by
      rw [signals_append, hopened, List.nil_append]
    obtain ⟨es', o', hreset, hrest⟩ := plays_onPort_bind h
    have hrequested := (client i).requested_of_plays hreset
    rcases hrest with ⟨hstopped, ho⟩ | ⟨_, rest, rfl, hreturned, hrest⟩
    · exact hfailed ho (hshown.trans hstopped) hrequested
    · refine ⟨Link.signals es', signals rest, hshown.trans hreturned, hrequested, ?_,
        made_of_action hrest⟩
      exact fun _ => ⟨es', hreset, rfl⟩
  · exact hfailed nofun (silent_openChannel _ _ _ _ hopen) hnone
  · exact hfailed nofun (silent_openChannel _ _ _ _ hopen) hnone

theorem calls_of_refused {action : BadgeAction} {c : Badge.Call} (hc : c ∈ action.calls)
    {why : Refusal} (hrefused : c.frame = .error why) : ∃ rest, action.calls = c :: rest := by
  -- a display is refreshed without arguments that could be refused
  have hrefresh : c ≠ .lcdRefresh := by
    rintro rfl
    cases hrefused
  cases action with
  | reset => cases hc
  | call c' =>
    by_cases hdraws : draws c'
    · have hcalls : (BadgeAction.call c').calls = [c', .lcdRefresh] :=
        (calls_call c').trans (if_pos hdraws)
      rw [hcalls] at hc ⊢
      simp only [List.mem_cons, hrefresh, List.not_mem_nil, or_false] at hc
      exact ⟨_, by rw [hc]⟩
    · have hcalls : (BadgeAction.call c').calls = [c'] := (calls_call c').trans (if_neg hdraws)
      rw [hcalls] at hc ⊢
      exact ⟨[], by rw [List.mem_singleton.1 hc]⟩

/-! ## Runs that succeed -/

/-- A call that a simulated badge answers with success can return. -/
theorem exists_call (i : Invocation) {c : Badge.Call} {reply : Badge.Reply}
    (hserve : (Firmware.serve {} c).1 = .ok reply) (threshold : Option Level) :
    Yields (onPort threshold ((client i).call c)) reply := by
  have hends : Bench.Ends (Wire.port Firmware.responder) .simulated ((client i).call c)
      (Bench.onWire {} []) _ _ :=
    Badge.ends_call (Channel.patience_pos i.options) c rfl (by decide)
  rw [hserve] at hends
  obtain ⟨_, _, es, ⟨rfl, -⟩, hplays, hsettled⟩ := hends.runs.exists_plays
  exact yields_onPort hplays hsettled

/-- A drawing on the display can be made, if its arguments are accepted. -/
theorem yields_badge (i : Invocation) {c : Badge.Call} (hdraws : draws c)
    (hserve : (Firmware.serve {} c).1 = .ok .done) : Yields (badge i (.call c)) () := by
  have hruns : Bench.Runs (Wire.port Firmware.responder) .simulated (client i).reset
      (Bench.onWire {} []) _ :=
    Badge.runs_reset rfl rfl rfl (by decide)
  obtain ⟨_, _, es, -, hplays, hsettled⟩ := hruns.exists_plays
  have hrefresh : Yields (onPort i.threshold ((client i).call .lcdRefresh)) .done :=
    exists_call i rfl i.threshold
  refine (yields_openChannel i i.port).bind ((yields_onPort hplays hsettled).bind ?_)
  refine (exists_call i hserve i.threshold).bind ?_
  dsimp only
  rw [if_pos hdraws]
  exact (hrefresh.bind (yields_ok ())).bind (yields_ok ())

/-! ## The law -/

/-- Whatever the badge, the port and the host answer, the bytes that a run of the command sends are
at most 256 zeros of a reset, and then a first part of the frames of the calls of its action. There
are such frames only if the reset returned, which it does only with an acknowledgement; each call is
made only after the one before it returned; and an action with a call that is refused sends none. A
run that succeeds has reset the badge, sent all frames whole, and got a response of success to each
of them. -/
theorem badge_on_wire {i : Invocation} {action : BadgeAction} {es : List (Exchange interface)}
    {o : Outcome Error Unit} (h : (badge i action).Plays es o) :
    ∃ k resetting working, k ≤ 256 ∧ signals es = resetting ++ working ∧
      Link.sentBytes (signals es) = List.replicate k 0 ++ Link.sentBytes working ∧
      (working ≠ [] ∨ o = .ok () → Badge.Acknowledged resetting ∧
        ∃ es', (client i).reset.Plays es' (.ok ()) ∧ resetting = Link.signals es') ∧
      (∀ frames, List.Forall₂ (fun c frame => Badge.Call.frame c = .ok frame) action.calls frames →
        Link.sentBytes working <+: frames.flatten) ∧
      (∀ c ∈ action.calls, ∀ why, c.frame = .error why → working = []) ∧
      (client i).InTurn action.calls working ∧
      (o = .ok () → ∃ pieces, working = pieces.flatten ∧
        List.Forall₂ Badge.Call.Succeeds action.calls pieces) := by
  obtain ⟨resetting, working, hsignals, ⟨k, hk, hzeros⟩, hreset, hmade⟩ := phases_of_badge h
  refine ⟨k, resetting, working, hk, hsignals, ?_, ?_, ?_, ?_, hmade.inTurn, ?_⟩
  · rw [hsignals, Link.sentBytes_append, hzeros]
    rfl
  · intro hworked
    obtain ⟨es', hplays, rfl⟩ := hreset hworked
    exact ⟨((client i).ensures_reset _ _ hplays).2, es', hplays, rfl⟩
  · exact fun frames hframes => hmade.inTurn.sentBytes_prefix hframes
  · intro c hc why hrefused
    obtain ⟨rest, hcalls⟩ := calls_of_refused hc hrefused
    exact (hcalls ▸ hmade.inTurn).eq_nil_of_refused hrefused
  · exact fun ho => (hmade.served ho).exists_pieces

/-- A dot that is drawn on the display. -/
theorem dot_on_wire :
    ∃ es, (badge { command := .info } (.call (.lcdPixel 2 2 1))).Plays es (.ok ()) ∧
      ∃ k working, k ≤ 256 ∧
        Link.sentBytes (signals es) = List.replicate k 0 ++ Link.sentBytes working ∧
        Link.sentBytes working <+: [5, 6, 2, 2, 2, 1, 5] ++ [2, 6, 1, 7] := by
  obtain ⟨es, hes⟩ := yields_badge { command := .info } (c := .lcdPixel 2 2 1) rfl rfl
  obtain ⟨k, resetting, working, hk, -, hsent, -, hframes, -⟩ := badge_on_wire hes
  exact ⟨es, hes, k, working, hk, hsent, hframes _ (.cons rfl (.cons rfl .nil))⟩

end BadgeLink.Console
