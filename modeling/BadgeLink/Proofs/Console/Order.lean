import BadgeLink.Proofs.Bench.Conversation
import BadgeLink.Proofs.Console.Port
import BadgeLink.Proofs.Flash.Command
import BadgeLink.Proofs.Programmer.Opening
import BadgeLink.Proofs.Programmer.Script

/-!
# The order of a programming run

The command that programs a file takes its dangerous steps in a safe order, whatever the chip, the
port and the file system answer: nothing is written before the expected chip has introduced itself,
nothing but the request for the description is written before an image has been read that fits the
flash described, and the chip is only made to jump after its boot source was selected without an
error.

* `Phases` says how far a run came, and what it said until then.
* `program_in_order` is the law of the order, for every place of every run.
-/

namespace BadgeLink.Console

open Dialogue Monitor Flash

/-- The image was read from the file when the port had shown these signals. -/
def Loaded (firmware : String) (image : List UInt8) (ss : List Signal)
    (es : List (Exchange interface)) : Prop :=
  ∃ es₁ es₂, es = es₁ ++ ⟨.readFile firmware, .ok image⟩ :: es₂ ∧ signals es₁ = ss

/-- How far a run of the command that programs a file came, and what it showed on the port. -/
inductive Phases (firmware : String) (verify launch : Bool) (es : List (Exchange interface)) :
    Prop where
  /-- The port was not opened. -/
  | unopened (h : signals es = [])
  /-- The run ended with the connection, or before anything was installed. -/
  | opening {channel : Channel} {es₁ : List (Exchange Link.interface)}
      {o₁ : Outcome LinkError Programmer} (h : signals es = Link.signals es₁)
      (hconnect : (Programmer.connect channel .badge).Plays es₁ o₁)
  /-- The run ended with the installation of an image that fits. -/
  | installing {channel : Channel} {es₁ es₂ : List (Exchange Link.interface)} {p : Programmer}
      {image : List UInt8} {o₂ : Outcome LinkError Unit}
      (h : signals es = Link.signals es₁ ++ Link.signals es₂)
      (hconnect : (Programmer.connect channel .badge).Plays es₁ (.ok p))
      (hloaded : Loaded firmware image (Link.signals es₁) es)
      (hfits : image.length ≤ p.flash.size.toNat)
      (hinstall : (p.install image verify).Plays es₂ o₂)
  /-- The run ended with the jump. -/
  | launching {channel : Channel} {es₁ es₂ es₃ : List (Exchange Link.interface)} {p : Programmer}
      {image : List UInt8} {o₃ : Outcome LinkError Unit}
      (h : signals es = Link.signals es₁ ++ Link.signals es₂ ++ Link.signals es₃)
      (hconnect : (Programmer.connect channel .badge).Plays es₁ (.ok p))
      (hloaded : Loaded firmware image (Link.signals es₁) es)
      (hfits : image.length ≤ p.flash.size.toNat)
      (hinstall : (p.install image verify).Plays es₂ (.ok ()))
      (hlaunch : launch = true) (hjump : p.launch.Plays es₃ o₃)

theorem plays_openProgrammer {i : Invocation} {path : String} {es : List (Exchange interface)}
    {o : Outcome Error Programmer} (h : (openProgrammer i path).Plays es o) :
    (signals es = [] ∧ ∀ p, o ≠ .ok p) ∨ ∃ channel es₁ o₁, signals es = Link.signals es₁ ∧
      (Programmer.connect channel .badge).Plays es₁ o₁ ∧ o = o₁.mapError .link := by
  unfold openProgrammer at h
  simp only [bind_eq] at h
  -- The handler of the set-up is left to unification: it shows nothing, whatever it logs.
  have hcut := ((silent_openChannel i path).tryCatch fun e => by
    split
    · exact (silent_log _ _ _).bind fun _ => silent_done _
    · exact silent_done _).plays_bind h
  rcases hcut with hnone | ⟨channel, es₁, es₂, rfl, hnil, h⟩
  · exact .inl hnone
  · obtain ⟨es', o', hplays, hsignals, rfl⟩ := plays_onPort h
    refine .inr ⟨channel, es', o', ?_, hplays, rfl⟩
    rw [signals_append, hnil, hsignals]
    rfl

/-- What follows an installation that succeeded: the jump, if it is wanted, or nothing that shows on
the port. -/
theorem plays_ending {i : Invocation} {launch : Bool} {p : Programmer}
    {es : List (Exchange interface)} {o : Outcome Error Unit}
    (h : (if launch then
        (print "Programming complete, running the program.").bind fun _ =>
          onPort i.threshold p.launch
      else print "Programming complete." : Console Unit).Plays es o) :
    signals es = [] ∨ launch = true ∧ ∃ es₃ o₃, p.launch.Plays es₃ o₃ ∧
      signals es = Link.signals es₃ := by
  split at h
  · next hlaunch =>
    rcases (silent_print _).plays_bind h with ⟨hnil, -⟩ | ⟨_, es₀, es, rfl, hprint, h⟩
    · exact .inl hnil
    · obtain ⟨es₃, o₃, hjump, hshown, -⟩ := plays_onPort h
      refine .inr ⟨hlaunch, es₃, o₃, hjump, ?_⟩
      rw [signals_append, hprint, hshown, List.nil_append]
  · exact .inl (silent_print _ _ _ h)

/-- What follows the opening: the installation of an image that was loaded and fits, and the jump,
if it is wanted; or nothing that shows on the port. -/
theorem plays_installation {i : Invocation} {firmware : String} {verify launch : Bool}
    {p : Programmer} {es : List (Exchange interface)} {o : Outcome Error Unit}
    (h : (do
      let image ←
        match ← readFile firmware with
        | .ok image => pure image
        | .error f => throw (.unreadable firmware f)
      if p.flash.size.toNat < image.length then
        throw (.imageTooLarge firmware p.flash.size.toNat)
      print s!"Programming: {firmware} [{ByteSize.text image.length}]"
      onPort i.threshold (p.install image verify)
      if launch then
        print "Programming complete, running the program."
        onPort i.threshold p.launch
      else
        print "Programming complete." : Console Unit).Plays es o) :
    signals es = [] ∨ ∃ image es₂ o₂, Loaded firmware image [] es ∧
      image.length ≤ p.flash.size.toNat ∧ (p.install image verify).Plays es₂ o₂ ∧
      (signals es = Link.signals es₂ ∨ o₂ = .ok () ∧ launch = true ∧
        ∃ es₃ o₃, p.launch.Plays es₃ o₃ ∧ signals es = Link.signals es₂ ++ Link.signals es₃) := by
  simp only [bind_eq] at h
  cases h with
  | @ask _ _ r es _ h =>
    cases r with
    | error f =>
      cases h
      exact .inl rfl
    | ok image =>
      have hloaded : Loaded firmware image [] (⟨.readFile firmware, .ok image⟩ :: es) :=
        ⟨[], es, rfl, rfl⟩
      have hfile : signals (⟨.readFile firmware, .ok image⟩ :: es) = signals es := rfl
      rw [hfile]
      dsimp only [pure_eq, done_ok_bind] at h
      split at h
      · cases h
        exact .inl rfl
      · next hfits =>
        rcases (silent_print _).plays_bind h with ⟨hnil, -⟩ | ⟨_, es₀, es, rfl, hprint, h⟩
        · exact .inl hnil
        · obtain ⟨es₂, o₂, hinstall, hrest⟩ := plays_onPort_bind h
          refine .inr ⟨image, es₂, o₂, hloaded, Nat.not_lt.1 hfits, hinstall, ?_⟩
          rw [signals_append, hprint, List.nil_append]
          rcases hrest with ⟨hshown, -⟩ | ⟨_, rest, ho, hshown, h⟩
          · exact .inl hshown
          · rcases plays_ending h with hnil | ⟨hlaunch, es₃, o₃, hjump, hrest⟩
            · rw [hnil, List.append_nil] at hshown
              exact .inl hshown
            · rw [hrest] at hshown
              exact .inr ⟨ho, hlaunch, es₃, o₃, hjump, hshown⟩

theorem phases_of_opening {i : Invocation} {path firmware : String} {verify launch : Bool}
    {es₀ es : List (Exchange interface)} {o : Outcome Error Programmer} (hlog : signals es₀ = [])
    (h : (openProgrammer i path).Plays es o) : Phases firmware verify launch (es₀ ++ es) := by
  rcases plays_openProgrammer h with ⟨hnil, -⟩ | ⟨channel, esₗ, o₁, hshown, hconnect, -⟩
  · refine .unopened ?_
    rw [signals_append, hlog, hnil]
    rfl
  · refine .opening ?_ hconnect
    rw [signals_append, hlog, hshown, List.nil_append]

/-- Every run of the command comes to one of these phases. -/
theorem phases_of_plays {i : Invocation} {path firmware : String} {verify launch : Bool}
    {es : List (Exchange interface)} {o : Outcome Error Unit}
    (h : (program i path firmware verify launch).Plays es o) :
    Phases firmware verify launch es := by
  unfold program at h
  rcases (silent_log _ _ _).plays_bind h with ⟨hnil, -⟩ | ⟨_, es₀, es, rfl, hlog, h⟩
  · exact .unopened hnil
  rcases plays_bind_iff.1 h with ⟨p, es₁, es, rfl, h₁, h⟩ | ⟨e, h₁, -⟩ | ⟨c, h₁, -⟩
  · rcases plays_openProgrammer h₁ with ⟨-, hnone⟩ | ⟨channel, esₗ, o₁, hshown, hconnect, ho⟩
    · exact absurd rfl (hnone p)
    obtain rfl := Outcome.mapError_eq_ok.1 ho.symm
    have hopened : signals (es₀ ++ (es₁ ++ es)) = Link.signals esₗ ++ signals es := by
      rw [signals_append, signals_append, hlog, hshown, List.nil_append]
    rcases plays_installation h with hnil | ⟨image, es₂, o₂, hloaded, hfits, hinstall, hrest⟩
    · refine .opening ?_ hconnect
      rw [hopened, hnil, List.append_nil]
    · have hloaded : Loaded firmware image (Link.signals esₗ) (es₀ ++ (es₁ ++ es)) := by
        obtain ⟨esa, esb, rfl, hnil⟩ := hloaded
        refine ⟨es₀ ++ (es₁ ++ esa), esb, by simp only [List.append_assoc], ?_⟩
        rw [signals_append, signals_append, hlog, hshown, hnil, List.nil_append, List.append_nil]
      rcases hrest with hrest | ⟨rfl, hlaunch, es₃, o₃, hjump, hrest⟩
      · refine .installing ?_ hconnect hloaded hfits hinstall
        rw [hopened, hrest]
      · refine .launching ?_ hconnect hloaded hfits hinstall hlaunch hjump
        rw [hopened, hrest, List.append_assoc]
  · exact phases_of_opening hlog h₁
  · exact phases_of_opening hlog h₁

/-! ## Runs that succeed -/

theorem yields_demand {step : Console (Except SetupFault Unit)} (h : Yields step (.ok ())) :
    Yields (demand step) () :=
  h.bind (yields_ok ())

theorem yields_openChannel (i : Invocation) (path : String) :
    Yields (openChannel i path) { options := i.options } := by
  have hopen : Yields (openPort path) (.ok ()) := ⟨[⟨.openPort path, .ok ()⟩], .ask (.done _)⟩
  have hread : Yields readSettings (.ok ()) := ⟨[⟨.readSettings, .ok ()⟩], .ask (.done _)⟩
  have hbaud : Yields (setBaud i.baud) (.ok ()) := ⟨[⟨.setBaud i.baud, .ok ()⟩], .ask (.done _)⟩
  have hwrite : Yields (writeSettings ⟨i.baud⟩) (.ok ()) :=
    ⟨[⟨.writeSettings ⟨i.baud⟩, .ok ()⟩], .ask (.done _)⟩
  have htimeout : Yields (setReadTimeout i.options.readTimeout) (.ok ()) :=
    ⟨[⟨.setReadTimeout i.options.readTimeout, .ok ()⟩], .ask (.done _)⟩
  exact (yields_demand hopen).bind <| (yields_demand hread).bind <| (yields_demand hbaud).bind <|
    (yields_demand hwrite).bind <| (yields_demand htimeout).bind (yields_ok _)

/-- Every image that fits the flash of a simulated chip can be programmed, and then run. -/
theorem yields_program (i : Invocation) (path firmware : String) (image : List UInt8)
    (hfits : image.length ≤ Chip.flashSize) (verify launch : Bool) :
    Yields (program i path firmware verify launch) () := by
  obtain ⟨p, es₁, es₂, es₃, hconnect, hinstall, hlaunch, hsize, hsettled⟩ :=
    Chip.exists_session { options := i.options } (Channel.patience_pos i.options) image hfits verify
  rw [List.append_assoc, List.forall_mem_append, List.forall_mem_append] at hsettled
  obtain ⟨hes₁, hes₂, hes₃⟩ := hsettled
  have hopen : Yields (openProgrammer i path) p := by
    unfold openProgrammer
    exact ((yields_openChannel i path).attempt.bind (yields_ok _)).bind
      (yields_onPort hconnect hes₁)
  have hlarge : ¬p.flash.size.toNat < image.length := by
    rw [hsize]
    exact Nat.not_lt.2 hfits
  have hread : Yields (readFile firmware) (.ok image) :=
    ⟨[⟨.readFile firmware, .ok image⟩], .ask (.done _)⟩
  unfold program
  simp only [bind_eq]
  refine (yields_log _ _ _).bind (hopen.bind (hread.bind ?_))
  dsimp only [pure_eq, done_ok_bind]
  rw [if_neg hlarge]
  refine (yields_print _).bind ((yields_onPort hinstall hes₂).bind ?_)
  cases launch with
  | false => exact yields_print _
  | true => exact (yields_print _).bind (yields_onPort hlaunch hes₃)

/-! ## The law -/

/-- The description of the flash was delivered and passed every check, and an image was read that
fits this flash, all before anything else was said. -/
def Admitted (t : Target) (firmware : String) (es : List (Exchange interface))
    (before : List Event) : Prop :=
  ∃ d described image opened, t.greeting ++ described <+: before ∧
    Described t.controllerBase d described ∧ d.Plausible ∧
    Carries opened (t.greeting ++ described) ∧ Loaded firmware image opened es ∧
    image.length ≤ d.size.toNat

/-- The last that happened is that the boot source was selected: the answers to the polls said busy
until the last, which says ready and reports none of the errors. -/
def Booted (t : Target) (before : List Event) : Prop :=
  ∃ earlier busy last,
    before = earlier ++ issuing t.controllerBase .setBit t.bootBit ::
      polls t.controllerBase (busy ++ [last]) ∧
    (∀ data ∈ busy, ¬IsReady data) ∧ IsReady last ∧
    ∀ bit ∈ [Status.locked, Status.failed, Status.invalid],
      Status.has (Word.ofLittleEndian last) bit = false

/-- What must have happened before an event of a run. -/
structure InOrder (t : Target) (firmware : String) (launch : Bool) (es : List (Exchange interface))
    (before : List Event) (e : Event) : Prop where
  /-- Nothing is written before the expected chip has introduced itself. -/
  greeted : ∀ address value, e.command? = some (.writeWord address value) → t.greeting <+: before
  /-- Nothing but the request for the description is written before an image was admitted. -/
  admitted : ∀ address value, e.command? = some (.writeWord address value) →
    ¬(address = registerAt t.controllerBase .command ∧ value = Command.getDescriptor.word 0) →
    Admitted t firmware es before
  /-- The chip is made to jump only if this is wanted and the boot source was selected. -/
  jumped : ∀ address, e.command? = some (.go address) → launch = true ∧ Booted t before

section Law

variable {t : Target} {firmware : String} {launch : Bool} {es : List (Exchange interface)}

theorem inOrder_of_greets {before : List Event} {e : Event}
    (h : ∀ m, e.command? = some m → Programmer.Greets m) :
    InOrder t firmware launch es before e := by
  refine ⟨fun address value he => ?_, fun address value he _ => ?_, fun address he => ?_⟩ <;>
  · rcases h _ he with hm | ⟨_, hm⟩ <;> cases hm

theorem inOrder_of_asks {before : List Event} {e : Event}
    (h : ∀ m, e.command? = some m → Asks t.controllerBase m) (hbefore : t.greeting <+: before) :
    InOrder t firmware launch es before e := by
  refine ⟨fun _ _ _ => hbefore, fun address value he hother => ?_, fun address he => ?_⟩
  · rcases h _ he with ⟨_, hm⟩ | hm
    · cases hm
    · injection hm with haddress hvalue
      exact absurd ⟨haddress, hvalue⟩ hother
  · rcases h _ he with ⟨_, hm⟩ | hm <;> cases hm

theorem greets_greeting : EveryCommand Programmer.Greets t.greeting :=
  (everyCommand_whole (.inl rfl) _).append
    ((everyCommand_whole (.inr ⟨_, rfl⟩) _).append (everyCommand_whole (.inr ⟨_, rfl⟩) _))

/-- The opening of a connection is in order. -/
theorem guarded_opening {evs : List Event} (h : Programmer.Opening t evs) :
    Guarded (InOrder t firmware launch es) evs := by
  rcases h with h | ⟨rest, rfl, h⟩
  · exact h.guarded fun _ _ => inOrder_of_greets
  · refine Guarded.append (greets_greeting.guarded fun _ _ => inOrder_of_greets) ?_
    exact h.guarded fun _ _ he => inOrder_of_asks he (List.prefix_append _ _)

/-- Once an image was admitted, working through acts is in order. -/
theorem guarded_acts {evs evs' : List Event} {acts : List Act} {r : Option Stop}
    (hgreeted : t.greeting <+: evs) (hadmitted : ∀ before, Admitted t firmware es (evs ++ before))
    (h : Follows t.controllerBase acts evs' r) :
    Guarded (fun before e => InOrder t firmware launch es (evs ++ before) e) evs' := by
  refine h.uses.guarded fun before e he => ⟨fun _ _ _ => ?_, fun _ _ _ _ => hadmitted before, ?_⟩
  · exact hgreeted.trans (List.prefix_append _ _)
  · intro address hgo
    obtain ⟨a, -, huses⟩ := he _ hgo
    exact absurd rfl (huses.ne_go address)

theorem booted_of_done {earlier boot : List Event}
    (h : Act.Done t.controllerBase (.command .setBit t.bootBit) boot) :
    Booted t (earlier ++ boot) := by
  cases h with
  | command _ _ hbusy hlast hclean =>
    exact ⟨earlier, _, _, rfl, hbusy, hlast, Status.check_eq_ok.1 hclean⟩

/-- A jump after an installation that succeeded is in order. -/
theorem guarded_jump {evs : List Event} {e : Event} {address : UInt32} (hlaunch : launch = true)
    (hbooted : Booted t evs) (he : e.command? = some (.go address)) :
    Guarded (fun before e => InOrder t firmware launch es (evs ++ before) e) [e] := by
  intro before e' after hsplit
  cases before with
  | cons _ before => exact absurd (List.cons.inj hsplit).2.symm (by simp)
  | nil =>
    obtain rfl := (List.cons.inj hsplit).1
    rw [List.append_nil]
    refine ⟨fun _ _ hw => ?_, fun _ _ hw => ?_, fun _ _ => ⟨hlaunch, hbooted⟩⟩
    · cases he.symm.trans hw
    · cases he.symm.trans hw

end Law

/-- An installation in a run, behind the opening that it needs, is in order. If it succeeded, the
boot source was selected last. -/
theorem installation_in_order {t : Target} {firmware : String} {verify launch : Bool}
    {es : List (Exchange interface)} {channel : Channel}
    {es₁ es₂ : List (Exchange Link.interface)} {p : Programmer} {image : List UInt8}
    {o₂ : Outcome LinkError Unit} (hconnect : (Programmer.connect channel t).Plays es₁ (.ok p))
    (hloaded : Loaded firmware image (Link.signals es₁) es)
    (hfits : image.length ≤ p.flash.size.toNat) (hinstall : (p.install image verify).Plays es₂ o₂) :
    ∃ evs, Carries (Link.signals es₁ ++ Link.signals es₂) evs ∧
      Guarded (InOrder t firmware launch es) evs ∧ (o₂ = .ok () → Booted t evs) := by
  obtain ⟨evs₁, hevs₁, described, rfl, htarget, hbase, hdescribed, hflash, -⟩ :=
    Programmer.traces_connect _ _ _ _ hconnect
  obtain ⟨evs₂, hevs₂, hfollows⟩ := (Programmer.performs_install hflash hfits verify).follows hinstall
  rw [hbase] at hfollows
  have hadmitted : ∀ before, Admitted t firmware es (t.greeting ++ described ++ before) :=
    fun before => ⟨p.flash, described, image, _, List.prefix_append _ _, hdescribed, hflash, hevs₁,
      hloaded, hfits⟩
  have hgreeted : t.greeting <+: t.greeting ++ described := List.prefix_append _ _
  refine ⟨_, hevs₁.append hevs₂, Guarded.append ?_ (guarded_acts hgreeted hadmitted hfollows), ?_⟩
  · exact guarded_opening (.inr ⟨described, rfl, hdescribed.asks⟩)
  · rintro rfl
    rw [Programmer.script, if_neg (Nat.not_lt.2 hfits)] at hfollows
    rcases follows_append_iff.1 hfollows with ⟨earlier, boot, rfl, -, hboot⟩ | ⟨s, hs, -⟩
    · rw [Programmer.booting, htarget] at hboot
      rw [← List.append_assoc]
      exact booted_of_done (follows_single.1 hboot)
    · cases hs

/-- Whatever the chip, the port and the file system answer, in every run of the command that
programs a file every write and every jump is in order. -/
theorem program_in_order {i : Invocation} {path firmware : String} {verify launch : Bool}
    {es : List (Exchange interface)} {o : Outcome Error Unit}
    (h : (program i path firmware verify launch).Plays es o) :
    ∃ evs, Carries (signals es) evs ∧ Guarded (InOrder .badge firmware launch es) evs := by
  cases phases_of_plays h with
  | unopened hnil =>
    rw [hnil]
    exact ⟨[], .nil, guarded_nil⟩
  | opening hshown hconnect =>
    rw [hshown]
    obtain ⟨evs, hevs, hopening⟩ := Programmer.opening_of_plays hconnect
    exact ⟨evs, hevs, guarded_opening hopening⟩
  | installing hshown hconnect hloaded hfits hinstall =>
    rw [hshown]
    obtain ⟨evs, hevs, horder, -⟩ := installation_in_order hconnect hloaded hfits hinstall
    exact ⟨evs, hevs, horder⟩
  | launching hshown hconnect hloaded hfits hinstall hlaunch hjump =>
    rw [hshown]
    obtain ⟨evs, hevs, horder, hbooted⟩ := installation_in_order hconnect hloaded hfits hinstall
    obtain ⟨e, he, hgo⟩ := Programmer.launch_of_plays hjump
    exact ⟨_, hevs.append he, horder.append (guarded_jump hlaunch (hbooted rfl) hgo)⟩

/-- A run that programs three bytes and jumps to them is in order. -/
theorem three_bytes_in_order :
    ∃ es, (program { command := .info } "/dev/ttyACM0" "badge.bin" true true).Plays es (.ok ()) ∧
      ∃ evs, Carries (signals es) evs ∧ Guarded (InOrder .badge "badge.bin" true es) evs := by
  obtain ⟨es, hes⟩ := yields_program { command := .info } "/dev/ttyACM0" "badge.bin"
    [0xde, 0xad, 0xbe] (by decide) true true
  exact ⟨es, hes, program_in_order hes⟩

end BadgeLink.Console
