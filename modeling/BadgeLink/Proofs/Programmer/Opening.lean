import BadgeLink.Proofs.Flash.Descriptor
import BadgeLink.Programmer.Run

/-!
# Opening a connection to a chip

What is said before anything is installed: the monitor is entered, the identification words are
read, and then the description of the flash is asked for. Each step is taken only if the one before
it went well.

* `Target.greeting`: the trace of entering the monitor of the expected chip.
* `traces_connect`: a connection begins with the greeting, and up to its end nothing is written but
  the command that asks for the description.
-/

namespace BadgeLink

open Dialogue Monitor Flash

/-- The trace of entering the monitor and finding the expected chip. -/
def Target.greeting (t : Target) : List Event :=
  [.whole .normalMode acknowledgement,
    .whole (.readWord t.cidrAddress) (Word.littleEndian t.cidr),
    .whole (.readWord t.exidAddress) (Word.littleEndian t.exid)]

namespace Programmer

/-- A command that may be used before the chip is known: it enters the monitor or reads a word. -/
def Greets (m : Monitor.Command) : Prop :=
  m = .normalMode ∨ ∃ address, m = .readWord address

/-- The trace of a connection that was not established. -/
def Opening (t : Target) (evs : List Event) : Prop :=
  EveryCommand Greets evs ∨
    ∃ rest, evs = t.greeting ++ rest ∧ EveryCommand (Asks t.controllerBase) rest

theorem greets_of_breaks {address : UInt32} {evs : List Event} {s : Stop}
    (h : Breaks (.readWord address) evs s) : EveryCommand Greets evs := by
  obtain ⟨-, sent, answer, rfl⟩ := h
  exact everyCommand_broken (.inr ⟨_, rfl⟩) _ _

theorem greets_enter {evs : List Event} (h : ∃ e, evs = [e] ∧ e.command? = some .normalMode) :
    EveryCommand Greets evs := by
  obtain ⟨e, rfl, he⟩ := h
  intro e' he' m hm
  rw [List.mem_singleton.1 he', he] at hm
  exact .inl (Option.some.inj hm).symm

/-- The identification words are those that were received. -/
theorem traces_readChipId (m : Monitor) (cidrAddress exidAddress : UInt32) :
    Traces (m.readChipId cidrAddress exidAddress)
      (fun evs id => evs = [.whole (.readWord cidrAddress) (Word.littleEndian id.1),
        .whole (.readWord exidAddress) (Word.littleEndian id.2)])
      fun evs _ => EveryCommand Greets evs := by
  refine (m.traces_readWord cidrAddress).bind (fun _ _ => greets_of_breaks) ?_
  intro _ cidr hpost
  obtain ⟨cidrData, hcidr, rfl, rfl⟩ := hpost
  have hread : EveryCommand Greets [.whole (.readWord cidrAddress) cidrData] :=
    everyCommand_whole (.inr ⟨_, rfl⟩) _
  refine (m.traces_readWord exidAddress).bind ?_ ?_
  · exact fun _ _ h => hread.append (greets_of_breaks h)
  · intro _ exid hpost
    obtain ⟨exidData, hexid, rfl, rfl⟩ := hpost
    refine traces_ok ?_
    rw [Word.littleEndian_ofLittleEndian hcidr, Word.littleEndian_ofLittleEndian hexid]
    rfl

/-- A connection begins with the greeting of the target, and then the flash was described. Where
it fails, nothing was written but, after the greeting, the command that asks for the description. -/
theorem traces_connect (channel : Channel) (t : Target) :
    Traces (connect channel t)
      (fun evs p => ∃ described, evs = t.greeting ++ described ∧ p.target = t ∧
        p.controller.base = t.controllerBase ∧ Described t.controllerBase p.flash described ∧
        p.flash.Plausible ∧ p.flash.base = t.flashBase)
      fun evs _ => Opening t evs := by
  unfold connect
  simp only [bind_eq]
  refine (Monitor.traces_enter _).bind (fun _ _ h => .inl (greets_enter h)) ?_
  intro evs entered h
  cases entered with
  | false =>
    refine traces_note_bind (traces_error (.inl ?_))
    rw [List.append_nil]
    exact greets_enter h
  | true =>
    subst h
    have hentered : EveryCommand Greets [.whole .normalMode acknowledgement] :=
      everyCommand_whole (.inl rfl) _
    refine (traces_readChipId _ _ _).bind (fun _ _ h => .inl (hentered.append h)) ?_
    rintro _ ⟨cidr, exid⟩ rfl
    refine traces_note_bind ?_
    dsimp only
    split
    · refine traces_note_bind (traces_error (.inl (hentered.append ?_)))
      have hcidr : EveryCommand Greets [.whole (.readWord t.cidrAddress) (Word.littleEndian cidr)] :=
        everyCommand_whole (.inr ⟨_, rfl⟩) _
      exact hcidr.append (everyCommand_whole (.inr ⟨_, rfl⟩) _)
    · next hsame =>
      rw [not_or, Decidable.not_not, Decidable.not_not] at hsame
      obtain ⟨rfl, rfl⟩ := hsame
      refine (Controller.traces_connect _ _ _ _).bind ?_ ?_
      · exact fun evs s h => .inr ⟨evs, rfl, h⟩
      · intro described c hpost
        obtain ⟨d, rfl, hdescribed, hgeometry, hbase⟩ := hpost
        refine traces_ok ⟨described, ?_, rfl, rfl, hdescribed, hgeometry, hbase⟩
        rw [List.append_nil]
        rfl

theorem opening_of_plays {channel : Channel} {t : Target} {es : List (Exchange Link.interface)}
    {o : Outcome LinkError Programmer} (h : (connect channel t).Plays es o) :
    ∃ evs, Carries (Link.signals es) evs ∧ Opening t evs := by
  have htrace := traces_connect channel t es o h
  cases o with
  | ok p =>
    obtain ⟨evs, hevs, described, rfl, -, -, hdescribed, -⟩ := htrace
    exact ⟨_, hevs, .inr ⟨described, rfl, hdescribed.asks⟩⟩
  | error e => exact htrace
  | crash c => exact htrace

/-- A jump goes through, or breaks off. -/
theorem traces_launch (p : Programmer) :
    Traces p.launch (fun evs _ => ∃ e, evs = [e] ∧ e.command? = some (.go p.flash.base))
      fun evs _ => ∃ e, evs = [e] ∧ e.command? = some (.go p.flash.base) := by
  refine (p.controller.monitor.traces_go _).mono ?_ ?_
  · intro evs _ hpost
    subst hpost
    exact ⟨_, rfl, rfl⟩
  · intro evs s hpost
    obtain ⟨-, sent, answer, rfl⟩ := hpost
    exact ⟨_, rfl, rfl⟩

theorem launch_of_plays {p : Programmer} {es : List (Exchange Link.interface)}
    {o : Outcome LinkError Unit} (h : p.launch.Plays es o) :
    ∃ e, Carries (Link.signals es) [e] ∧ e.command? = some (.go p.flash.base) := by
  have htrace := p.traces_launch es o h
  cases o <;>
  · obtain ⟨evs, hevs, e, rfl, he⟩ := htrace
    exact ⟨e, hevs, he⟩

end Programmer

end BadgeLink
