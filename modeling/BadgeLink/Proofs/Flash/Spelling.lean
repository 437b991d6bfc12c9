import BadgeLink.Proofs.Flash.Act
import BadgeLink.Proofs.Flash.Command
import BadgeLink.Proofs.Monitor.Reading
import BadgeLink.Proofs.Lists
import Mathlib.Data.List.Infix

/-!
# The spelling of acts

Acts are spelled as monitor commands: an issued command as the write of its word and one or more
polls of the status, a stored word as one write, a comparison as one read for each of its words. How
often the status is polled is up to the controller, everything else is determined by the acts.

* `Spells` relates acts to the monitor commands that spell them.
* `Follows.spelled`: however working through acts ends, what was sent is the beginning of a spelling
  of all the acts, and it is a whole one if all of them were done. `Performs.spelled` says so of the
  bytes that the port accepted.
-/

namespace BadgeLink.Flash

open Monitor

/-- A list of monitor commands spells a list of acts. -/
inductive Spells (base : UInt32) : List Act → List Monitor.Command → Prop where
  | nil : Spells base [] []
  | report (p : Progress) {acts : List Act} {ms : List Monitor.Command} (h : Spells base acts ms) :
      Spells base (.report p :: acts) ms
  | command (c : Command) (arg : UInt32) (more : Nat) {acts : List Act} {ms : List Monitor.Command}
      (h : Spells base acts ms) :
      Spells base (.command c arg :: acts)
        (.writeWord (registerAt base .command) (UInt32.ofNat (c.number arg)) ::
          List.replicate (more + 1) (.readWord (registerAt base .status)) ++ ms)
  | store (address value : UInt32) {acts : List Act} {ms : List Monitor.Command}
      (h : Spells base acts ms) :
      Spells base (.store address value :: acts) (.writeWord address value :: ms)
  | compare (window offset : UInt32) (words : Nat) (expected : List UInt8) {acts : List Act}
      {ms : List Monitor.Command} (h : Spells base acts ms) :
      Spells base (.compare window offset words expected :: acts)
        ((List.range words).map (fun j => .readWord (window + offset + UInt32.ofNat j * 4)) ++ ms)

variable {base : UInt32}

theorem Spells.issue (c : Command) (arg : UInt32) (more : Nat) {acts : List Act}
    {ms : List Monitor.Command} (h : Spells base acts ms) :
    Spells base (.command c arg :: acts)
      (.writeWord (registerAt base .command) (c.word arg) ::
        List.replicate (more + 1) (.readWord (registerAt base .status)) ++ ms) := by
  rw [Command.word_eq]
  exact h.command c arg more

theorem exists_spells (base : UInt32) (acts : List Act) : ∃ ms, Spells base acts ms := by
  induction acts with
  | nil => exact ⟨[], .nil⟩
  | cons a acts ih =>
    obtain ⟨ms, h⟩ := ih
    cases a with
    | report p => exact ⟨_, h.report p⟩
    | command c arg => exact ⟨_, h.command c arg 0⟩
    | store address value => exact ⟨_, h.store address value⟩
    | compare window offset words expected => exact ⟨_, h.compare window offset words expected⟩

/-! ## The commands of a trace -/

/-- The commands of a trace, broken ones included. -/
def commands (evs : List Event) : List Monitor.Command :=
  evs.filterMap Event.command?

theorem commands_append (evs evs' : List Event) :
    commands (evs ++ evs') = commands evs ++ commands evs' :=
  List.filterMap_append

theorem commands_polls (answers : List (List UInt8)) :
    commands (polls base answers) =
      List.replicate answers.length (.readWord (registerAt base .status)) := by
  induction answers with
  | nil => rfl
  | cons data answers ih => exact congrArg (_ :: ·) ih

theorem commands_issuing_polls (c : Command) (arg : UInt32) (answers : List (List UInt8)) :
    commands (issuing base c arg :: polls base answers) =
      .writeWord (registerAt base .command) (c.word arg) ::
        List.replicate answers.length (.readWord (registerAt base .status)) :=
  congrArg (_ :: ·) (commands_polls answers)

theorem commands_wordReads (address : UInt32) (n : Nat) (answers : List (List UInt8)) :
    commands (wordReads address n answers) =
      (List.range answers.length).map fun j => .readWord (address + UInt32.ofNat (n + j) * 4) := by
  induction answers generalizing n with
  | nil => rfl
  | cons data answers ih =>
    rw [List.length_cons, map_range_succ]
    refine congrArg (_ :: ·) ((ih (n + 1)).trans (List.map_congr_left fun j _ => ?_))
    rw [Nat.add_right_comm, Nat.add_assoc]

theorem isWhole_polls (answers : List (List UInt8)) : ∀ e ∈ polls base answers, e.IsWhole := by
  intro e he
  obtain ⟨data, -, rfl⟩ := List.mem_map.1 he
  trivial

theorem isWhole_issuing_polls (c : Command) (arg : UInt32) (answers : List (List UInt8)) :
    ∀ e ∈ issuing base c arg :: polls base answers, e.IsWhole :=
  List.forall_mem_cons.2 ⟨trivial, isWhole_polls answers⟩

theorem isWhole_wordReads (address : UInt32) (n : Nat) (answers : List (List UInt8)) :
    ∀ e ∈ wordReads address n answers, e.IsWhole := by
  induction answers generalizing n with
  | nil => exact List.forall_mem_nil _
  | cons data answers ih => exact List.forall_mem_cons.2 ⟨trivial, ih (n + 1)⟩

/-- What whole events sent are the bytes of their commands. -/
theorem sent_of_isWhole {evs : List Event} (h : ∀ e ∈ evs, e.IsWhole) :
    evs.flatMap Event.sent = (commands evs).flatMap Command.bytes := by
  induction evs with
  | nil => rfl
  | cons e evs ih =>
    obtain ⟨he, hevs⟩ := List.forall_mem_cons.1 h
    rw [List.flatMap_cons, ih hevs]
    cases e with
    | whole c answer => exact (List.flatMap_cons (f := Command.bytes)).symm
    | broken => exact he.elim
    | told p => rfl

/-- What was sent up to a broken command is the beginning of the bytes of the commands. -/
theorem sent_of_isWhole_broken {evs : List Event} (h : ∀ e ∈ evs, e.IsWhole)
    {c : Monitor.Command} {sent answer : List UInt8} (hwf : (Event.broken c sent answer).WF) :
    (evs ++ [Event.broken c sent answer]).flatMap Event.sent <+:
      (commands (evs ++ [Event.broken c sent answer])).flatMap Command.bytes := by
  have hsent : [Event.broken c sent answer].flatMap Event.sent = sent := List.append_nil sent
  have hcommand : (commands [Event.broken c sent answer]).flatMap Command.bytes = c.bytes :=
    List.append_nil _
  rw [List.flatMap_append, commands_append, List.flatMap_append, sent_of_isWhole h, hsent, hcommand]
  exact (List.prefix_append_right_inj _).2 hwf.1

/-! ## Spellings of traces -/

/-- Nothing is missing of an act that is done. -/
theorem Act.Done.isWhole {a : Act} {evs : List Event} (h : a.Done base evs) :
    ∀ e ∈ evs, e.IsWhole := by
  cases h with
  | report p => exact List.forall_mem_singleton.2 trivial
  | command c arg => exact isWhole_issuing_polls c arg _
  | store address value => exact List.forall_mem_singleton.2 trivial
  | compare => exact isWhole_wordReads _ _ _

/-- An act that is done sends a spelling of it. -/
theorem Act.Done.spelled {a : Act} {evs : List Event} (h : a.Done base evs) {acts : List Act}
    {ms : List Monitor.Command} (hacts : Spells base acts ms) :
    Spells base (a :: acts) (commands evs ++ ms) := by
  cases h with
  | report p => exact hacts.report p
  | @command c arg busy last =>
    rw [commands_issuing_polls, List.length_append]
    exact hacts.issue c arg busy.length
  | store address value => exact hacts.store address value
  | compare hexists hlen =>
    rw [commands_wordReads, hlen]
    simp only [Nat.zero_add]
    exact hacts.compare _ _ _ _

/-- The polls of a command are spelled by the command. -/
theorem PollsStop.spelled {counted : Nat} {evs : List Event} {s : Stop}
    (h : PollsStop base counted evs s) (hwf : ∀ e ∈ evs, e.WF) :
    (∃ k, commands evs = List.replicate k (.readWord (registerAt base .status))) ∧
      evs.flatMap Event.sent <+: (commands evs).flatMap Command.bytes := by
  cases h with
  | @busy answers =>
    exact ⟨⟨_, commands_polls answers⟩, (sent_of_isWhole (isWhole_polls _)) ▸ List.prefix_refl _⟩
  | @crash answers =>
    exact ⟨⟨_, commands_polls answers⟩, (sent_of_isWhole (isWhole_polls _)) ▸ List.prefix_refl _⟩
  | @broken answers hbusy s hs sent answer =>
    refine ⟨⟨answers.length + 1, ?_⟩, sent_of_isWhole_broken (isWhole_polls _) (hwf _ ?_)⟩
    · rw [commands_append, commands_polls, List.replicate_succ']
      rfl
    · exact List.mem_append_right _ List.mem_cons_self

/-- The reads of a block are spelled by reads of its words. -/
theorem spelled_of_readsStop {address : UInt32} {words : Nat} {evs : List Event} {s : Stop}
    (h : ReadsStop address words 0 evs s) (hwf : ∀ e ∈ evs, e.WF) :
    (∃ k ≤ words, commands evs =
      (List.range k).map fun j => .readWord (address + UInt32.ofNat j * 4)) ∧
      evs.flatMap Event.sent <+: (commands evs).flatMap Command.bytes := by
  obtain ⟨answers, -, hlen, ⟨-, rfl⟩ | ⟨-, sent, answer, rfl⟩⟩ := h
  · refine ⟨⟨answers.length, Nat.le_of_lt hlen, ?_⟩, ?_⟩
    · rw [commands_wordReads]
      simp only [Nat.zero_add]
    · rw [sent_of_isWhole (isWhole_wordReads _ _ _)]
  · refine ⟨⟨answers.length + 1, hlen, ?_⟩, sent_of_isWhole_broken (isWhole_wordReads _ _ _) ?_⟩
    · rw [commands_append, commands_wordReads, List.range_succ, List.map_append]
      simp only [Nat.zero_add]
      rfl
    · exact hwf _ (List.mem_append_right _ List.mem_cons_self)

/-- An act that stops the work has sent the beginning of a spelling of it. -/
theorem Act.Stopped.spelled {a : Act} {evs : List Event} {s : Stop} (h : a.Stopped base evs s)
    (hwf : ∀ e ∈ evs, e.WF) {acts : List Act} {ms : List Monitor.Command}
    (hacts : Spells base acts ms) :
    ∃ ms', Spells base (a :: acts) ms' ∧ commands evs <+: ms' ∧
      evs.flatMap Event.sent <+: (commands evs).flatMap Command.bytes := by
  cases h with
  | crash a x =>
    obtain ⟨ms', hms'⟩ := exists_spells base (a :: acts)
    exact ⟨ms', hms', List.nil_prefix, List.nil_prefix⟩
  | unsent c arg hs sent answer =>
    refine ⟨_, hacts.issue c arg 0, ?_, ?_⟩
    · exact (List.cons_prefix_cons).2 ⟨rfl, List.nil_prefix⟩
    · exact sent_of_isWhole_broken (List.forall_mem_nil _) (hwf _ List.mem_cons_self)
  | @unready c arg evs s h =>
    obtain ⟨⟨k, hk⟩, hsent⟩ := h.spelled fun e he => hwf e (List.mem_cons_of_mem _ he)
    refine ⟨_, hacts.issue c arg k, ?_, ?_⟩
    · have hcommands : commands (issuing base c arg :: evs) =
          .writeWord (registerAt base .command) (c.word arg) ::
            List.replicate k (.readWord (registerAt base .status)) := congrArg (_ :: ·) hk
      rw [hcommands, List.replicate_succ', ← List.cons_append, List.append_assoc]
      exact List.prefix_append _ _
    · exact (List.prefix_append_right_inj _).2 hsent
  | @failed c arg busy last e =>
    refine ⟨_, hacts.issue c arg busy.length, ?_, ?_⟩
    · rw [commands_issuing_polls, List.length_append]
      exact List.prefix_append _ _
    · rw [sent_of_isWhole (isWhole_issuing_polls c arg _)]
  | unstored address value hs sent answer =>
    refine ⟨_, hacts.store address value, ?_, ?_⟩
    · exact (List.cons_prefix_cons).2 ⟨rfl, List.nil_prefix⟩
    · exact sent_of_isWhole_broken (List.forall_mem_nil _) (hwf _ List.mem_cons_self)
  | @unread window offset words expected evs s h =>
    obtain ⟨⟨k, hle, hk⟩, hsent⟩ := spelled_of_readsStop h hwf
    refine ⟨_, hacts.compare window offset words expected, ?_, hsent⟩
    rw [hk]
    exact (prefix_map_range _ hle).trans (List.prefix_append _ _)
  | @differs window offset words expected answers hexists hlen =>
    refine ⟨_, hacts.compare window offset words expected, ?_, ?_⟩
    · rw [commands_wordReads, hlen]
      simp only [Nat.zero_add]
      exact List.prefix_append _ _
    · rw [sent_of_isWhole (isWhole_wordReads _ _ _)]

/-- However working through acts ends, what was sent is the beginning of a spelling of all of
them, and it is a whole one if all were done. -/
theorem Follows.spelled {acts : List Act} {evs : List Event} {r : Option Stop}
    (h : Follows base acts evs r) (hwf : ∀ e ∈ evs, e.WF) :
    ∃ ms, Spells base acts ms ∧ evs.flatMap Event.sent <+: ms.flatMap Command.bytes ∧
      (r = none → evs.flatMap Event.sent = ms.flatMap Command.bytes) := by
  induction h with
  | nil => exact ⟨[], .nil, List.prefix_refl _, fun _ => rfl⟩
  | @done a acts evs evs' r ha _ ih =>
    obtain ⟨ms, hms, hprefix, hall⟩ := ih fun e he => hwf e (List.mem_append_right _ he)
    refine ⟨_, ha.spelled hms, ?_, fun hr => ?_⟩
    · rw [List.flatMap_append, List.flatMap_append, sent_of_isWhole ha.isWhole]
      exact (List.prefix_append_right_inj _).2 hprefix
    · rw [List.flatMap_append, List.flatMap_append, sent_of_isWhole ha.isWhole, hall hr]
  | stopped acts ha =>
    -- the acts that were not reached may be spelled in any way
    obtain ⟨ms, hms⟩ := exists_spells base acts
    obtain ⟨ms', hms', hcommands, hsent⟩ := ha.spelled hwf hms
    exact ⟨ms', hms', hsent.trans (hcommands.flatMap _), fun hr => nomatch hr⟩
  | crash acts c =>
    obtain ⟨ms, hms⟩ := exists_spells base acts
    exact ⟨ms, hms, List.nil_prefix, fun hr => nomatch hr⟩

/-- However a program that works through acts ends, the port accepted the beginning of a spelling of
all of them, and it is a whole one if the program succeeded. -/
theorem Performs.spelled {p : Link Unit} {acts : List Act} (h : Performs base p acts)
    {es : List (Exchange Link.interface)} {o : Outcome LinkError Unit} (hplays : p.Plays es o) :
    ∃ ms, Spells base acts ms ∧ Link.accepted es <+: ms.flatMap Command.bytes ∧
      (o = .ok () → Link.accepted es = ms.flatMap Command.bytes) := by
  obtain ⟨evs, hevs, hfollows⟩ := h.follows hplays
  obtain ⟨ms, hms, hprefix, hall⟩ := hfollows.spelled hevs.wf
  rw [hevs.accepted_eq]
  refine ⟨ms, hms, hprefix, ?_⟩
  rintro rfl
  exact hall rfl

end BadgeLink.Flash
