import BadgeLink.Flash.Controller
import BadgeLink.Proofs.Monitor.Client

/-!
# Acts on a flash controller

Driving a flash controller is a list of acts: to issue a command and wait for its completion, to
store a word in the window of the flash, to compare a part of the flash with what it should hold,
and to report progress in between. An act is either done, which takes a certain trace, or it stops
the whole work, after a trace of its own.

* `Act.Done` says with which traces an act is done, `Act.Stopped` with which it stops, and how.
* `Follows` is the relation between a list of acts and the traces of working through it: every act
  is done until all are, or until one stops, and nothing follows it.
* `Performs` states that a program works through a list of acts, whatever it is answered.
-/

namespace BadgeLink.Flash

open Monitor Dialogue

/-- An act of driving a flash controller. -/
inductive Act where
  | report (p : Progress)
  /-- Issues a command and waits until it is complete without an error. -/
  | command (c : Command) (arg : UInt32)
  | store (address value : UInt32)
  /-- Reads consecutive words from an offset in a window on, which must begin with the expected
  bytes. -/
  | compare (window offset : UInt32) (words : Nat) (expected : List UInt8)
deriving DecidableEq, Repr

/-- The address of a register of the controller whose first register is at `base`. -/
def registerAt (base : UInt32) (r : Register) : UInt32 :=
  base + r.offset

/-- The status that an answer to a poll carries. -/
def IsReady (data : List UInt8) : Prop :=
  Status.has (Word.ofLittleEndian data) Status.ready = true

/-- The answers of a comparison begin with the expected bytes. -/
def Agrees (expected : List UInt8) (answers : List (List UInt8)) : Prop :=
  answers.flatten.take expected.length = expected

/-- The write that issues a command. -/
def issuing (base : UInt32) (c : Command) (arg : UInt32) : Event :=
  .whole (.writeWord (registerAt base .command) (c.word arg)) []

/-- Polls of the status register with their answers. -/
def polls (base : UInt32) (answers : List (List UInt8)) : List Event :=
  answers.map (.whole (.readWord (registerAt base .status)))

/-- An act is done with this trace. A command is written, then the status is polled until an answer
says that the controller is ready, and this answer reports no error. -/
inductive Act.Done (base : UInt32) : Act → List Event → Prop where
  | report (p : Progress) : Done base (.report p) [.told p]
  | command (c : Command) (arg : UInt32) {busy : List (List UInt8)} {last : List UInt8}
      (hbusy : ∀ data ∈ busy, ¬IsReady data) (hlast : IsReady last)
      (hclean : Status.check (Word.ofLittleEndian last) = .ok ()) :
      Done base (.command c arg) (issuing base c arg :: polls base (busy ++ [last]))
  | store (address value : UInt32) :
      Done base (.store address value) [.whole (.writeWord address value) []]
  | compare {window offset : UInt32} {words : Nat} {expected : List UInt8}
      {answers : List (List UInt8)} (hexists : window.toNat + offset.toNat < 0x100000000)
      (hlen : answers.length = words) (hdata : ∀ data ∈ answers, data.length = 4)
      (hagrees : Agrees expected answers) :
      Done base (.compare window offset words expected) (wordReads (window + offset) 0 answers)

/-- The polls of a command that did not become ready: the limit of polls was reached, or a crash
came in between, or a poll broke off. -/
inductive PollsStop (base : UInt32) (counted : Nat) : List Event → Stop → Prop where
  | busy {answers : List (List UInt8)} (hbusy : ∀ data ∈ answers, ¬IsReady data) :
      PollsStop base counted (polls base answers) (.error (.flashBusy (counted + answers.length)))
  | crash {answers : List (List UInt8)} (hbusy : ∀ data ∈ answers, ¬IsReady data) (c : Crash) :
      PollsStop base counted (polls base answers) (.crash c)
  | broken {answers : List (List UInt8)} (hbusy : ∀ data ∈ answers, ¬IsReady data)
      {s : Stop} (hs : s.Cut) (sent answer : List UInt8) :
      PollsStop base counted
        (polls base answers ++ [.broken (.readWord (registerAt base .status)) sent answer]) s

/-- An act stops the work with this trace and in this way. -/
inductive Act.Stopped (base : UInt32) : Act → List Event → Stop → Prop where
  | crash (a : Act) (c : Crash) : Stopped base a [] (.crash c)
  | unsent (c : Command) (arg : UInt32) {s : Stop} (hs : s.Cut) (sent answer : List UInt8) :
      Stopped base (.command c arg)
        [.broken (.writeWord (registerAt base .command) (c.word arg)) sent answer] s
  | unready (c : Command) (arg : UInt32) {evs : List Event} {s : Stop}
      (h : PollsStop base 0 evs s) : Stopped base (.command c arg) (issuing base c arg :: evs) s
  | failed (c : Command) (arg : UInt32) {busy : List (List UInt8)} {last : List UInt8}
      {e : LinkError} (hbusy : ∀ data ∈ busy, ¬IsReady data) (hlast : IsReady last)
      (herror : Status.check (Word.ofLittleEndian last) = .error e) :
      Stopped base (.command c arg) (issuing base c arg :: polls base (busy ++ [last])) (.error e)
  | unstored (address value : UInt32) {s : Stop} (hs : s.Cut) (sent answer : List UInt8) :
      Stopped base (.store address value) [.broken (.writeWord address value) sent answer] s
  | unread {window offset : UInt32} {words : Nat} (expected : List UInt8) {evs : List Event}
      {s : Stop} (h : ReadsStop (window + offset) words 0 evs s) :
      Stopped base (.compare window offset words expected) evs s
  | differs {window offset : UInt32} {words : Nat} {expected : List UInt8}
      {answers : List (List UInt8)} (hexists : window.toNat + offset.toNat < 0x100000000)
      (hlen : answers.length = words) (hdata : ∀ data ∈ answers, data.length = 4)
      (hdiffers : ¬Agrees expected answers) :
      Stopped base (.compare window offset words expected) (wordReads (window + offset) 0 answers)
        (.error (.verification (window + offset)))

/-! ## Working through a list of acts -/

/-- Working through a list of acts takes this trace, and either all of them are done or the work
stops: within an act, or with a crash between two acts. -/
inductive Follows (base : UInt32) : List Act → List Event → Option Stop → Prop where
  | nil : Follows base [] [] none
  | done {a : Act} {acts : List Act} {evs evs' : List Event} {r : Option Stop}
      (ha : a.Done base evs) (hacts : Follows base acts evs' r) :
      Follows base (a :: acts) (evs ++ evs') r
  | stopped {a : Act} (acts : List Act) {evs : List Event} {s : Stop} (ha : a.Stopped base evs s) :
      Follows base (a :: acts) evs (some s)
  | crash (acts : List Act) (c : Crash) : Follows base acts [] (some (.crash c))

variable {base : UInt32}

theorem Follows.append {acts acts' : List Act} {evs evs' : List Event} {r : Option Stop}
    (h : Follows base acts evs none) (h' : Follows base acts' evs' r) :
    Follows base (acts ++ acts') (evs ++ evs') r := by
  generalize hr : (none : Option Stop) = q at h
  induction h with
  | nil => exact h'
  | done ha _ ih =>
    rw [List.append_assoc]
    exact .done ha (ih hr)
  | stopped => cases hr
  | crash => cases hr

theorem Follows.stop_append {acts : List Act} (acts' : List Act) {evs : List Event} {s : Stop}
    (h : Follows base acts evs (some s)) : Follows base (acts ++ acts') evs (some s) := by
  generalize hr : some s = q at h
  induction h with
  | nil => cases hr
  | done ha _ ih => exact .done ha (ih hr)
  | stopped acts ha => exact .stopped _ ha
  | crash acts c => exact .crash _ c

/-- Working through two lists of acts is working through the first, and then, if all of it was
done, through the second. -/
theorem follows_append_iff {acts acts' : List Act} {evs : List Event} {r : Option Stop} :
    Follows base (acts ++ acts') evs r ↔
      (∃ evs₁ evs₂, evs = evs₁ ++ evs₂ ∧ Follows base acts evs₁ none ∧ Follows base acts' evs₂ r) ∨
        ∃ s, r = some s ∧ Follows base acts evs (some s) := by
  constructor
  · intro h
    induction acts generalizing evs with
    | nil => exact .inl ⟨[], evs, rfl, .nil, h⟩
    | cons a acts ih =>
      cases h with
      | done ha h =>
        rcases ih h with ⟨evs₁, evs₂, rfl, h₁, h₂⟩ | ⟨s, rfl, hstop⟩
        · exact .inl ⟨_ ++ evs₁, evs₂, (List.append_assoc ..).symm, .done ha h₁, h₂⟩
        · exact .inr ⟨s, rfl, .done ha hstop⟩
      | stopped _ ha => exact .inr ⟨_, rfl, .stopped _ ha⟩
      | crash _ c => exact .inr ⟨_, rfl, .crash _ c⟩
  · rintro (⟨evs₁, evs₂, rfl, h₁, h₂⟩ | ⟨s, rfl, h⟩)
    · exact h₁.append h₂
    · exact h.stop_append _

/-- One act was worked through exactly if it was done. -/
theorem follows_single {a : Act} {evs : List Event} :
    Follows base [a] evs none ↔ a.Done base evs := by
  constructor
  · intro h
    cases h with
    | done ha hrest =>
      cases hrest
      rw [List.append_nil]
      exact ha
  · intro h
    have h : Follows base [a] (evs ++ []) none := .done h .nil
    rw [List.append_nil] at h
    exact h

/-! ## Commands of a trace -/

/-- The monitor commands that an act may use. -/
def Act.Uses (base : UInt32) : Act → Monitor.Command → Prop
  | .report _, _ => False
  | .command c arg, m =>
    m = .writeWord (registerAt base .command) (c.word arg) ∨
      m = .readWord (registerAt base .status)
  | .store address value, m => m = .writeWord address value
  | .compare window offset _ _, m => ∃ n, m = .readWord (window + offset + UInt32.ofNat n * 4)

theorem Act.Uses.ne_go {base : UInt32} {a : Act} {m : Monitor.Command} (h : a.Uses base m)
    (address : UInt32) : m ≠ .go address := by
  rintro rfl
  cases a with
  | report p => exact h
  | command c arg => rcases h with h | h <;> cases h
  | store place value => cases h
  | compare window offset words expected =>
    obtain ⟨n, h⟩ := h
    cases h

theorem everyCommand_polls {P : Monitor.Command → Prop}
    (h : P (.readWord (registerAt base .status))) (answers : List (List UInt8)) :
    EveryCommand P (polls base answers) :=
  everyCommand_map h answers

theorem everyCommand_pollsStop {P : Monitor.Command → Prop}
    (h : P (.readWord (registerAt base .status))) {counted : Nat} {evs : List Event} {s : Stop}
    (hstop : PollsStop base counted evs s) : EveryCommand P evs := by
  cases hstop with
  | busy => exact everyCommand_polls h _
  | crash => exact everyCommand_polls h _
  | broken => exact (everyCommand_polls h _).append (everyCommand_broken h _ _)

theorem Act.Done.uses {a : Act} {evs : List Event} (h : a.Done base evs) :
    EveryCommand (a.Uses base) evs := by
  cases h with
  | report p => exact everyCommand_told p
  | command c arg =>
    exact (everyCommand_whole (.inl rfl) []).append (everyCommand_polls (.inr rfl) _)
  | store address value => exact everyCommand_whole (P := Act.Uses base (.store ..)) rfl []
  | compare => exact everyCommand_wordReads (fun n => ⟨n, rfl⟩) _ 0

theorem Act.Stopped.uses {a : Act} {evs : List Event} {s : Stop} (h : a.Stopped base evs s) :
    EveryCommand (a.Uses base) evs := by
  cases h with
  | crash => exact everyCommand_nil
  | unsent => exact everyCommand_broken (.inl rfl) _ _
  | unready c arg h =>
    exact (everyCommand_whole (.inl rfl) []).append (everyCommand_pollsStop (.inr rfl) h)
  | failed c arg =>
    exact (everyCommand_whole (.inl rfl) []).append (everyCommand_polls (.inr rfl) _)
  | unstored => exact everyCommand_broken (P := Act.Uses base (.store ..)) rfl _ _
  | unread expected h =>
    obtain ⟨answers, -, -, ⟨-, rfl⟩ | ⟨-, sent, answer, rfl⟩⟩ := h
    · exact everyCommand_wordReads (fun n => ⟨n, rfl⟩) _ 0
    · exact (everyCommand_wordReads (fun n => ⟨n, rfl⟩) _ 0).append
        (everyCommand_broken ⟨_, rfl⟩ _ _)
  | differs => exact everyCommand_wordReads (fun n => ⟨n, rfl⟩) _ 0

/-- Working through acts uses no commands but those of the acts. -/
theorem Follows.uses {acts : List Act} {evs : List Event} {r : Option Stop}
    (h : Follows base acts evs r) : EveryCommand (fun m => ∃ a ∈ acts, a.Uses base m) evs := by
  induction h with
  | nil => exact everyCommand_nil
  | done ha _ ih =>
    refine (ha.uses.mono fun m hm => ⟨_, List.mem_cons_self, hm⟩).append (ih.mono ?_)
    rintro m ⟨a, ha, hm⟩
    exact ⟨a, List.mem_cons_of_mem _ ha, hm⟩
  | stopped acts ha => exact ha.uses.mono fun m hm => ⟨_, List.mem_cons_self, hm⟩
  | crash => exact everyCommand_nil

/-! ## Programs that work through acts -/

variable {α β : Type}

/-- Whatever the program is answered, its trace is that of working through the acts; it ends with a
value exactly when all of them were done. -/
def Performs (base : UInt32) (p : Link α) (acts : List Act) : Prop :=
  Traces p (fun evs _ => Follows base acts evs none) fun evs s => Follows base acts evs (some s)

/-- Every conversation of a program that works through acts has such a trace. -/
theorem Performs.follows {p : Link α} {acts : List Act} (h : Performs base p acts)
    {es : List (Exchange Link.interface)} {o : Outcome LinkError α} (hplays : p.Plays es o) :
    ∃ evs, Carries (Link.signals es) evs ∧ Follows base acts evs o.stop? := by
  have h := h es o hplays
  cases o <;> exact h

/-- A program that works through acts keeps to the commands of the acts. -/
theorem Performs.keeps {P : Monitor.Command → Prop} {p : Link α} {acts : List Act}
    (h : Performs base p acts) (hacts : ∀ a ∈ acts, ∀ m, a.Uses base m → P m) : Keeps P p := by
  have huses : ∀ {evs r}, Follows base acts evs r → EveryCommand P evs := by
    intro evs r hfollows
    refine hfollows.uses.mono ?_
    rintro m ⟨a, ha, hm⟩
    exact hacts a ha m hm
  exact Traces.mono h (fun _ _ => huses) fun _ _ => huses

theorem Performs.keeps_any {p : Link α} {acts : List Act} (h : Performs base p acts) :
    Keeps (fun _ => True) p :=
  h.keeps fun _ _ _ _ => trivial

theorem Performs.bind {p : Link α} {f : α → Link β} {acts acts' : List Act}
    (hp : Performs base p acts) (hf : ∀ a, Performs base (f a) acts') :
    Performs base (p.bind f) (acts ++ acts') := by
  refine Traces.bind hp (fun _ _ h => h.stop_append acts') fun evs a h => ?_
  exact Traces.mono (hf a) (fun _ _ h' => h.append h') fun _ _ h' => h.append h'

theorem performs_ok {a : α} : Performs base (done (.ok a)) [] :=
  traces_ok .nil

theorem performs_note (r : Record) : Performs base (Link.note r) [] :=
  Link.ensures_ask fun _ => Link.ensures_ok (.nil .nil)

theorem performs_note_bind {r : Record} {f : Unit → Link α} {acts : List Act}
    (h : Performs base (f ()) acts) : Performs base ((Link.note r).bind f) acts :=
  traces_note_bind h

theorem performs_lift_bind {x : Except Crash α} {f : α → Link β} {acts : List Act}
    (h : ∀ a, x = .ok a → Performs base (f a) acts) :
    Performs base (Dialogue.bind (liftM x : Link α) f) acts :=
  traces_lift_bind h fun c _ => .crash acts c

theorem performs_discard {p : Link α} {acts : List Act} (h : Performs base p acts) :
    Performs base (discard p) acts := by
  have h : Performs base (p.bind fun _ => done (.ok PUnit.unit)) (acts ++ []) :=
    h.bind fun _ => performs_ok
  rw [List.append_nil] at h
  exact h

theorem performs_report (base : UInt32) (p : Progress) : Performs base (Link.report p) [.report p] := by
  refine Link.ensures_ask fun _ => Link.ensures_ok ?_
  exact .single (e := .told p) trivial (.done (.report p) .nil)

end BadgeLink.Flash
