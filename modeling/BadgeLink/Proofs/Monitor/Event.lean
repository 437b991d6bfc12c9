import BadgeLink.Monitor.Command
import BadgeLink.Proofs.Link.Signal

/-!
# Events of a conversation with the boot monitor

The signals of a conversation with the monitor, read command by command: a command was sent whole
and its answer, if it has one, arrived whole, or it broke off, with some of its bytes sent and some
of its answer received. A trace is a list of such events, with the progress that was told in
between. Every trace stands for one list of signals, but not the other way round: a command of which
nothing was sent leaves no signal, and one without an answer is sent to its last byte also if the
flush after it fails. How far signals determine their trace is the matter of
`BadgeLink.Proofs.Monitor.Reading`.

* `Carries` relates a trace to the signals that it stands for.
* `Traces` states what a program guarantees of the traces of all its conversations.
* `Keeps` is the case of a property of every command, and `Stores` that of words which have been
  written if the program succeeds.
-/

namespace BadgeLink

namespace Monitor

/-- The number of bytes that the monitor answers to a command. -/
def Command.answerLength : Command → Nat
  | .normalMode => acknowledgement.length
  | .readWord _ => 4
  | .writeWord .. | .go _ => 0

/-- What happened to a command, or a report of progress. -/
inductive Event where
  /-- The command was sent whole and answered whole. -/
  | whole (c : Command) (answer : List UInt8)
  /-- The command broke off: these of its bytes were sent, and these of its answer arrived. -/
  | broken (c : Command) (sent answer : List UInt8)
  /-- The listener was told of progress. -/
  | told (p : Progress)
deriving DecidableEq, Repr

namespace Event

def command? : Event → Option Command
  | whole c _ | broken c _ _ => some c
  | told _ => none

/-- The bytes of its command that an event put on the wire. -/
def sent : Event → List UInt8
  | whole c _ => c.bytes
  | broken _ sent _ => sent
  | told _ => []

def signals : Event → List Signal
  | whole c answer => c.bytes.map .sent ++ answer.map .got
  | broken _ sent answer => sent.map .sent ++ answer.map .got
  | told p => [.told p]

/-- A whole command has its answer; a broken one was sent in part, or was sent whole and has not
all of its answer. -/
def WF : Event → Prop
  | whole c answer => answer.length = c.answerLength
  | broken c sent answer =>
    sent <+: c.bytes ∧ (answer = [] ∨ sent = c.bytes ∧ answer.length < c.answerLength)
  | told _ => True

end Event

/-- A trace stands for the signals of its events, one after the other. -/
structure Carries (ss : List Signal) (evs : List Event) : Prop where
  signals_eq : ss = evs.flatMap Event.signals
  wf : ∀ e ∈ evs, e.WF

theorem Carries.nil : Carries [] [] :=
  ⟨rfl, fun _ h => absurd h List.not_mem_nil⟩

theorem Carries.single {e : Event} (h : e.WF) : Carries e.signals [e] :=
  ⟨(List.append_nil _).symm, fun _ he => List.mem_singleton.1 he ▸ h⟩

theorem Carries.append {ss₁ ss₂ : List Signal} {evs₁ evs₂ : List Event} (h₁ : Carries ss₁ evs₁)
    (h₂ : Carries ss₂ evs₂) : Carries (ss₁ ++ ss₂) (evs₁ ++ evs₂) := by
  refine ⟨?_, ?_⟩
  · rw [h₁.signals_eq, h₂.signals_eq, List.flatMap_append]
  · intro e he
    rcases List.mem_append.1 he with he | he
    · exact h₁.wf e he
    · exact h₂.wf e he

theorem Event.sentBytes_signals (e : Event) : Link.sentBytes e.signals = e.sent := by
  cases e with
  | whole c answer => simp [signals, sent]
  | broken c sent answer => simp [signals, Event.sent]
  | told p => rfl

theorem Carries.sentBytes_eq {ss : List Signal} {evs : List Event} (h : Carries ss evs) :
    Link.sentBytes ss = evs.flatMap Event.sent := by
  have hevents : ∀ e : Event, e.signals.filterMap Link.sentByte? = e.sent := Event.sentBytes_signals
  rw [h.signals_eq, Link.sentBytes, List.filterMap_flatMap]
  simp only [hevents]

/-- The accepted bytes of a conversation are those of its events. -/
theorem Carries.accepted_eq {es : List (Exchange Link.interface)} {evs : List Event}
    (h : Carries (Link.signals es) evs) : Link.accepted es = evs.flatMap Event.sent := by
  rw [Link.accepted_eq, h.sentBytes_eq]

/-! ## Commands of a trace -/

/-- Every command of a trace satisfies a property. -/
def EveryCommand (P : Command → Prop) (evs : List Event) : Prop :=
  ∀ e ∈ evs, ∀ m, e.command? = some m → P m

section EveryCommand

variable {P P' : Command → Prop}

theorem everyCommand_nil : EveryCommand P [] :=
  fun _ he => absurd he List.not_mem_nil

theorem everyCommand_whole {m : Command} (hm : P m) (answer : List UInt8) :
    EveryCommand P [.whole m answer] := by
  intro e he m' hm'
  rw [List.mem_singleton.1 he] at hm'
  exact Option.some.inj hm' ▸ hm

theorem everyCommand_broken {m : Command} (hm : P m) (sent answer : List UInt8) :
    EveryCommand P [.broken m sent answer] := by
  intro e he m' hm'
  rw [List.mem_singleton.1 he] at hm'
  exact Option.some.inj hm' ▸ hm

theorem everyCommand_told (p : Progress) : EveryCommand P [.told p] := by
  intro e he m hm
  rw [List.mem_singleton.1 he] at hm
  cases hm

theorem EveryCommand.append {evs evs' : List Event} (h : EveryCommand P evs)
    (h' : EveryCommand P evs') : EveryCommand P (evs ++ evs') :=
  fun e he => (List.mem_append.1 he).elim (h e) (h' e)

theorem EveryCommand.mono {evs : List Event} (h : EveryCommand P evs) (hP : ∀ m, P m → P' m) :
    EveryCommand P' evs :=
  fun e he m hm => hP m (h e he m hm)

theorem everyCommand_map {m : Command} (hm : P m) (answers : List (List UInt8)) :
    EveryCommand P (answers.map (.whole m)) := by
  intro e he m' hm'
  obtain ⟨data, -, rfl⟩ := List.mem_map.1 he
  exact Option.some.inj hm' ▸ hm

end EveryCommand

/-! ## Order -/

/-- At every place of a trace, the event there and the trace before it are related. -/
def Guarded (P : List Event → Event → Prop) (evs : List Event) : Prop :=
  ∀ before e after, evs = before ++ e :: after → P before e

section Guarded

variable {P : List Event → Event → Prop}

theorem guarded_nil : Guarded P [] := by
  intro before e after h
  exact absurd (List.append_eq_nil_iff.1 h.symm).2 (List.cons_ne_nil _ _)

theorem Guarded.append {evs evs' : List Event} (h : Guarded P evs)
    (h' : Guarded (fun before e => P (evs ++ before) e) evs') : Guarded P (evs ++ evs') := by
  intro before e after hsplit
  rcases List.append_eq_append_iff.1 hsplit with ⟨middle, rfl, hrest⟩ | ⟨middle, rfl, hrest⟩
  · exact h' middle e after hrest
  · cases middle with
    | nil =>
      have h := h' [] e after hrest.symm
      rw [List.append_nil, List.append_nil] at h
      exact h
    | cons x middle =>
      obtain ⟨rfl, -⟩ := List.cons.inj hrest
      exact h before e middle rfl

theorem EveryCommand.guarded {C : Command → Prop} {evs : List Event} (h : EveryCommand C evs)
    (hP : ∀ before e, (∀ m, e.command? = some m → C m) → P before e) : Guarded P evs := by
  rintro before e after rfl
  exact hP before e (h e (List.mem_append_right _ List.mem_cons_self))

end Guarded

/-! ## Guarantees about traces -/

open Link

variable {α β : Type} {Q : List Event → α → Prop} {F : List Event → Stop → Prop}

/-- A property of traces as a property of signals. -/
def Over (Q : List Event → α → Prop) (ss : List Signal) (a : α) : Prop :=
  ∃ evs, Carries ss evs ∧ Q evs a

/-- Whatever the program is answered, its signals are those of a trace that satisfies `Q` with the
value, if it ends with one, and `F` with the stop, if it does not. -/
def Traces (p : Link α) (Q : List Event → α → Prop) (F : List Event → Stop → Prop) : Prop :=
  Ensures p (Over Q) (Over F)

theorem Over.nil {a : α} (h : Q [] a) : Over Q [] a :=
  ⟨[], .nil, h⟩

theorem Over.single {a : α} {e : Event} (he : e.WF) (h : Q [e] a) : Over Q e.signals a :=
  ⟨[e], .single he, h⟩

theorem Over.mono {Q' : List Event → α → Prop} (hQ : ∀ evs a, Q evs a → Q' evs a)
    {ss : List Signal} {a : α} (h : Over Q ss a) : Over Q' ss a := by
  obtain ⟨evs, hevs, h⟩ := h
  exact ⟨evs, hevs, hQ _ _ h⟩

theorem Traces.mono {Q' : List Event → α → Prop} {F' : List Event → Stop → Prop} {p : Link α}
    (h : Traces p Q F) (hQ : ∀ evs a, Q evs a → Q' evs a) (hF : ∀ evs s, F evs s → F' evs s) :
    Traces p Q' F' :=
  Ensures.mono h (fun _ _ => Over.mono hQ) (fun _ _ => Over.mono hF)

theorem Traces.bind {R : List Event → β → Prop} {G : List Event → Stop → Prop} {p : Link α}
    {f : α → Link β} (hp : Traces p Q F) (hF : ∀ evs s, F evs s → G evs s)
    (hf : ∀ evs a, Q evs a →
      Traces (f a) (fun evs' b => R (evs ++ evs') b) fun evs' s => G (evs ++ evs') s) :
    Traces (p.bind f) R G := by
  refine Ensures.bind hp (fun _ _ => Over.mono hF) ?_
  intro ss a hpost
  obtain ⟨evs, hevs, h⟩ := hpost
  refine Ensures.mono (hf evs a h) ?_ ?_
  · intro ss' b hpost
    obtain ⟨evs', hevs', h'⟩ := hpost
    exact ⟨evs ++ evs', hevs.append hevs', h'⟩
  · intro ss' s hpost
    obtain ⟨evs', hevs', h'⟩ := hpost
    exact ⟨evs ++ evs', hevs.append hevs', h'⟩

theorem traces_ok {a : α} (h : Q [] a) : Traces (.done (.ok a)) Q F :=
  ensures_ok (.nil h)

theorem traces_error {e : LinkError} (h : F [] (.error e)) :
    Traces (.done (.error e) : Link α) Q F :=
  ensures_error (.nil h)

theorem traces_crash {c : Crash} (h : F [] (.crash c)) :
    Traces (.done (.crash c) : Link α) Q F :=
  ensures_crash (.nil h)

theorem traces_note_bind {r : Record} {f : Unit → Link α} (h : Traces (f ()) Q F) :
    Traces ((note r).bind f) Q F :=
  ensures_note_bind h

theorem traces_lift_bind {x : Except Crash α} {f : α → Link β} {R : List Event → β → Prop}
    (hok : ∀ a, x = .ok a → Traces (f a) R F) (hcrash : ∀ c, x = .error c → F [] (.crash c)) :
    Traces (Dialogue.bind (liftM x : Link α) f) R F :=
  ensures_lift_bind hok fun c hc => .nil (hcrash c hc)

/-- A sequence uses only commands with a property if its parts do. -/
theorem Traces.bind_every {P : Command → Prop} {R : List Event → β → Prop} {p : Link α}
    {f : α → Link β} (hp : Traces p Q fun evs _ => EveryCommand P evs)
    (hQ : ∀ evs a, Q evs a → EveryCommand P evs)
    (hf : ∀ evs a, Q evs a →
      Traces (f a) (fun evs' b => R (evs ++ evs') b) fun evs' _ => EveryCommand P evs') :
    Traces (p.bind f) R fun evs _ => EveryCommand P evs :=
  hp.bind (fun _ _ h => h) fun evs a h =>
    (hf evs a h).mono (fun _ _ h' => h') fun _ _ h' => (hQ evs a h).append h'

/-! ## Programs that keep to some commands -/

/-- Whatever the program is answered, all its commands have a property. -/
def Keeps (P : Command → Prop) (p : Link α) : Prop :=
  Traces p (fun evs _ => EveryCommand P evs) fun evs _ => EveryCommand P evs

section Keeps

variable {P : Command → Prop}

theorem keeps_ok {a : α} : Keeps P (.done (.ok a)) :=
  traces_ok everyCommand_nil

theorem keeps_error {e : LinkError} : Keeps P (.done (.error e) : Link α) :=
  traces_error everyCommand_nil

theorem Keeps.bind {p : Link α} {f : α → Link β} (hp : Keeps P p) (hf : ∀ a, Keeps P (f a)) :
    Keeps P (p.bind f) :=
  Traces.bind_every hp (fun _ _ h => h) fun _ a h =>
    Traces.mono (hf a) (fun _ _ h' => h.append h') fun _ _ h' => h'

theorem Keeps.discard {p : Link α} (h : Keeps P p) : Keeps P (discard p) :=
  h.bind fun _ => keeps_ok

theorem keeps_note (r : Record) : Keeps P (note r) :=
  traces_note_bind (f := fun a => .done (.ok a)) keeps_ok

theorem keeps_note_bind {r : Record} {f : Unit → Link α} (h : Keeps P (f ())) :
    Keeps P ((note r).bind f) :=
  traces_note_bind h

theorem keeps_report (step : Progress) : Keeps P (report step) :=
  ensures_ask fun _ => ensures_ok (.single (e := .told step) trivial (everyCommand_told step))

theorem keeps_report_bind {step : Progress} {f : Unit → Link α} (h : Keeps P (f ())) :
    Keeps P ((report step).bind f) :=
  (keeps_report step).bind fun _ => h

theorem keeps_lift_bind {x : Except Crash α} {f : α → Link β} (h : ∀ a, x = .ok a → Keeps P (f a)) :
    Keeps P (Dialogue.bind (liftM x : Link α) f) :=
  traces_lift_bind h fun _ _ => everyCommand_nil

/-- The commands of every conversation have the property. -/
theorem Keeps.every {p : Link α} (h : Keeps P p) {es : List (Exchange interface)}
    {o : Outcome LinkError α} (hplays : p.Plays es o) :
    ∃ evs, Carries (signals es) evs ∧ EveryCommand P evs := by
  have h := h es o hplays
  cases o <;> exact h

end Keeps

/-! ## Programs that write -/

/-- The trace has a whole write to this place. -/
def Stored (evs : List Event) (place : Nat) : Prop :=
  ∃ address value, address.toNat = place ∧ .whole (.writeWord address value) [] ∈ evs

/-- If the program ends with a value, words have been written to all these places. -/
def Stores (places : Nat → Prop) (p : Link α) : Prop :=
  Traces p (fun evs _ => ∀ place, places place → Stored evs place) fun _ _ => True

section Stores

variable {P : Command → Prop} {places places' : Nat → Prop}

theorem Stored.append_left {evs : List Event} {place : Nat} (h : Stored evs place)
    (evs' : List Event) : Stored (evs ++ evs') place := by
  obtain ⟨address, value, haddress, hmem⟩ := h
  exact ⟨address, value, haddress, List.mem_append_left _ hmem⟩

theorem Stored.append_right {evs' : List Event} {place : Nat} (h : Stored evs' place)
    (evs : List Event) : Stored (evs ++ evs') place := by
  obtain ⟨address, value, haddress, hmem⟩ := h
  exact ⟨address, value, haddress, List.mem_append_right _ hmem⟩

theorem stores_none {a : α} (h : ∀ place, ¬places place) : Stores places (.done (.ok a)) :=
  traces_ok fun place hplace => absurd hplace (h place)

theorem stores_error {e : LinkError} : Stores places (.done (.error e) : Link α) :=
  traces_error trivial

theorem Stores.mono {p : Link α} (h : Stores places p) (hplaces : ∀ place, places' place → places place) :
    Stores places' p :=
  Traces.mono h (fun _ _ hstored place hplace => hstored place (hplaces place hplace)) fun _ _ h => h

theorem Stores.bind {p : Link α} {f : α → Link β} (hp : Stores places p)
    (hf : ∀ a, Stores places' (f a)) :
    Stores (fun place => places place ∨ places' place) (p.bind f) := by
  refine Traces.bind hp (fun _ _ h => h) fun evs a hstored => ?_
  refine Traces.mono (hf a) (fun evs' _ hstored' place hplace => ?_) fun _ _ h => h
  rcases hplace with hplace | hplace
  · exact (hstored place hplace).append_left evs'
  · exact (hstored' place hplace).append_right evs

/-- A program of which nothing is known, before one that writes. -/
theorem Keeps.bind_stores {p : Link α} {f : α → Link β}
    (hp : Keeps P p) (hf : ∀ a, Stores places (f a)) : Stores places (p.bind f) := by
  have hnothing : Stores (fun _ => False) p :=
    Traces.mono hp (fun _ _ _ _ h => h.elim) fun _ _ _ => trivial
  exact (hnothing.bind hf).mono fun _ h => .inr h

theorem stores_note_bind {r : Record} {f : Unit → Link α} (h : Stores places (f ())) :
    Stores places ((note r).bind f) :=
  traces_note_bind h

theorem stores_report_bind {step : Progress} {f : Unit → Link α} (h : Stores places (f ())) :
    Stores places ((report step).bind f) :=
  (keeps_report (P := fun _ => True) step).bind_stores fun _ => h

/-- A program that writes, before one of which nothing is known. -/
theorem Stores.bind_keeps {p : Link α} {f : α → Link β}
    (hp : Stores places p) (hf : ∀ a, Keeps P (f a)) : Stores places (p.bind f) := by
  have hnothing : ∀ a, Stores (fun _ => False) (f a) := fun a =>
    Traces.mono (hf a) (fun _ _ _ _ h => h.elim) fun _ _ _ => trivial
  exact (hp.bind hnothing).mono fun _ h => .inl h

theorem stores_lift_bind {x : Except Crash α} {f : α → Link β}
    (h : ∀ a, x = .ok a → Stores places (f a)) :
    Stores places (Dialogue.bind (liftM x : Link α) f) :=
  traces_lift_bind h fun _ _ => trivial

end Stores

end Monitor

end BadgeLink
