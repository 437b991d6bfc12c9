import BadgeLink.Dialogue.Basic

/-!
# Running dialogues

Three readings of the same program. `Dialogue.run` plays it against a device, a state that answers
each request; `Dialogue.runM` answers the requests in any monad; and `Dialogue.Plays` relates it to
every conversation it can have, whatever is answered.

## Main statements

* `Dialogue.run_bind`: a sequence runs its first program and then, from the state reached, its
  second.
* `Dialogue.plays_bind_iff`: the conversations of a sequence are those of its parts, joined.
-/

namespace BadgeLink

/-- Surroundings with a state of type `σ` that answer the requests of `I`, or crash on one. -/
structure Device (I : Interface) (σ : Type) where
  /-- The answer to a request, and the state after it. -/
  respond : σ → (q : I.Request) → Except Crash (I.Answer q) × σ

/-- One step of a conversation: a request and its answer. -/
structure Exchange (I : Interface) where
  request : I.Request
  answer : I.Answer request

namespace Dialogue

variable {I : Interface} {ε α β σ : Type}

/-- Plays a program against a device; the program ends with the device when that crashes. -/
def run (d : Device I σ) : Dialogue I ε α → σ → Outcome ε α × σ
  | done o, s => (o, s)
  | ask q next, s =>
    match d.respond s q with
    | (.ok a, s') => run d (next a) s'
    | (.error c, s') => (.crash c, s')

/-- Plays a program in a monad that answers its requests. -/
def runM {m : Type → Type} [Monad m] (answer : (q : I.Request) → m (I.Answer q)) :
    Dialogue I ε α → m (Outcome ε α)
  | done o => pure o
  | ask q next => do
    let a ← answer q
    runM answer (next a)

/-- A program can have this conversation and then end with this outcome. -/
inductive Plays : Dialogue I ε α → List (Exchange I) → Outcome ε α → Prop where
  | done (o : Outcome ε α) : Plays (.done o) [] o
  | ask {q : I.Request} {next : I.Answer q → Dialogue I ε α} {a : I.Answer q}
      {rest : List (Exchange I)} {o : Outcome ε α} :
      Plays (next a) rest o → Plays (.ask q next) (⟨q, a⟩ :: rest) o

/-! ### Runs of compound programs -/

@[simp] theorem run_done (d : Device I σ) (o : Outcome ε α) (s : σ) : run d (done o) s = (o, s) :=
  rfl

/-- A sequence of programs runs the first and hands its value and the state on to the second. -/
theorem run_bind (d : Device I σ) (p : Dialogue I ε α) (f : α → Dialogue I ε β) (s : σ) :
    run d (p.bind f) s =
      match run d p s with
      | (.ok a, s') => run d (f a) s'
      | (.error e, s') => (.error e, s')
      | (.crash c, s') => (.crash c, s') := by
  induction p generalizing s with
  | done o => cases o <;> rfl
  | ask q next ih =>
    simp only [ask_bind, run]
    rcases d.respond s q with ⟨a | c, s'⟩
    · rfl
    · exact ih _ _

/-- The conversation of a sequence is that of its first program, followed, if that ends with a
value, by one of its second. -/
theorem plays_bind_iff {p : Dialogue I ε α} {f : α → Dialogue I ε β} {es : List (Exchange I)}
    {o : Outcome ε β} :
    Plays (p.bind f) es o ↔
      (∃ a es₁ es₂, es = es₁ ++ es₂ ∧ Plays p es₁ (.ok a) ∧ Plays (f a) es₂ o) ∨
      (∃ e, Plays p es (.error e) ∧ o = .error e) ∨ (∃ c, Plays p es (.crash c) ∧ o = .crash c) := by
  induction p generalizing es with
  | done r =>
    cases r with
    | ok a =>
      simp only [done_ok_bind]
      constructor
      · intro h
        exact .inl ⟨a, [], es, rfl, .done _, h⟩
      · rintro (⟨b, es₁, es₂, rfl, h₁, h₂⟩ | ⟨e, h, -⟩ | ⟨c, h, -⟩)
        · cases h₁; exact h₂
        · cases h
        · cases h
    | error e =>
      simp only [done_error_bind]
      constructor
      · intro h; cases h; exact .inr (.inl ⟨e, .done _, rfl⟩)
      · rintro (⟨b, es₁, es₂, rfl, h₁, h₂⟩ | ⟨e, h, rfl⟩ | ⟨c, h, -⟩)
        · cases h₁
        · cases h; exact .done _
        · cases h
    | crash c =>
      simp only [done_crash_bind]
      constructor
      · intro h; cases h; exact .inr (.inr ⟨c, .done _, rfl⟩)
      · rintro (⟨b, es₁, es₂, rfl, h₁, h₂⟩ | ⟨e, h, -⟩ | ⟨c, h, rfl⟩)
        · cases h₁
        · cases h
        · cases h; exact .done _
  | ask q next ih =>
    simp only [ask_bind]
    constructor
    · intro h
      cases h with
      | ask h =>
        rcases (ih _).1 h with ⟨b, es₁, es₂, rfl, h₁, h₂⟩ | ⟨e, h₁, rfl⟩ | ⟨c, h₁, rfl⟩
        · exact .inl ⟨b, _ :: es₁, es₂, rfl, .ask h₁, h₂⟩
        · exact .inr (.inl ⟨e, .ask h₁, rfl⟩)
        · exact .inr (.inr ⟨c, .ask h₁, rfl⟩)
    · rintro (⟨b, es₁, es₂, rfl, h₁, h₂⟩ | ⟨e, h, rfl⟩ | ⟨c, h, rfl⟩)
      · cases h₁ with
        | ask h₁ => exact .ask ((ih _).2 (.inl ⟨b, _, es₂, rfl, h₁, h₂⟩))
      · cases h with
        | ask h => exact .ask ((ih _).2 (.inr (.inl ⟨e, h, rfl⟩)))
      · cases h with
        | ask h => exact .ask ((ih _).2 (.inr (.inr ⟨c, h, rfl⟩)))

end Dialogue

end BadgeLink
