import BadgeLink.Word

/-!
# Dialogues

A program that talks to its surroundings is a value: it either is done, with an outcome, or asks a
request and goes on with whatever answer it gets. A `Dialogue` is a well-founded tree, so every
conversation it can have is finite, and a statement about all surroundings is a statement about all
branches. What surroundings do with the requests is `BadgeLink.Dialogue.Run`.

## Main definitions

* `Interface`: the requests that a program may make, each with the type of its answers.
* `Outcome`: a value, an error that callers may catch, or a crash that they may not.
* `Dialogue`: the programs over an interface, a monad with errors.

## Main statements

* `Dialogue.bind_bind`: sequencing is associative, so that dialogues form a lawful monad.
-/

namespace BadgeLink

/-- What a program may ask of its surroundings, and what it may be answered. -/
structure Interface where
  Request : Type
  Answer : Request → Type

/-- How a program ends. -/
inductive Outcome (ε α : Type) where
  | ok (value : α)
  /-- With an error, which a caller may catch. -/
  | error (e : ε)
  /-- With a crash, which nothing catches. -/
  | crash (c : Crash)
deriving DecidableEq, Repr

/-- A program over an interface that ends with a value of type `α` or an error of type `ε`. -/
inductive Dialogue (I : Interface) (ε α : Type) where
  | done (outcome : Outcome ε α)
  /-- The program asks `request` and continues with the answer. -/
  | ask (request : I.Request) (next : I.Answer request → Dialogue I ε α)

namespace Dialogue

variable {I : Interface} {ε ε' α β γ : Type}

/-- Runs `f` on the value of a program; an error or a crash is passed on. -/
def bind : Dialogue I ε α → (α → Dialogue I ε β) → Dialogue I ε β
  | done (.ok a), f => f a
  | done (.error e), _ => done (.error e)
  | done (.crash c), _ => done (.crash c)
  | ask q next, f => ask q fun a => (next a).bind f

instance : Monad (Dialogue I ε) where
  pure a := done (.ok a)
  bind := bind

/-- Turns the error of a program into a value; a crash is passed on. -/
def attempt : Dialogue I ε α → Dialogue I ε' (Except ε α)
  | done (.ok a) => done (.ok (.ok a))
  | done (.error e) => done (.ok (.error e))
  | done (.crash c) => done (.crash c)
  | ask q next => ask q fun a => (next a).attempt

/-- Ends with a crash. -/
def crash (c : Crash) : Dialogue I ε α :=
  done (.crash c)

instance : MonadExceptOf ε (Dialogue I ε) where
  throw e := done (.error e)
  tryCatch p handle := p.attempt.bind fun
    | .ok a => done (.ok a)
    | .error e => handle e

/-- Checked arithmetic within a program: a failure is a crash. -/
instance : MonadLift (Except Crash) (Dialogue I ε) where
  monadLift
    | .ok a => done (.ok a)
    | .error c => done (.crash c)

/-- A pure computation that may fail, as a program that asks nothing. -/
def ofExcept : Except ε α → Dialogue I ε α
  | .ok a => done (.ok a)
  | .error e => done (.error e)

/-- A program over one interface as a program over another, each request answered by a program over
the other. -/
def translate {J : Interface} (handle : (q : I.Request) → Dialogue J ε' (I.Answer q))
    (onError : ε → ε') : Dialogue I ε α → Dialogue J ε' α
  | done (.ok a) => done (.ok a)
  | done (.error e) => done (.error (onError e))
  | done (.crash c) => done (.crash c)
  | ask q next => (handle q).bind fun a => translate handle onError (next a)

/-! ### Monad laws -/

@[simp] theorem pure_eq (a : α) : (pure a : Dialogue I ε α) = done (.ok a) := rfl

@[simp] theorem bind_eq (p : Dialogue I ε α) (f : α → Dialogue I ε β) : p >>= f = p.bind f := rfl

@[simp] theorem done_ok_bind (a : α) (f : α → Dialogue I ε β) :
    (done (.ok a) : Dialogue I ε α).bind f = f a := rfl

@[simp] theorem done_error_bind (e : ε) (f : α → Dialogue I ε β) :
    (done (.error e) : Dialogue I ε α).bind f = done (.error e) := rfl

@[simp] theorem done_crash_bind (c : Crash) (f : α → Dialogue I ε β) :
    (done (.crash c) : Dialogue I ε α).bind f = done (.crash c) := rfl

@[simp] theorem ask_bind (q : I.Request) (next : I.Answer q → Dialogue I ε α)
    (f : α → Dialogue I ε β) : (ask q next).bind f = ask q fun a => (next a).bind f := rfl

theorem bind_done_ok (p : Dialogue I ε α) : p.bind (fun a => done (.ok a)) = p := by
  induction p with
  | done o => cases o <;> rfl
  | ask q next ih => simp only [ask_bind, ih]

theorem bind_bind (p : Dialogue I ε α) (f : α → Dialogue I ε β) (g : β → Dialogue I ε γ) :
    (p.bind f).bind g = p.bind fun a => (f a).bind g := by
  induction p with
  | done o => cases o <;> rfl
  | ask q next ih => simp only [ask_bind, ih]

instance : LawfulMonad (Dialogue I ε) := LawfulMonad.mk' _
  bind_done_ok
  (fun _ _ => rfl)
  bind_bind

end Dialogue

end BadgeLink
