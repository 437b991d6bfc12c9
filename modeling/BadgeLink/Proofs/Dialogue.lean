import BadgeLink.Dialogue.Run

/-!
# Conversations of programs

Laws of `Dialogue.Plays` for the ways in which programs are put together, besides sequences: errors
that are caught, and programs that are translated to another interface. A run against a device is
one of the conversations of its program: the one that the device has.
-/

namespace BadgeLink

/-- What becomes of an end when a caller catches errors. -/
def Outcome.caught {ε ε' α : Type} : Outcome ε α → Outcome ε' (Except ε α)
  | .ok a => .ok (.ok a)
  | .error e => .ok (.error e)
  | .crash c => .crash c

/-- An end with another error in place of one. -/
def Outcome.mapError {ε ε' α : Type} (f : ε → ε') : Outcome ε α → Outcome ε' α
  | .ok a => .ok a
  | .error e => .error (f e)
  | .crash c => .crash c

/-- The end of a pure computation that may fail. -/
def Outcome.ofExcept {ε α : Type} : Except ε α → Outcome ε α
  | .ok a => .ok a
  | .error e => .error e

theorem Outcome.mapError_eq_ok {ε ε' α : Type} {f : ε → ε'} {o : Outcome ε α} {a : α} :
    o.mapError f = .ok a ↔ o = .ok a := by
  cases o <;> simp [mapError]

namespace Device

variable {I : Interface} {σ : Type}

/-- The device answers whatever it is asked. -/
def Total (d : Device I σ) : Prop :=
  ∀ s q, ∃ a s', d.respond s q = (.ok a, s')

/-- The device has a conversation on the way from one state to another. -/
inductive Holds (d : Device I σ) : σ → List (Exchange I) → σ → Prop where
  | nil (s : σ) : Holds d s [] s
  | cons {q : I.Request} {a : I.Answer q} {es : List (Exchange I)} {s s₁ s' : σ}
      (h : d.respond s q = (.ok a, s₁)) (hrest : Holds d s₁ es s') : Holds d s (⟨q, a⟩ :: es) s'

theorem Holds.append {d : Device I σ} {es es' : List (Exchange I)} {s s₁ s' : σ}
    (h : d.Holds s es s₁) (h' : d.Holds s₁ es' s') : d.Holds s (es ++ es') s' := by
  induction h with
  | nil => exact h'
  | cons hanswer _ ih => exact .cons hanswer (ih h')

theorem Holds.of_append {d : Device I σ} {es es' : List (Exchange I)} {s s' : σ}
    (h : d.Holds s (es ++ es') s') : ∃ s₁, d.Holds s es s₁ ∧ d.Holds s₁ es' s' := by
  induction es generalizing s with
  | nil => exact ⟨s, .nil s, h⟩
  | cons e es ih =>
    cases h with
    | cons hanswer hrest =>
      obtain ⟨s₁, hes, hes'⟩ := ih hrest
      exact ⟨s₁, .cons hanswer hes, hes'⟩

end Device

namespace Dialogue

variable {I : Interface} {ε ε' α β σ : Type}

theorem ofExcept_eq (x : Except ε α) :
    (ofExcept x : Dialogue I ε α) = done (.ofExcept x) := by
  cases x <;> rfl

theorem discard_bind (p : Dialogue I ε α) (f : Unit → Dialogue I ε β) :
    (discard p).bind f = p.bind fun _ => f () :=
  bind_bind p _ f

theorem plays_attempt {p : Dialogue I ε α} {es : List (Exchange I)} {o : Outcome ε' (Except ε α)}
    (h : p.attempt.Plays es o) : ∃ o', p.Plays es o' ∧ o = o'.caught := by
  induction p generalizing es with
  | done r =>
    cases r <;> cases h <;> exact ⟨_, .done _, rfl⟩
  | ask q next ih =>
    cases h with
    | ask h =>
      obtain ⟨o', h', rfl⟩ := ih _ h
      exact ⟨o', .ask h', rfl⟩

/-- A caller that catches errors ends with the value or the error of the program, or crashes with
it. -/
theorem plays_attempt_iff {p : Dialogue I ε α} {es : List (Exchange I)}
    {o : Outcome ε' (Except ε α)} :
    p.attempt.Plays es o ↔
      (∃ a, p.Plays es (.ok a) ∧ o = .ok (.ok a)) ∨
      (∃ e, p.Plays es (.error e) ∧ o = .ok (.error e)) ∨
      ∃ c, p.Plays es (.crash c) ∧ o = .crash c := by
  constructor
  · intro h
    obtain ⟨o', h', rfl⟩ := plays_attempt h
    cases o' with
    | ok a => exact .inl ⟨a, h', rfl⟩
    | error e => exact .inr (.inl ⟨e, h', rfl⟩)
    | crash c => exact .inr (.inr ⟨c, h', rfl⟩)
  · have hcaught : ∀ {es o'}, p.Plays es o' →
        p.attempt.Plays es (o'.caught : Outcome ε' (Except ε α)) := by
      intro es o' h
      induction h with
      | done o => cases o <;> exact .done _
      | ask _ ih => exact .ask ih
    rintro (⟨a, h, rfl⟩ | ⟨e, h, rfl⟩ | ⟨c, h, rfl⟩) <;> exact hcaught h

/-- A sequence ends with a value if its parts do. -/
theorem run_bind_eq_ok_iff {d : Device I σ} {p : Dialogue I ε α} {f : α → Dialogue I ε β} {b : β}
    {s s' : σ} :
    run d (p.bind f) s = (.ok b, s') ↔
      ∃ a s₁, run d p s = (.ok a, s₁) ∧ run d (f a) s₁ = (.ok b, s') := by
  rw [run_bind]
  constructor
  · intro h
    rcases hp : run d p s with ⟨a | e | c, s₁⟩
    · rw [hp] at h
      exact ⟨a, s₁, rfl, h⟩
    · rw [hp] at h
      cases h
    · rw [hp] at h
      cases h
  · rintro ⟨a, s₁, hp, h⟩
    rw [hp]
    exact h

/-- A program whose errors are caught runs like the program itself. -/
theorem run_attempt (d : Device I σ) (p : Dialogue I ε α) (s : σ) :
    run d (p.attempt : Dialogue I ε' (Except ε α)) s = ((run d p s).1.caught, (run d p s).2) := by
  induction p generalizing s with
  | done o => cases o <;> rfl
  | ask q next ih =>
    simp only [attempt, run]
    rcases d.respond s q with ⟨a | c, s'⟩
    · rfl
    · exact ih _ _

/-- A run that ends with a value is a conversation of the program. What every answer of the device
satisfies, while the device keeps an invariant, holds of the whole conversation. -/
theorem exists_plays_of_run {d : Device I σ} {Inv : σ → Prop} {P : Exchange I → Prop}
    (hstep : ∀ s q a s', Inv s → d.respond s q = (.ok a, s') → Inv s' ∧ P ⟨q, a⟩)
    {p : Dialogue I ε α} {s s' : σ} {a : α} (hs : Inv s) (h : p.run d s = (.ok a, s')) :
    ∃ es, p.Plays es (.ok a) ∧ ∀ e ∈ es, P e := by
  induction p generalizing s with
  | done o =>
    obtain rfl : o = .ok a := congrArg Prod.fst h
    exact ⟨[], .done _, nofun⟩
  | ask q next ih =>
    rw [run] at h
    split at h
    · next answer t hanswer =>
      obtain ⟨ht, hp⟩ := hstep s q answer t hs hanswer
      obtain ⟨es, hes, hall⟩ := ih _ ht h
      exact ⟨_, .ask hes, List.forall_mem_cons.2 ⟨hp, hall⟩⟩
    · cases h

/-- A conversation decides how a program ends. -/
theorem Plays.unique {p : Dialogue I ε α} {es : List (Exchange I)} {o o' : Outcome ε α}
    (h : p.Plays es o) (h' : p.Plays es o') : o = o' := by
  induction h with
  | done o =>
    cases h'
    rfl
  | ask _ ih =>
    cases h' with
    | ask h' => exact ih h'

/-- A program that has the conversation of a device runs against it accordingly. -/
theorem Plays.run_eq {d : Device I σ} {p : Dialogue I ε α} {es : List (Exchange I)}
    {o : Outcome ε α} {s s' : σ} (hp : p.Plays es o) (hd : d.Holds s es s') :
    p.run d s = (o, s') := by
  induction hp generalizing s with
  | done o =>
    cases hd
    rfl
  | ask _ ih =>
    cases hd with
    | cons hanswer hrest =>
      rw [run, hanswer]
      exact ih hrest

/-- A program has some conversation with every device that answers it. -/
theorem exists_plays_of_total {d : Device I σ} (hd : d.Total) (p : Dialogue I ε α) (s : σ) :
    ∃ es o s', p.Plays es o ∧ d.Holds s es s' := by
  induction p generalizing s with
  | done o => exact ⟨[], o, s, .done o, .nil s⟩
  | ask q next ih =>
    obtain ⟨a, s₁, hanswer⟩ := hd s q
    obtain ⟨es, o, s', hplays, hholds⟩ := ih a s₁
    exact ⟨_, o, s', .ask hplays, .cons hanswer hholds⟩

/-! ## Values that can be reached -/

/-- The program has a conversation after which it ends with this value. -/
def Yields (p : Dialogue I ε α) (a : α) : Prop :=
  ∃ es, p.Plays es (.ok a)

theorem yields_ok (a : α) : Yields (done (.ok a) : Dialogue I ε α) a :=
  ⟨[], .done _⟩

theorem yields_ask {q : I.Request} {next : I.Answer q → Dialogue I ε α} (answer : I.Answer q) {a : α}
    (h : Yields (next answer) a) : Yields (ask q next) a := by
  obtain ⟨es, hes⟩ := h
  exact ⟨_, .ask hes⟩

theorem Yields.bind {p : Dialogue I ε α} {f : α → Dialogue I ε β} {a : α} {b : β}
    (hp : Yields p a) (hf : Yields (f a) b) : Yields (p.bind f) b := by
  obtain ⟨es, hes⟩ := hp
  obtain ⟨es', hes'⟩ := hf
  exact ⟨_, plays_bind_iff.2 (.inl ⟨a, es, es', rfl, hes, hes'⟩)⟩

theorem Yields.attempt {p : Dialogue I ε α} {a : α} (h : Yields p a) :
    Yields (p.attempt : Dialogue I ε' (Except ε α)) (.ok a) := by
  obtain ⟨es, hes⟩ := h
  generalize ho : Outcome.ok a = o at hes
  induction hes with
  | done o =>
    subst ho
    exact yields_ok _
  | ask _ ih => exact yields_ask _ (ih ho)

/-! ## Values that are returned -/

/-- Every value with which the program can end satisfies `Q`. -/
def Returns (p : Dialogue I ε α) (Q : α → Prop) : Prop :=
  ∀ es a, p.Plays es (.ok a) → Q a

theorem returns_ok {a : α} {Q : α → Prop} (h : Q a) : Returns (done (.ok a) : Dialogue I ε α) Q := by
  intro es b hplays
  cases hplays
  exact h

theorem returns_error (e : ε) (Q : α → Prop) : Returns (done (.error e) : Dialogue I ε α) Q := by
  intro es b hplays
  cases hplays

theorem Returns.bind {p : Dialogue I ε α} {f : α → Dialogue I ε β} {Q : α → Prop} {R : β → Prop}
    (hp : Returns p Q) (hf : ∀ a, Q a → Returns (f a) R) : Returns (p.bind f) R := by
  intro es b h
  rcases plays_bind_iff.1 h with ⟨a, es₁, es₂, -, h₁, h₂⟩ | ⟨e, -, he⟩ | ⟨c, -, hc⟩
  · exact hf a (hp es₁ a h₁) es₂ b h₂
  · cases he
  · cases hc

theorem returns_bind {p : Dialogue I ε α} {f : α → Dialogue I ε β} {R : β → Prop}
    (hf : ∀ a, Returns (f a) R) : Returns (p.bind f) R :=
  Returns.bind (Q := fun _ => True) (fun _ _ _ => trivial) fun a _ => hf a

/-! ## Crashes that can be reached -/

/-- The program has a conversation after which it crashes in this way. -/
def Crashes (p : Dialogue I ε α) (c : Crash) : Prop :=
  ∃ es, p.Plays es (.crash c)

theorem crashes_crash (c : Crash) : Crashes (done (.crash c) : Dialogue I ε α) c :=
  ⟨[], .done _⟩

theorem Crashes.bind {p : Dialogue I ε α} {c : Crash} (h : Crashes p c)
    (f : α → Dialogue I ε β) : Crashes (p.bind f) c := by
  obtain ⟨es, hes⟩ := h
  exact ⟨es, plays_bind_iff.2 (.inr (.inr ⟨c, hes, rfl⟩))⟩

theorem Yields.bind_crashes {p : Dialogue I ε α} {f : α → Dialogue I ε β} {a : α} {c : Crash}
    (hp : Yields p a) (hf : Crashes (f a) c) : Crashes (p.bind f) c := by
  obtain ⟨es, hes⟩ := hp
  obtain ⟨es', hes'⟩ := hf
  exact ⟨_, plays_bind_iff.2 (.inl ⟨a, es, es', rfl, hes, hes'⟩)⟩

end Dialogue

end BadgeLink
