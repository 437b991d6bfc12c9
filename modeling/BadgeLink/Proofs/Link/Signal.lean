import BadgeLink.Link.Basic
import BadgeLink.Proofs.Dialogue

/-!
# Signals

What a conversation over a link shows to the outside: the bytes that the port accepted and
delivered, and the progress that the listener was told, in the order in which they occurred. A
statement about all conversations of a program is a statement about every port and every device.

* `Link.signals` reads the signals off a conversation, `Link.accepted` the accepted bytes alone, which
  are also the bytes sent of these signals (`Link.sentBytes`).
* `Link.Ensures` states what a program guarantees of the signals of all its conversations,
  separately for those that end with a value and for those that stop short.
* `Ensures.bind` derives the guarantees of a sequence from those of its parts.
-/

namespace BadgeLink

/-- What the outside sees of one step of a conversation. -/
inductive Signal where
  | sent (b : UInt8)
  | got (b : UInt8)
  | told (p : Progress)
deriving DecidableEq, Repr

/-- How a program stops short of a value. -/
inductive Stop where
  | error (e : LinkError)
  | crash (c : Crash)
deriving DecidableEq, Repr

/-- How an outcome stops short of a value, if it does. -/
def Outcome.stop? {α : Type} : Outcome LinkError α → Option Stop
  | .ok _ => none
  | .error e => some (.error e)
  | .crash c => some (.crash c)

theorem Outcome.stop?_eq_error {α : Type} {o : Outcome LinkError α} {e : LinkError} :
    o.stop? = some (.error e) ↔ o = .error e := by
  cases o <;> simp [stop?]

/-- The end of a program that stops so. -/
def Stop.outcome {α : Type} : Stop → Outcome LinkError α
  | .error e => .error e
  | .crash c => .crash c

theorem Stop.outcome_ne_ok {α : Type} (s : Stop) (a : α) : s.outcome ≠ .ok a := by
  cases s <;> exact nofun

theorem Stop.outcome_inj {α : Type} {s s' : Stop}
    (h : (s.outcome : Outcome LinkError α) = s'.outcome) : s = s' := by
  cases s <;> cases s' <;> cases h <;> rfl

/-- A stop that a port brings about: it fails, leaves a response incomplete, or never comes to an
end of a wait. -/
inductive Stop.Cut : Stop → Prop where
  | port (f : PortFault) : Cut (.error (.port f))
  | timeout (ms : UInt32) (expected received : Nat) : Cut (.error (.timeout ms expected received))
  | stalled : Cut (.crash .stalled)

namespace Link

open Dialogue

variable {α β : Type}

/-- A sequence goes on after its first program, or stops as this does. -/
theorem plays_bind_iff_stop {p : Link α} {f : α → Link β}
    {es : List (Exchange interface)} {o : Outcome LinkError β} :
    (p.bind f).Plays es o ↔
      (∃ a es₁ es₂, es = es₁ ++ es₂ ∧ p.Plays es₁ (.ok a) ∧ (f a).Plays es₂ o) ∨
      ∃ s : Stop, p.Plays es s.outcome ∧ o = s.outcome := by
  rw [plays_bind_iff]
  refine or_congr Iff.rfl ⟨?_, ?_⟩
  · rintro (⟨e, h, rfl⟩ | ⟨c, h, rfl⟩)
    · exact ⟨.error e, h, rfl⟩
    · exact ⟨.crash c, h, rfl⟩
  · rintro ⟨e | c, h, rfl⟩
    · exact .inl ⟨e, h, rfl⟩
    · exact .inr ⟨c, h, rfl⟩

/-! ## Signals of a conversation -/

/-- The signal of a step. Requests that the port refused, reads that found nothing, and whatever
concerns the clock and the log give none. -/
def signal? : Exchange interface → Option Signal
  | ⟨.write b, .done⟩ => some (.sent b)
  | ⟨.read, .byte b⟩ => some (.got b)
  | ⟨.report p, _⟩ => some (.told p)
  | _ => none

def signals (es : List (Exchange interface)) : List Signal :=
  es.filterMap signal?

@[simp] theorem signals_nil : signals [] = [] := rfl

@[simp] theorem signals_append (es₁ es₂ : List (Exchange interface)) :
    signals (es₁ ++ es₂) = signals es₁ ++ signals es₂ :=
  List.filterMap_append

theorem signals_cons (e : Exchange interface) (es : List (Exchange interface)) :
    signals (e :: es) = (signal? e).toList ++ signals es := by
  unfold signals
  rw [List.filterMap_cons]
  cases signal? e <;> rfl

/-- The bytes that the port accepted in a conversation. -/
def accepted (es : List (Exchange interface)) : List UInt8 :=
  es.filterMap fun
    | ⟨.write b, .done⟩ => some b
    | _ => none

theorem accepted_append (es₁ es₂ : List (Exchange interface)) :
    accepted (es₁ ++ es₂) = accepted es₁ ++ accepted es₂ :=
  List.filterMap_append

theorem accepted_cons (e : Exchange interface) (es : List (Exchange interface)) :
    accepted (e :: es) = accepted [e] ++ accepted es :=
  accepted_append [e] es

/-- The byte of a signal that a byte was sent. -/
def sentByte? : Signal → Option UInt8
  | .sent b => some b
  | _ => none

/-- The bytes that were sent, of some signals. -/
def sentBytes (ss : List Signal) : List UInt8 :=
  ss.filterMap sentByte?

@[simp] theorem sentBytes_append (ss₁ ss₂ : List Signal) :
    sentBytes (ss₁ ++ ss₂) = sentBytes ss₁ ++ sentBytes ss₂ :=
  List.filterMap_append

@[simp] theorem sentBytes_sent (bytes : List UInt8) : sentBytes (bytes.map .sent) = bytes := by
  induction bytes with
  | nil => rfl
  | cons b bytes ih => exact congrArg (b :: ·) ih

@[simp] theorem sentBytes_got (bytes : List UInt8) : sentBytes (bytes.map .got) = [] := by
  induction bytes with
  | nil => rfl
  | cons b bytes ih => exact ih

theorem accepted_eq (es : List (Exchange interface)) : accepted es = sentBytes (signals es) := by
  unfold accepted sentBytes signals
  rw [List.filterMap_filterMap]
  congr 1
  funext e
  rcases e with ⟨q, a⟩
  cases q with
  | read => cases a <;> rfl
  | write b => cases a <;> rfl
  | flush => cases a <;> rfl
  | pause _ | now | note _ | report _ => rfl

/-! ## Guarantees -/

/-- What `Q` and `F` say about an end after some signals. -/
def Ends (Q : List Signal → α → Prop) (F : List Signal → Stop → Prop) (ss : List Signal) :
    Outcome LinkError α → Prop
  | .ok a => Q ss a
  | .error e => F ss (.error e)
  | .crash c => F ss (.crash c)

/-- Whatever the program is answered, its signals and its value satisfy `Q` if it ends with a value,
and its signals and the stop satisfy `F` if it does not. -/
def Ensures (p : Link α) (Q : List Signal → α → Prop) (F : List Signal → Stop → Prop) : Prop :=
  ∀ es o, p.Plays es o → Ends Q F (signals es) o

variable {Q R : List Signal → α → Prop} {F G : List Signal → Stop → Prop}

theorem Ensures.mono {p : Link α} (h : Ensures p Q F) (hQ : ∀ ss a, Q ss a → R ss a)
    (hF : ∀ ss s, F ss s → G ss s) : Ensures p R G := by
  intro es o hp
  have h := h es o hp
  cases o with
  | ok a => exact hQ _ _ h
  | error e => exact hF _ _ h
  | crash c => exact hF _ _ h

theorem ensures_ok {a : α} (h : Q [] a) : Ensures (done (.ok a)) Q F := by
  intro es o hp
  cases hp
  exact h

theorem ensures_error {e : LinkError} (h : F [] (.error e)) :
    Ensures (done (.error e) : Link α) Q F := by
  intro es o hp
  cases hp
  exact h

theorem ensures_crash {c : Crash} (h : F [] (.crash c)) :
    Ensures (done (.crash c) : Link α) Q F := by
  intro es o hp
  cases hp
  exact h

/-- A request adds the signal of its answer in front of those of the rest. -/
theorem ensures_ask {q : Request} {next : Answer q → Link α}
    (h : ∀ a, Ensures (next a) (fun ss b => Q ((signal? ⟨q, a⟩).toList ++ ss) b)
      (fun ss s => F ((signal? ⟨q, a⟩).toList ++ ss) s)) :
    Ensures (ask q next) Q F := by
  intro es o hp
  cases hp with
  | ask hp =>
    rw [signals_cons]
    have h := h _ _ _ hp
    cases o <;> exact h

/-- A sequence ensures what its second program ensures after the first, provided that a stop of the
first is accounted for. -/
theorem Ensures.bind {p : Link α} {f : α → Link β} {R : List Signal → β → Prop}
    (hp : Ensures p Q F) (hF : ∀ ss s, F ss s → G ss s)
    (hf : ∀ ss a, Q ss a →
      Ensures (f a) (fun ss' b => R (ss ++ ss') b) (fun ss' s => G (ss ++ ss') s)) :
    Ensures (p.bind f) R G := by
  intro es o h
  rcases plays_bind_iff.1 h with ⟨a, es₁, es₂, rfl, h₁, h₂⟩ | ⟨e, h₁, rfl⟩ | ⟨c, h₁, rfl⟩
  · rw [signals_append]
    have h := hf _ _ (hp _ _ h₁) _ _ h₂
    cases o <;> exact h
  · exact hF _ _ (hp _ _ h₁)
  · exact hF _ _ (hp _ _ h₁)

/-- A caller that catches errors sees what the program ensures of its values and of its errors;
only crashes still stop it. -/
theorem Ensures.attempt {p : Link α} (hp : Ensures p Q F) :
    Ensures (p.attempt : Link (Except LinkError α))
      (fun ss r => Ends Q F ss (match r with | .ok a => .ok a | .error e => .error e))
      fun ss s => (∃ c, s = .crash c) ∧ F ss s := by
  intro es o h
  obtain ⟨o', h', rfl⟩ := plays_attempt h
  have h := hp _ _ h'
  cases o' with
  | ok a => exact h
  | error e => exact h
  | crash c => exact ⟨⟨c, rfl⟩, h⟩

/-! ### Requests without a signal -/

theorem ensures_note_bind {r : Record} {f : Unit → Link α} (h : Ensures (f ()) Q F) :
    Ensures ((note r).bind f) Q F :=
  ensures_ask fun _ => h

theorem ensures_now_bind {f : Nat → Link α} (h : ∀ t, Ensures (f t) Q F) :
    Ensures (now.bind f) Q F :=
  ensures_ask fun t => h t

/-- Checked arithmetic shows nothing; where it fails, the program crashes. -/
theorem ensures_lift_bind {x : Except Crash α} {f : α → Link β} {R : List Signal → β → Prop}
    (hok : ∀ a, x = .ok a → Ensures (f a) R F) (hcrash : ∀ c, x = .error c → F [] (.crash c)) :
    Ensures (Dialogue.bind (liftM x : Link α) f) R F := by
  cases x with
  | ok a => exact hok a rfl
  | error c => exact ensures_crash (hcrash c rfl)

end Link

end BadgeLink
