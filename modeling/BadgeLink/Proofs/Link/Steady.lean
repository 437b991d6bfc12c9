import BadgeLink.Proofs.Monitor.Client

/-!
# Programs that do not crash

A program is steady if no surroundings make it crash, but for a wait that never comes to an end.
Sending and receiving are steady, and so is every program of the boot monitor's client whose
addresses exist.
-/

namespace BadgeLink

open Dialogue

/-- Whatever the program is answered, it crashes in no other way than by a wait without an end. -/
def Steady {α : Type} (p : Link α) : Prop :=
  ∀ es c, p.Plays es (.crash c) → c = .stalled

variable {α β : Type}

theorem steady_ok (a : α) : Steady (done (.ok a)) := by
  intro es c h
  cases h

theorem steady_error (e : LinkError) : Steady (done (.error e) : Link α) := by
  intro es c h
  cases h

theorem Steady.bind {p : Link α} {f : α → Link β} (hp : Steady p) (hf : ∀ a, Steady (f a)) :
    Steady (p.bind f) := by
  intro es c h
  rcases plays_bind_iff.1 h with ⟨a, _, es₂, -, -, h⟩ | ⟨e, -, h⟩ | ⟨c, h, hc⟩
  · exact hf a es₂ c h
  · cases h
  · cases hc
    exact hp es c h

theorem Steady.discard {p : Link α} (h : Steady p) : Steady (discard p) :=
  h.bind fun _ => steady_ok _

theorem steady_note (r : Record) : Steady (Link.note r) := by
  intro es c hplays
  cases hplays with
  | ask hplays => cases hplays

theorem steady_note_bind {r : Record} {f : Unit → Link α} (h : Steady (f ())) :
    Steady ((Link.note r).bind f) :=
  (steady_note r).bind fun _ => h

theorem steady_report_bind {step : Progress} {f : Unit → Link α} (h : Steady (f ())) :
    Steady ((Link.report step).bind f) := by
  intro es c hplays
  cases hplays with
  | ask hplays => exact h _ c hplays

theorem steady_lift_bind {x : Except Crash α} {a : α} {f : α → Link β} (hx : x = .ok a)
    (h : Steady (f a)) : Steady (Dialogue.bind (liftM x : Link α) f) := by
  subst hx
  exact h

theorem steady_ofExcept (x : Except LinkError α) : Steady (Dialogue.ofExcept x) := by
  cases x with
  | ok a => exact steady_ok a
  | error e => exact steady_error e

/-- A program is steady that only the port can stop. -/
theorem Link.Ensures.steady {p : Link α} {Q : List Signal → α → Prop}
    {F : List Signal → Stop → Prop} (h : Link.Ensures p Q F) (hF : ∀ ss s, F ss s → s.Cut) :
    Steady p := by
  intro es c hplays
  cases hF _ _ (h es _ hplays)
  rfl

/-! ## Channels and monitors -/

namespace Monitor

variable (m : Monitor)

theorem steady_issue (c : Command) : Steady (m.issue c) :=
  (m.channel.ensures_send c.bytes).steady fun _ _ h => h.1

theorem steady_readWord (address : UInt32) : Steady (m.readWord address) :=
  (m.steady_issue _).bind fun _ =>
    ((m.channel.ensures_receive (by decide)).steady fun _ _ h => h.1).bind fun _ =>
      steady_note_bind (steady_ok _)

theorem steady_writeWord (address value : UInt32) : Steady (m.writeWord address value) :=
  steady_note_bind (m.steady_issue _)

theorem steady_readWords {address : UInt32} {left n : Nat} (hn : 4 * (n + left) ≤ 0x100000000)
    (h : address.toNat + 4 * (n + left) ≤ 0x100000000) (got : List UInt32) :
    Steady (m.readWords address left n got) := by
  induction left generalizing n got with
  | zero => exact steady_ok _
  | succ left ih =>
    refine steady_lift_bind (wordAddress_of_lt (by omega) (by omega)) ?_
    exact (m.steady_readWord _).bind fun _ => ih (by omega) (by omega) _

end Monitor

end BadgeLink
