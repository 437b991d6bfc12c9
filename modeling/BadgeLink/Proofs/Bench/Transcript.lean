import BadgeLink.Bench.Script
import BadgeLink.Proofs.Bench.Run
import BadgeLink.Proofs.Link.Signal

/-!
# Transcripts of runs

The bytes that the port accepts in a run on a bench are those of the conversation that the run is. So
what a program guarantees of the bytes it sends holds of the transcript.

* `exists_plays_accepting`: a run and its conversation.
* `Transmits` states the value, the bytes and the port of a run; `Runs.transmits` derives it.
-/

namespace BadgeLink.Bench

open Dialogue Link

variable {ρ α β : Type} {port : SimulatedPort ρ} {pace : Pace}

/-- A bench answers every request if no write makes its device crash. -/
theorem total_device (hwrite : ∀ b s, ∃ a s', port.write b s = (.ok a, s')) :
    (device port pace).Total := by
  rintro ⟨p, clock, t⟩ q
  cases q with
  | read =>
    rcases hread : port.read clock p with ⟨r, p'⟩
    cases r <;> simp [device, hread]
  | write b =>
    obtain ⟨a, p', hwrite⟩ := hwrite b p
    cases a <;> simp [device, hwrite]
  | flush | pause _ | now | note _ | report _ => exact ⟨_, _, rfl⟩

theorem total_script (pace : Pace) : (device Script.port pace).Total := by
  refine total_device fun b s => ?_
  rcases hconsult : Script.consult s.writes with ⟨a, writes⟩
  cases a <;> simp [Script.port, hconsult]

theorem accepted_respond {b b' : Bench ρ} {q : Link.Request} {a : Link.Answer q}
    (h : (device port pace).respond b q = (.ok a, b')) :
    b'.transcript.accepted = (accepted [⟨q, a⟩]).reverse ++ b.transcript.accepted := by
  obtain ⟨p, clock, t⟩ := b
  cases q with
  | read =>
    simp only [device] at h
    split at h <;> cases h <;> rfl
  | write byte =>
    rcases hwrite : port.write byte p with ⟨e | r, p'⟩
    · simp only [device, hwrite] at h
      cases h
    · simp only [device, hwrite] at h
      cases r <;> cases h <;> rfl
  | flush | pause _ | now | note _ | report _ =>
    cases h
    rfl

/-- A run that ends with a value is a conversation, and the port accepted the bytes of it. -/
theorem exists_plays_accepting {p : Link α} {b b' : Bench ρ} {a : α}
    (h : p.run (device port pace) b = (.ok a, b')) :
    ∃ es, p.Plays es (.ok a) ∧
      b'.transcript.accepted = (accepted es).reverse ++ b.transcript.accepted := by
  induction p generalizing b with
  | done o =>
    cases h
    exact ⟨[], .done _, rfl⟩
  | ask q next ih =>
    rw [run] at h
    split at h
    · next answer b₁ hanswer =>
      obtain ⟨es, hes, hrest⟩ := ih _ h
      refine ⟨_, .ask hes, ?_⟩
      rw [hrest, accepted_respond hanswer, accepted_cons _ es, List.reverse_append, List.append_assoc]
    · cases h

/-! ## Values and bytes -/

/-- On a bench whose port is in the state `s`, the program ends with the value `a`, the port accepts
these bytes on the way, and it is in the state `s'` then. -/
def Transmits (port : SimulatedPort ρ) (pace : Pace) (p : Link α) (s : ρ) (a : α)
    (bytes : List UInt8) (s' : ρ) : Prop :=
  ∀ clock t, ∃ clock' t', p.run (device port pace) ⟨s, clock, t⟩ = (.ok a, ⟨s', clock', t'⟩) ∧
    t'.accepted = bytes.reverse ++ t.accepted

variable {s s' s'' : ρ} {a : α} {b : β} {bytes rest : List UInt8}

theorem transmits_ok (a : α) (s : ρ) : Transmits port pace (done (.ok a)) s a [] s :=
  fun clock t => ⟨clock, t, rfl, rfl⟩

theorem Transmits.bind {p : Link α} {f : α → Link β} (hp : Transmits port pace p s a bytes s')
    (hf : Transmits port pace (f a) s' b rest s'') :
    Transmits port pace (p.bind f) s b (bytes ++ rest) s'' := by
  intro clock t
  obtain ⟨clock', t', hrun, hbytes⟩ := hp clock t
  obtain ⟨clock'', t'', hnext, hrest⟩ := hf clock' t'
  refine ⟨clock'', t'', ?_, ?_⟩
  · rw [run_bind, hrun]
    exact hnext
  · rw [hrest, hbytes, List.reverse_append, List.append_assoc]

/-- A program that sends these bytes, whatever it is answered, transmits them where it succeeds. -/
theorem Runs.transmits {p : Link α} {F : List Signal → Stop → Prop}
    (h : Runs port pace p s fun r w => r = a ∧ w = s')
    (hbytes : Ensures p (fun ss _ => sentBytes ss = bytes) F) :
    Transmits port pace p s a bytes s' := by
  intro clock t
  obtain ⟨_, _, clock', t', hrun, rfl, rfl⟩ := h clock t
  obtain ⟨es, hes, haccepted⟩ := exists_plays_accepting hrun
  have hes : sentBytes (signals es) = bytes := hbytes es _ hes
  refine ⟨clock', t', hrun, ?_⟩
  rw [haccepted, accepted_eq, hes]

end BadgeLink.Bench
