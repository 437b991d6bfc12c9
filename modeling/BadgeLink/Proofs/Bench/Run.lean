import BadgeLink.Bench.Wire
import BadgeLink.Proofs.Bench.Polling

/-!
# Programs on a bench

What a program does on a bench with a simulated port, as far as the value and the state of the port
are concerned; the clock and the transcript take part in nothing that is stated here.

* `Bench.Runs` states that a program ends with a value, and which; `Bench.Fails` that it ends with
  an error; `Bench.Concludes` and `Bench.Ends` that it ends in one of these two ways, and in which.
* `Queued` is a port on which bytes wait, `Queued.runs_receiveWithin` the law of receiving them, and
  `Queued.runs_drain` that of discarding them.
* `runs_send` and `runs_receive` are the laws of a channel whose port has a simulated device at its
  other end: what is sent is fed to the device, and what the device replied is received.
-/

namespace BadgeLink

theorem Channel.patience_pos (options : Options) : 0 < ({ options } : Channel).patience :=
  Nat.succ_pos 0x3fffffffffffffff

namespace Bench

open Dialogue

variable {ρ α β : Type} {port : SimulatedPort ρ} {pace : Pace}

/-- On a bench whose port is in a state `s`, the program ends with a value, and `Q` holds of it and
of the state that the port is in then. -/
def Runs (port : SimulatedPort ρ) (pace : Pace) (p : Link α) (s : ρ) (Q : α → ρ → Prop) : Prop :=
  ∀ clock t, ∃ a s' clock' t',
    p.run (device port pace) ⟨s, clock, t⟩ = (.ok a, ⟨s', clock', t'⟩) ∧ Q a s'

variable {s : ρ} {Q : α → ρ → Prop} {R : β → ρ → Prop}

theorem Runs.mono {Q' : α → ρ → Prop} {p : Link α} (h : Runs port pace p s Q)
    (hQ : ∀ a s', Q a s' → Q' a s') : Runs port pace p s Q' := by
  intro clock t
  obtain ⟨a, s', clock', t', hrun, ha⟩ := h clock t
  exact ⟨a, s', clock', t', hrun, hQ a s' ha⟩

theorem runs_ok {a : α} (h : Q a s) : Runs port pace (done (.ok a)) s Q :=
  fun clock t => ⟨a, s, clock, t, rfl, h⟩

theorem Runs.bind {p : Link α} {f : α → Link β} (hp : Runs port pace p s Q)
    (hf : ∀ a s', Q a s' → Runs port pace (f a) s' R) : Runs port pace (p.bind f) s R := by
  intro clock t
  obtain ⟨a, s', clock', t', hrun, ha⟩ := hp clock t
  obtain ⟨b, s'', clock'', t'', hrest, hb⟩ := hf a s' ha clock' t'
  refine ⟨b, s'', clock'', t'', ?_, hb⟩
  rw [run_bind, hrun]
  exact hrest

theorem Runs.discard {p : Link α} (h : Runs port pace p s Q) :
    Runs port pace (discard p) s fun _ s' => ∃ a, Q a s' :=
  h.bind fun a _ ha => runs_ok ⟨a, ha⟩

theorem Runs.attempt {p : Link α} (h : Runs port pace p s Q) :
    Runs port pace (p.attempt : Link (Except LinkError α)) s
      fun r s' => ∃ a, r = .ok a ∧ Q a s' := by
  intro clock t
  obtain ⟨a, s', clock', t', hrun, ha⟩ := h clock t
  refine ⟨.ok a, s', clock', t', ?_, a, rfl, ha⟩
  rw [run_attempt, hrun]
  rfl

theorem runs_note (r : Record) : Runs port pace (Link.note r) s fun _ s' => s' = s :=
  fun clock _ => ⟨(), s, clock, _, rfl, rfl⟩

theorem runs_note_bind {r : Record} {f : Unit → Link α} (h : Runs port pace (f ()) s Q) :
    Runs port pace ((Link.note r).bind f) s Q :=
  (runs_note r).bind fun _ _ hs => hs ▸ h

theorem runs_report_bind {step : Progress} {f : Unit → Link α} (h : Runs port pace (f ()) s Q) :
    Runs port pace ((Link.report step).bind f) s Q := by
  have hreport : Runs port pace (Link.report step) s fun _ s' => s' = s :=
    fun clock _ => ⟨(), s, clock, _, rfl, rfl⟩
  exact hreport.bind fun _ _ hs => hs ▸ h

theorem runs_now_bind {f : Nat → Link α} (h : ∀ time, Runs port pace (f time) s Q) :
    Runs port pace (Link.now.bind f) s Q := by
  have hnow : Runs port pace Link.now s fun _ s' => s' = s :=
    fun clock t => ⟨clock, s, _, t, rfl, rfl⟩
  exact hnow.bind fun time _ hs => hs ▸ h time

theorem runs_lift_bind {x : Except Crash α} {a : α} {f : α → Link β} (hx : x = .ok a)
    (h : Runs port pace (f a) s R) : Runs port pace (Dialogue.bind (liftM x : Link α) f) s R := by
  subst hx
  exact h

/-! ## Failures -/

/-- On a bench whose port is in a state `s`, the program ends with the error `e`, and `F` holds of
the state that the port is in then. -/
def Fails (port : SimulatedPort ρ) (pace : Pace) (p : Link α) (s : ρ) (e : LinkError)
    (F : ρ → Prop) : Prop :=
  ∀ clock t, ∃ s' clock' t',
    p.run (device port pace) ⟨s, clock, t⟩ = (.error e, ⟨s', clock', t'⟩) ∧ F s'

variable {e : LinkError} {F : ρ → Prop}

theorem fails_error (h : F s) : Fails port pace (done (.error e) : Link α) s e F :=
  fun clock t => ⟨s, clock, t, rfl, h⟩

theorem Fails.mono {F' : ρ → Prop} {p : Link α} (h : Fails port pace p s e F)
    (hF : ∀ s', F s' → F' s') : Fails port pace p s e F' := by
  intro clock t
  obtain ⟨s', clock', t', hrun, hs'⟩ := h clock t
  exact ⟨s', clock', t', hrun, hF s' hs'⟩

theorem Fails.bind {p : Link α} (h : Fails port pace p s e F) (f : α → Link β) :
    Fails port pace (p.bind f) s e F := by
  intro clock t
  obtain ⟨s', clock', t', hrun, hs'⟩ := h clock t
  refine ⟨s', clock', t', ?_, hs'⟩
  rw [run_bind, hrun]

theorem Runs.bind_fails {p : Link α} {f : α → Link β} (hp : Runs port pace p s Q)
    (hf : ∀ a s', Q a s' → Fails port pace (f a) s' e F) : Fails port pace (p.bind f) s e F := by
  intro clock t
  obtain ⟨a, s', clock', t', hrun, ha⟩ := hp clock t
  obtain ⟨s'', clock'', t'', hrest, hs''⟩ := hf a s' ha clock' t'
  refine ⟨s'', clock'', t'', ?_, hs''⟩
  rw [run_bind, hrun]
  exact hrest

theorem Fails.attempt {p : Link α} (h : Fails port pace p s e F) :
    Runs port pace (p.attempt : Link (Except LinkError α)) s fun r s' => r = .error e ∧ F s' := by
  intro clock t
  obtain ⟨s', clock', t', hrun, hs'⟩ := h clock t
  refine ⟨.error e, s', clock', t', ?_, rfl, hs'⟩
  rw [run_attempt, hrun]
  rfl

theorem fails_note_bind {r : Record} {f : Unit → Link α} (h : Fails port pace (f ()) s e F) :
    Fails port pace ((Link.note r).bind f) s e F :=
  (runs_note r).bind_fails fun _ _ hs => hs ▸ h

theorem fails_lift_bind {x : Except Crash α} {a : α} {f : α → Link β} (hx : x = .ok a)
    (h : Fails port pace (f a) s e F) :
    Fails port pace (Dialogue.bind (liftM x : Link α) f) s e F := by
  subst hx
  exact h

/-! ## Either end -/

/-- On a bench whose port is in a state `s`, the program ends with this value or this error, and `F`
holds of the state that the port is in then. -/
def Concludes (port : SimulatedPort ρ) (pace : Pace) (p : Link α) (s : ρ) (x : Except LinkError α)
    (F : ρ → Prop) : Prop :=
  ∀ clock t, ∃ s' clock' t',
    p.run (device port pace) ⟨s, clock, t⟩ = (.ofExcept x, ⟨s', clock', t'⟩) ∧ F s'

theorem Fails.concludes {p : Link α} (h : Fails port pace p s e F) :
    Concludes port pace p s (.error e) F :=
  h

theorem concludes_ofExcept (x : Except LinkError α) (h : F s) :
    Concludes port pace (Dialogue.ofExcept x) s x F := by
  intro clock t
  rw [ofExcept_eq]
  exact ⟨s, clock, t, rfl, h⟩

theorem Runs.bind_concludes {p : Link α} {f : α → Link β} {y : Except LinkError β}
    (hp : Runs port pace p s Q) (hf : ∀ a s₁, Q a s₁ → Concludes port pace (f a) s₁ y F) :
    Concludes port pace (p.bind f) s y F := by
  intro clock t
  obtain ⟨a, s₁, clock₁, t₁, hrun, ha⟩ := hp clock t
  rw [run_bind, hrun]
  exact hf a s₁ ha clock₁ t₁

theorem concludes_note_bind {r : Record} {f : Unit → Link α} {x : Except LinkError α}
    (h : Concludes port pace (f ()) s x F) : Concludes port pace ((Link.note r).bind f) s x F :=
  (runs_note r).bind_concludes fun _ _ hs => hs ▸ h

/-- A sequence whose second program keeps what the first one says of the port. -/
theorem Concludes.bind {p : Link α} {f : α → Link β} {x : Except LinkError α}
    {g : α → Except LinkError β} (hp : Concludes port pace p s x F)
    (hf : ∀ a s₁, F s₁ → Concludes port pace (f a) s₁ (g a) F) :
    Concludes port pace (p.bind f) s (x >>= g) F := by
  intro clock t
  obtain ⟨s₁, clock₁, t₁, hrun, hs₁⟩ := hp clock t
  rw [run_bind, hrun]
  cases x with
  | ok a => exact hf a s₁ hs₁ clock₁ t₁
  | error e => exact ⟨s₁, clock₁, t₁, rfl, hs₁⟩

/-- On a bench whose port is in a state `s`, the program ends with this value or this error, and the
port is in the state `s'` then. -/
def Ends (port : SimulatedPort ρ) (pace : Pace) (p : Link α) (s : ρ) (x : Except LinkError α)
    (s' : ρ) : Prop :=
  ∀ clock t, ∃ clock' t',
    p.run (device port pace) ⟨s, clock, t⟩ = (.ofExcept x, ⟨s', clock', t'⟩)

variable {s' : ρ}

theorem ends_iff {p : Link α} {x : Except LinkError α} :
    Ends port pace p s x s' ↔ Concludes port pace p s x (· = s') := by
  constructor
  · intro h clock t
    obtain ⟨clock', t', hrun⟩ := h clock t
    exact ⟨s', clock', t', hrun, rfl⟩
  · intro h clock t
    obtain ⟨_, clock', t', hrun, rfl⟩ := h clock t
    exact ⟨clock', t', hrun⟩

theorem Ends.runs {p : Link α} {a : α} (h : Ends port pace p s (.ok a) s') :
    Runs port pace p s fun r w => r = a ∧ w = s' := by
  intro clock t
  obtain ⟨clock', t', hrun⟩ := h clock t
  exact ⟨a, s', clock', t', hrun, rfl, rfl⟩

theorem ends_ofExcept (x : Except LinkError α) :
    Ends port pace (Dialogue.ofExcept x) s x s :=
  ends_iff.2 (concludes_ofExcept x rfl)

/-- A sequence whose second program leaves the port as the first one did. -/
theorem Ends.bind {p : Link α} {f : α → Link β} {x : Except LinkError α}
    {g : α → Except LinkError β} (hp : Ends port pace p s x s')
    (hf : ∀ a, Ends port pace (f a) s' (g a) s') : Ends port pace (p.bind f) s (x >>= g) s' := by
  refine ends_iff.2 ((ends_iff.1 hp).bind ?_)
  intro a s₁ hs₁
  subst hs₁
  exact ends_iff.1 (hf a)

/-! ## Bytes that wait -/

/-- `P` says which bytes wait on the port in a state. A read takes the first of them, and finds none
when none wait. -/
structure Queued (port : SimulatedPort ρ) (P : List UInt8 → ρ → Prop) : Prop where
  read_cons : ∀ b queue s, P (b :: queue) s → ∀ clock, ∃ s',
    port.read clock s = (.byte b, s') ∧ P queue s'
  read_nil : ∀ s, P [] s → ∀ clock, ∃ r s',
    r.byte? = none ∧ port.read clock s = (r, s') ∧ P [] s'

namespace Queued

variable {P : List UInt8 → ρ → Prop} {c : Channel} {queue : List UInt8} (hport : Queued port P)

include hport

theorem runs_skip (limit skipped : Nat) (h : P queue s) :
    Runs port pace (Channel.skip limit skipped) s fun _ s' => P (queue.drop limit) s' := by
  induction limit generalizing queue skipped s with
  | zero => exact runs_ok h
  | succ limit ih =>
    cases queue with
    | nil =>
      intro clock t
      obtain ⟨r, s', hr, hread, hs'⟩ := hport.read_nil s h clock
      refine ⟨skipped, s', clock + pace.idleRead, t, ?_, hs'⟩
      rw [Channel.skip, bind_eq, run_bind, run_read_miss hr hread]
      cases r with
      | byte b => cases hr
      | idle | fault _ => rfl
    | cons b queue =>
      have hread : Runs port pace Link.read s fun r s' => r = .byte b ∧ P queue s' := by
        intro clock t
        obtain ⟨s', hread, hs'⟩ := hport.read_cons b queue s h clock
        exact ⟨.byte b, s', clock, _, run_read_byte hread, rfl, hs'⟩
      refine hread.bind ?_
      rintro _ s' ⟨rfl, hs'⟩
      exact ih (skipped + 1) hs'

/-- Of the bytes that wait, a channel discards those that it may discard at once. -/
theorem runs_drain (h : P queue s) :
    Runs port pace c.drain s fun _ s' => P (queue.drop Channel.maxDrain) s' := by
  refine (hport.runs_skip Channel.maxDrain 0 h).bind ?_
  intro count s' hs'
  by_cases hcount : 0 < count
  · simp only [hcount, if_true]
    exact runs_note_bind (runs_ok hs')
  · simp only [hcount, if_false]
    exact runs_ok hs'

variable (hpatience : 0 < c.patience)

include hpatience

theorem runs_nextByte {deadline : Channel.Deadline} {missing : Nat} {b : UInt8}
    (h : P (b :: queue) s) :
    Runs port pace (c.nextByte deadline missing c.patience) s fun r s' => r = b ∧ P queue s' := by
  intro clock t
  obtain ⟨patience, hpatience⟩ := Nat.exists_eq_succ_of_ne_zero (Nat.ne_of_gt hpatience)
  obtain ⟨s', hread, hs'⟩ := hport.read_cons b queue s h clock
  rw [hpatience]
  exact ⟨b, s', clock, _, run_nextByte_byte hread, rfl, hs'⟩

theorem runs_collect {deadline : Channel.Deadline} (data got : List UInt8)
    (h : P (data ++ queue) s) :
    Runs port pace (c.collect deadline data.length got) s
      fun r s' => r = got.reverse ++ data ∧ P queue s' := by
  induction data generalizing got s with
  | nil => exact runs_ok ⟨(List.append_nil _).symm, h⟩
  | cons b data ih =>
    refine (hport.runs_nextByte hpatience h).bind ?_
    intro _ _ hpost
    obtain ⟨rfl, hrest⟩ := hpost
    refine (ih (_ :: got) hrest).mono ?_
    intro _ _ hpost
    obtain ⟨rfl, hqueue⟩ := hpost
    rw [List.reverse_cons, List.append_assoc]
    exact ⟨rfl, hqueue⟩

/-- A channel receives the bytes that wait, whatever time they may take. -/
theorem runs_receiveWithin {count : Nat} {data : List UInt8} (hdata : data.length = count)
    (hcount : count ≤ Size.largestBuffer) (timeout : UInt32) (h : P (data ++ queue) s) :
    Runs port pace (c.receiveWithin count timeout) s fun got s' => got = data ∧ P queue s' := by
  subst hdata
  refine runs_now_bind fun start => runs_lift_bind (if_pos hcount) ?_
  refine (hport.runs_collect hpatience data [] h).bind ?_
  intro _ _ hpost
  obtain ⟨rfl, hqueue⟩ := hpost
  exact runs_note_bind (runs_ok ⟨rfl, hqueue⟩)

end Queued

/-! ## Wires -/

section Wires

variable {δ : Type} {receive : Responder δ}

/-- The wire with these bytes waiting, on which nothing fails. -/
def onWire (d : δ) (queue : List UInt8) : Wire δ :=
  ⟨d, queue, 0, 0⟩

/-- A device takes bytes one after the other, and these are its replies and its state then. -/
inductive Feeds (receive : Responder δ) : List UInt8 → δ → List UInt8 → δ → Prop where
  | nil (d : δ) : Feeds receive [] d [] d
  | cons {b : UInt8} {data reply rest : List UInt8} {d d' d'' : δ}
      (hb : receive b d = (.ok reply, d')) (h : Feeds receive data d' rest d'') :
      Feeds receive (b :: data) d (reply ++ rest) d''

theorem Feeds.cons_silent {b : UInt8} {data rest : List UInt8} {d d' d'' : δ}
    (hb : receive b d = (.ok [], d')) (h : Feeds receive data d' rest d'') :
    Feeds receive (b :: data) d rest d'' :=
  .cons hb h

theorem Feeds.append {xs ys reply rest : List UInt8} {d d' d'' : δ}
    (h : Feeds receive xs d reply d') (h' : Feeds receive ys d' rest d'') :
    Feeds receive (xs ++ ys) d (reply ++ rest) d'' := by
  induction h with
  | nil => exact h'
  | cons hb _ ih =>
    rw [List.append_assoc]
    exact .cons hb (ih h')

theorem Feeds.unique {data reply reply' : List UInt8} {d d' d'' : δ}
    (h : Feeds receive data d reply d') (h' : Feeds receive data d reply' d'') :
    reply = reply' ∧ d' = d'' := by
  induction h generalizing reply' with
  | nil =>
    cases h'
    exact ⟨rfl, rfl⟩
  | cons hb _ ih =>
    cases h' with
    | cons hb' h' =>
      obtain ⟨hreply, rfl⟩ := Prod.mk.inj (hb.symm.trans hb')
      obtain rfl := Except.ok.inj hreply
      obtain ⟨rfl, rfl⟩ := ih h'
      exact ⟨rfl, rfl⟩

variable {d d' : δ} {queue : List UInt8}

theorem runs_write {b : UInt8} {reply : List UInt8} (hb : receive b d = (.ok reply, d')) :
    Runs (Wire.port receive) pace (Link.write b) (onWire d queue)
      fun r w => r = .done ∧ w = onWire d' (queue ++ reply) := by
  intro clock t
  refine ⟨.done, onWire d' (queue ++ reply), clock, { t with accepted := b :: t.accepted }, ?_,
    rfl, rfl⟩
  simp only [Link.write, run, device, Wire.port, onWire, hb]

theorem queued_onWire (d : δ) : Queued (Wire.port receive) fun queue w => w = onWire d queue where
  read_cons := by
    rintro b queue _ rfl clock
    exact ⟨_, rfl, rfl⟩
  read_nil := by
    rintro _ rfl clock
    exact ⟨.idle, _, rfl, rfl, rfl⟩

theorem runs_flush {w : Wire δ} :
    Runs (Wire.port receive) pace Link.flush w fun r w' => r = .done ∧ w' = w :=
  fun clock t => ⟨.done, w, clock, t, rfl, rfl, rfl⟩

theorem runs_settle {action : Link Acceptance} {patience : Nat} (hpatience : 0 < patience)
    {w w' : Wire δ} (h : Runs (Wire.port receive) pace action w fun r v => r = .done ∧ v = w') :
    Runs (Wire.port receive) pace (Channel.settle action patience) w fun _ v => v = w' := by
  obtain ⟨patience, rfl⟩ := Nat.exists_eq_succ_of_ne_zero (Nat.ne_of_gt hpatience)
  refine h.bind ?_
  intro _ _ hpost
  obtain ⟨rfl, rfl⟩ := hpost
  exact runs_ok rfl

variable {c : Channel}

/-- Of the bytes that wait, a channel discards those that it may discard at once. -/
theorem runs_drain :
    Runs (Wire.port receive) pace c.drain (onWire d queue)
      fun _ w => w = onWire d (queue.drop Channel.maxDrain) :=
  (queued_onWire d).runs_drain rfl

variable (hpatience : 0 < c.patience)

include hpatience

theorem runs_writeAll {data reply : List UInt8} (h : Feeds receive data d reply d') :
    Runs (Wire.port receive) pace (c.writeAll data) (onWire d queue)
      fun _ w => w = onWire d' (queue ++ reply) := by
  induction h generalizing queue with
  | nil d =>
    rw [List.append_nil]
    exact runs_ok rfl
  | cons hb _ ih =>
    refine (runs_settle hpatience (runs_write hb)).bind ?_
    intro _ _ hpost
    subst hpost
    rw [← List.append_assoc]
    exact ih

/-- What a channel sends is fed to the device, and the replies wait behind what waited before. -/
theorem runs_send {data reply : List UInt8} (h : Feeds receive data d reply d') :
    Runs (Wire.port receive) pace (c.send data) (onWire d queue)
      fun _ w => w = onWire d' (queue ++ reply) := by
  refine runs_note_bind ((runs_writeAll hpatience h).bind ?_)
  intro _ _ hpost
  subst hpost
  exact runs_settle hpatience runs_flush

/-- A channel receives the bytes that wait, whatever time they may take. -/
theorem runs_receiveWithin {count : Nat} {data : List UInt8} (hdata : data.length = count)
    (hcount : count ≤ Size.largestBuffer) (timeout : UInt32) :
    Runs (Wire.port receive) pace (c.receiveWithin count timeout) (onWire d (data ++ queue))
      fun got w => got = data ∧ w = onWire d queue :=
  (queued_onWire d).runs_receiveWithin hpatience hdata hcount timeout rfl

theorem runs_receive {count : Nat} {data : List UInt8} (hdata : data.length = count)
    (hcount : count ≤ Size.largestBuffer) :
    Runs (Wire.port receive) pace (c.receive count) (onWire d (data ++ queue))
      fun got w => got = data ∧ w = onWire d queue :=
  runs_receiveWithin hpatience hdata hcount _

end Wires

end Bench

end BadgeLink
