import BadgeLink.Bench.Script
import BadgeLink.Channel
import BadgeLink.Proofs.Dialogue

/-!
# Sends

A send offers its bytes to the port one after the other. It repeats what the port is too busy for,
and ends at the first failure: of a byte, and then the port has taken the bytes before it, or of the
flush that follows the last byte, and then it has taken all.

* `Settles` is what becomes of a write or a flush that is repeated while the port is busy, and
  `Sent` what becomes of a send. Both speak of the port alone.
* `Sent.exists_limit`: a channel with enough patience sends accordingly.
* `send_exact` is the law for every port that is never busy forever. Scripts are such ports.
-/

namespace BadgeLink

variable {ρ : Type}

/-- A flush as a call like a write: it never makes a device crash. -/
def SimulatedPort.flushing (port : SimulatedPort ρ) (s : ρ) : Except Crash Acceptance × ρ :=
  (.ok (port.flush s).1, (port.flush s).2)

namespace Bench

open Dialogue

/-! ## Calls -/

/-- A call of a port is made until the port is not busy, which it is finitely often. Then it is done
or has failed. -/
inductive Settles (call : ρ → Except Crash Acceptance × ρ) :
    ρ → Except PortFault Unit → ρ → Prop where
  | done {s s' : ρ} (h : call s = (.ok .done, s')) : Settles call s (.ok ()) s'
  | fault {f : PortFault} {s s' : ρ} (h : call s = (.ok (.fault f), s')) :
      Settles call s (.error f) s'
  | busy {r : Except PortFault Unit} {s s₁ s' : ρ} (h : call s = (.ok .busy, s₁))
      (hrest : Settles call s₁ r s') : Settles call s r s'

/-- Writes and flushes of the port settle, in whatever state it is. -/
structure Answers (port : SimulatedPort ρ) : Prop where
  write (b : UInt8) (s : ρ) : ∃ r s', Settles (port.write b) s r s'
  flush (s : ρ) : ∃ r s', Settles port.flushing s r s'

/-- The transcript after a call that settles so. -/
def settled (keep : Transcript → Transcript) (t : Transcript) : Except PortFault Unit → Transcript
  | .ok () => keep t
  | .error _ => t

variable {port : SimulatedPort ρ} {s s₁ s' : ρ} {b : UInt8} {data taken : List UInt8}

/-- An action makes a call of the port and takes no time; what is done is recorded. -/
def Makes (port : SimulatedPort ρ) (action : Link Acceptance)
    (call : ρ → Except Crash Acceptance × ρ) (keep : Transcript → Transcript) : Prop :=
  ∀ {a s s'}, call s = (.ok a, s') → ∀ pace clock t,
    action.run (device port pace) ⟨s, clock, t⟩ =
      (.ok a, ⟨s', clock, if a = .done then keep t else t⟩)

theorem makes_write (b : UInt8) :
    Makes port (Link.write b) (port.write b) fun t => { t with accepted := b :: t.accepted } := by
  intro a s s' h pace clock t
  cases a <;> simp [Link.write, run, device, h]

theorem makes_flush : Makes port Link.flush port.flushing id := by
  intro a s s' h pace clock t
  obtain ⟨ha, rfl⟩ := Prod.mk.inj h
  obtain rfl := Except.ok.inj ha
  simp [Link.flush, run, device]

theorem Makes.run_settle {action : Link Acceptance} {call : ρ → Except Crash Acceptance × ρ}
    {keep : Transcript → Transcript} (haction : Makes port action call keep) {a : Acceptance}
    (h : call s = (.ok a, s')) (patience : Nat) (pace : Pace) (clock : Nat) (t : Transcript) :
    (Channel.settle action (patience + 1)).run (device port pace) ⟨s, clock, t⟩ =
      match a with
      | .done => (.ok (), ⟨s', clock, keep t⟩)
      | .busy => (Channel.settle action patience).run (device port pace) ⟨s', clock, t⟩
      | .fault f => (.error (.port f), ⟨s', clock, t⟩) := by
  rw [Channel.settle, bind_eq, run_bind, haction h]
  cases a <;> rfl

/-- With enough patience, a channel makes a call until it settles. -/
theorem Settles.exists_limit {action : Link Acceptance} {call : ρ → Except Crash Acceptance × ρ}
    {keep : Transcript → Transcript} (haction : Makes port action call keep)
    {r : Except PortFault Unit} (h : Settles call s r s') :
    ∃ limit, ∀ patience, limit ≤ patience → ∀ pace clock t,
      (Channel.settle action patience).run (device port pace) ⟨s, clock, t⟩ =
        (.ofExcept (r.mapError .port), ⟨s', clock, settled keep t r⟩) := by
  induction h with
  | done h =>
    refine ⟨1, ?_⟩
    intro patience hpatience pace clock t
    obtain ⟨patience, rfl⟩ := Nat.exists_eq_add_of_le' hpatience
    exact haction.run_settle h patience pace clock t
  | fault h =>
    refine ⟨1, ?_⟩
    intro patience hpatience pace clock t
    obtain ⟨patience, rfl⟩ := Nat.exists_eq_add_of_le' hpatience
    exact haction.run_settle h patience pace clock t
  | busy h _ ih =>
    obtain ⟨limit, hrun⟩ := ih
    refine ⟨limit + 1, ?_⟩
    intro patience hpatience pace clock t
    obtain ⟨patience, rfl⟩ := Nat.exists_eq_add_of_le' (Nat.le_of_add_left_le hpatience)
    rw [haction.run_settle h]
    exact hrun patience (Nat.le_of_succ_le_succ hpatience) pace clock t

/-! ## Scripts -/

/-- How often the items of a script let a call find the port busy. -/
def busies : List Reception → Nat
  | [] => 0
  | .busy n :: rest => n + busies rest
  | _ :: rest => busies rest

theorem busies_consult {items rest : List Reception} (h : Script.consult items = (.busy, rest)) :
    busies rest < busies items := by
  fun_induction Script.consult items with
  | case1 => cases h
  | case2 items ih => exact ih h
  | case3 n items => cases h
  | case4 items ih =>
    rw [busies, Nat.zero_add]
    exact ih h
  | case5 n items =>
    cases h
    exact Nat.add_lt_add_right (Nat.lt_succ_self n) _
  | case6 f items ih => exact ih h
  | case7 f n items => cases h

/-- A call whose answers a script decides settles, since the script lets it find the port busy only
so often. -/
theorem settles_of_script {call : ρ → Except Crash Acceptance × ρ} (load : List Reception → ρ)
    (hcall : ∀ items, ∃ s', call (load items) = (.ok (Script.consult items).1, s') ∧
      ((Script.consult items).1 = .busy → s' = load (Script.consult items).2))
    (items : List Reception) : ∃ r s', Settles call (load items) r s' := by
  induction hn : busies items using Nat.strongRecOn generalizing items with
  | ind n ih =>
    obtain ⟨s', hs', hbusy⟩ := hcall items
    rcases hconsult : Script.consult items with ⟨a, rest⟩
    rw [hconsult] at hs' hbusy
    cases a with
    | done => exact ⟨_, s', .done hs'⟩
    | fault f => exact ⟨_, s', .fault hs'⟩
    | busy =>
      obtain rfl := hbusy rfl
      obtain ⟨r, s', hrest⟩ := ih _ (hn ▸ busies_consult hconsult) rest rfl
      exact ⟨r, s', .busy hs' hrest⟩

/-- Every script is a port that is never busy forever. -/
theorem answers_script : Answers Script.port where
  write b s := by
    refine settles_of_script (fun writes => { s with writes }) ?_ s.writes
    intro items
    rcases hconsult : Script.consult items with ⟨a, rest⟩
    cases a <;> simp [Script.port, hconsult]
  flush s := by
    refine settles_of_script (fun flushes => { s with flushes }) ?_ s.flushes
    intro items
    exact ⟨_, rfl, fun _ => rfl⟩

/-! ## Sends -/

/-- The port takes these bytes, one after the other. -/
inductive Takes (port : SimulatedPort ρ) : List UInt8 → ρ → ρ → Prop where
  | nil (s : ρ) : Takes port [] s s
  | cons {b : UInt8} {data : List UInt8} {s s₁ s' : ρ}
      (hbyte : Settles (port.write b) s (.ok ()) s₁) (hrest : Takes port data s₁ s') :
      Takes port (b :: data) s s'

/-- What the port takes of the data that is sent to it in a state `s`, how the send ends, and in
which state it leaves the port. -/
inductive Sent (port : SimulatedPort ρ) (data : List UInt8) (s : ρ) :
    List UInt8 → Outcome LinkError Unit → ρ → Prop where
  /-- The port takes all bytes and the flush is done. -/
  | flushed {s₁ s' : ρ} (htakes : Takes port data s s₁)
      (hflush : Settles port.flushing s₁ (.ok ()) s') : Sent port data s data (.ok ()) s'
  /-- The port takes all bytes and the flush fails. -/
  | unflushed {f : PortFault} {s₁ s' : ρ} (htakes : Takes port data s s₁)
      (hflush : Settles port.flushing s₁ (.error f) s') :
      Sent port data s data (.error (.port f)) s'
  /-- The write of a byte fails, when the port has taken those before it. Nothing is done to the
  port after that. -/
  | refused {taken : List UInt8} {b : UInt8} {rest : List UInt8} {f : PortFault} {s₁ s' : ρ}
      (hdata : data = taken ++ b :: rest) (htakes : Takes port taken s s₁)
      (hwrite : Settles (port.write b) s₁ (.error f) s') :
      Sent port data s taken (.error (.port f)) s'

theorem Sent.cons {o : Outcome LinkError Unit} (hbyte : Settles (port.write b) s (.ok ()) s₁)
    (h : Sent port data s₁ taken o s') : Sent port (b :: data) s (b :: taken) o s' := by
  cases h with
  | flushed htakes hflush => exact .flushed (.cons hbyte htakes) hflush
  | unflushed htakes hflush => exact .unflushed (.cons hbyte htakes) hflush
  | refused hdata htakes hwrite =>
    exact .refused (congrArg (b :: ·) hdata) (.cons hbyte htakes) hwrite

theorem exists_sent (hport : Answers port) (data : List UInt8) (s : ρ) :
    ∃ taken o s', Sent port data s taken o s' := by
  induction data generalizing s with
  | nil =>
    obtain ⟨⟨⟩ | ⟨⟩, s', hflush⟩ := hport.flush s
    · exact ⟨[], _, s', .unflushed (.nil s) hflush⟩
    · exact ⟨[], _, s', .flushed (.nil s) hflush⟩
  | cons b data ih =>
    obtain ⟨⟨⟩ | ⟨⟩, s₁, hwrite⟩ := hport.write b s
    · exact ⟨[], _, s₁, .refused rfl (.nil s) hwrite⟩
    · obtain ⟨taken, o, s', h⟩ := ih s₁
      exact ⟨b :: taken, o, s', h.cons hwrite⟩

theorem Sent.taken_prefix {o : Outcome LinkError Unit} (h : Sent port data s taken o s') :
    taken <+: data := by
  cases h with
  | flushed _ _ => exact List.prefix_rfl
  | unflushed _ _ => exact List.prefix_rfl
  | refused hdata _ _ => exact ⟨_, hdata.symm⟩

theorem writeAll_append (c : Channel) (xs ys : List UInt8) :
    c.writeAll (xs ++ ys) = (c.writeAll xs).bind fun _ => c.writeAll ys := by
  induction xs with
  | nil => rfl
  | cons x xs ih =>
    rw [List.cons_append, Channel.writeAll, ih, bind_eq, Channel.writeAll, bind_eq, bind_bind]

theorem Takes.exists_limit (h : Takes port data s s') :
    ∃ limit, ∀ c : Channel, limit ≤ c.patience → ∀ pace clock t,
      (c.writeAll data).run (device port pace) ⟨s, clock, t⟩ =
        (.ok (), ⟨s', clock, { t with accepted := data.reverse ++ t.accepted }⟩) := by
  induction h with
  | nil s => exact ⟨0, fun _ _ _ _ _ => rfl⟩
  | cons hbyte _ ih =>
    obtain ⟨limit, hbyte⟩ := hbyte.exists_limit (makes_write _)
    obtain ⟨limit', hrest⟩ := ih
    refine ⟨max limit limit', ?_⟩
    intro c hpatience pace clock t
    obtain ⟨hfirst, hthen⟩ := Nat.max_le.1 hpatience
    rw [Channel.writeAll, bind_eq, run_bind, hbyte _ hfirst, List.reverse_cons, ← List.append_cons]
    exact hrest c hthen pace clock _

/-- The transcript after a send of which the port has taken so much. -/
def afterSend (data taken : List UInt8) (t : Transcript) : Transcript :=
  { t with accepted := taken.reverse ++ t.accepted, records := .sending data :: t.records }

theorem run_send (c : Channel) (data : List UInt8) (pace : Pace) (s : ρ) (clock : Nat)
    (t : Transcript) :
    (c.send data).run (device port pace) ⟨s, clock, t⟩ =
      ((c.writeAll data).bind fun _ => Channel.settle Link.flush c.patience).run (device port pace)
        ⟨s, clock, { t with records := .sending data :: t.records }⟩ :=
  rfl

theorem Takes.exists_limit_flush {r : Except PortFault Unit} (htakes : Takes port data s s₁)
    (hflush : Settles port.flushing s₁ r s') :
    ∃ limit, ∀ c : Channel, limit ≤ c.patience → ∀ pace clock t,
      (c.send data).run (device port pace) ⟨s, clock, t⟩ =
        (.ofExcept (r.mapError .port), ⟨s', clock, afterSend data data t⟩) := by
  obtain ⟨limit, htakes⟩ := htakes.exists_limit
  obtain ⟨limit', hflush⟩ := hflush.exists_limit makes_flush
  refine ⟨max limit limit', ?_⟩
  intro c hpatience pace clock t
  obtain ⟨hfirst, hthen⟩ := Nat.max_le.1 hpatience
  rw [run_send, run_bind, htakes c hfirst]
  change (Channel.settle Link.flush c.patience).run (device port pace) _ = _
  rw [hflush _ hthen]
  cases r <;> rfl

theorem Takes.exists_limit_refused {f : PortFault} {rest : List UInt8}
    (htakes : Takes port taken s s₁) (hwrite : Settles (port.write b) s₁ (.error f) s') :
    ∃ limit, ∀ c : Channel, limit ≤ c.patience → ∀ pace clock t,
      (c.send (taken ++ b :: rest)).run (device port pace) ⟨s, clock, t⟩ =
        (.error (.port f), ⟨s', clock, afterSend (taken ++ b :: rest) taken t⟩) := by
  obtain ⟨limit, htakes⟩ := htakes.exists_limit
  obtain ⟨limit', hwrite⟩ := hwrite.exists_limit (makes_write b)
  refine ⟨max limit limit', ?_⟩
  intro c hpatience pace clock t
  obtain ⟨hfirst, hthen⟩ := Nat.max_le.1 hpatience
  rw [run_send, writeAll_append, bind_bind, run_bind, htakes c hfirst]
  change run (device port pace) (((Channel.settle (Link.write b) c.patience).bind _).bind _) _ = _
  rw [run_bind, run_bind, hwrite _ hthen]
  rfl

/-- With enough patience, a channel sends as the port lets it. The clock stands still. -/
theorem Sent.exists_limit {o : Outcome LinkError Unit} (h : Sent port data s taken o s') :
    ∃ limit, ∀ c : Channel, limit ≤ c.patience → ∀ pace clock t,
      (c.send data).run (device port pace) ⟨s, clock, t⟩ =
        (o, ⟨s', clock, afterSend data taken t⟩) := by
  cases h with
  | flushed htakes hflush => exact htakes.exists_limit_flush hflush
  | unflushed htakes hflush => exact htakes.exists_limit_flush hflush
  | refused hdata htakes hwrite =>
    subst hdata
    exact htakes.exists_limit_refused hwrite

/-- A send ends in one way only. -/
theorem Sent.unique {taken' : List UInt8} {o o' : Outcome LinkError Unit}
    (h : Sent port data s taken o s') (h' : Sent port data s taken' o' s₁) :
    taken = taken' ∧ o = o' ∧ s' = s₁ := by
  obtain ⟨limit, hrun⟩ := h.exists_limit
  obtain ⟨limit', hrun'⟩ := h'.exists_limit
  have hfirst := hrun { patience := max limit limit' } (Nat.le_max_left _ _) .simulated 0 {}
  have hsecond := hrun' { patience := max limit limit' } (Nat.le_max_right _ _) .simulated 0 {}
  obtain ⟨ho, hbench⟩ := Prod.mk.inj (hfirst.symm.trans hsecond)
  injection hbench with hport _ htranscript
  have htaken : taken.reverse ++ [] = taken'.reverse ++ [] := congrArg (·.accepted) htranscript
  rw [List.append_nil, List.append_nil] at htaken
  exact ⟨List.reverse_inj.1 htaken, ho, hport⟩

theorem Sent.taken_of_ok (h : Sent port data s taken (.ok ()) s') : taken = data := by
  cases h with
  | flushed _ _ => rfl

theorem Sent.eq_ok_iff {o : Outcome LinkError Unit} (h : Sent port data s taken o s') :
    o = .ok () ↔ ∃ s₁ s₂, Takes port data s s₁ ∧ Settles port.flushing s₁ (.ok ()) s₂ := by
  constructor
  · intro ho
    subst ho
    cases h with
    | flushed htakes hflush => exact ⟨_, _, htakes, hflush⟩
  · rintro ⟨s₁, s₂, htakes, hflush⟩
    exact (h.unique (.flushed htakes hflush)).2.1

/-- A send over a port that is never busy forever ends. The port has then taken a first part of the
data, byte for byte: all of it if the send succeeds, which it does just if the port takes all bytes
and the flush after them is done, and otherwise the bytes before the one whose write failed, or all
of them if the flush did. The error is that of the port, to which nothing is done after it. -/
theorem send_exact (hport : Answers port) (data : List UInt8) (s : ρ) :
    (∃ taken o s', Sent port data s taken o s') ∧
    ∀ {taken o s'}, Sent port data s taken o s' →
      taken <+: data ∧
      (o = .ok () → taken = data) ∧
      (o = .ok () ↔ ∃ s₁ s₂, Takes port data s s₁ ∧ Settles port.flushing s₁ (.ok ()) s₂) ∧
      ∃ limit, ∀ c : Channel, limit ≤ c.patience → ∀ pace clock t,
        (c.send data).run (device port pace) ⟨s, clock, t⟩ =
          (o, ⟨s', clock, afterSend data taken t⟩) := by
  refine ⟨exists_sent hport data s, ?_⟩
  intro taken o s' h
  refine ⟨h.taken_prefix, ?_, h.eq_ok_iff, h.exists_limit⟩
  intro ho
  subst ho
  exact h.taken_of_ok

/-- The second of three bytes is refused, after the port was busy twice before it took the first. -/
theorem send_of_refused_byte :
    ∃ limit, ∀ c : Channel, limit ≤ c.patience → ∀ pace clock t,
      (c.send [1, 2, 3]).run (device Script.port pace)
          ⟨{ writes := [.busy 2, .accept 1, .fault ⟨"gone"⟩ 1] }, clock, t⟩ =
        (.error (.port ⟨"gone"⟩),
          ⟨{ writes := [.fault ⟨"gone"⟩ 0], accepted := 1 }, clock,
            afterSend [1, 2, 3] [1] t⟩) := by
  have hone : Takes Script.port [1] { writes := [.busy 2, .accept 1, .fault ⟨"gone"⟩ 1] }
      { writes := [.accept 0, .fault ⟨"gone"⟩ 1], accepted := 1 } :=
    .cons (.busy rfl (.busy rfl (.done rfl))) (.nil _)
  have hsent : Sent Script.port [1, 2, 3] { writes := [.busy 2, .accept 1, .fault ⟨"gone"⟩ 1] } [1]
      (.error (.port ⟨"gone"⟩)) { writes := [.fault ⟨"gone"⟩ 0], accepted := 1 } :=
    .refused rfl hone (.fault rfl)
  exact ((send_exact answers_script _ _).2 hsent).2.2.2

end Bench

end BadgeLink
