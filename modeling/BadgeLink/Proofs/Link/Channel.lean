import BadgeLink.Channel
import BadgeLink.Proofs.Link.Signal

/-!
# Signals of a channel

What the operations of a channel put on the wire, whatever the port does. A send that succeeds has
sent its bytes; one that does not has sent some first of them. A receive that succeeds got exactly
the bytes that it returns; one that does not got fewer. Discarding sends nothing and always succeeds.
-/

namespace BadgeLink.Channel

open Dialogue Link

/-! ## Sending -/

/-- The bytes of a send of which only a first part was accepted. -/
def SentPart (data : List UInt8) (ss : List Signal) (s : Stop) : Prop :=
  s.Cut ∧ ∃ part, part <+: data ∧ ss = part.map .sent

theorem ensures_settle_write (b : UInt8) (patience : Nat) :
    Ensures (settle (Link.write b) patience) (fun ss _ => ss = [.sent b])
      fun ss s => s.Cut ∧ ss = [] := by
  induction patience with
  | zero => exact ensures_crash ⟨.stalled, rfl⟩
  | succ patience ih =>
    refine ensures_ask fun a => ?_
    cases a with
    | done => exact ensures_ok rfl
    | busy => exact ih
    | fault f => exact ensures_error ⟨.port f, rfl⟩

theorem ensures_settle_flush (patience : Nat) :
    Ensures (settle Link.flush patience) (fun ss _ => ss = []) fun ss s => s.Cut ∧ ss = [] := by
  induction patience with
  | zero => exact ensures_crash ⟨.stalled, rfl⟩
  | succ patience ih =>
    refine ensures_ask fun a => ?_
    cases a with
    | done => exact ensures_ok rfl
    | busy => exact ih
    | fault f => exact ensures_error ⟨.port f, rfl⟩

theorem ensures_writeAll (c : Channel) (data : List UInt8) :
    Ensures (c.writeAll data) (fun ss _ => ss = data.map .sent) (SentPart data) := by
  induction data with
  | nil => exact ensures_ok rfl
  | cons b rest ih =>
    refine (ensures_settle_write b c.patience).bind ?_ ?_
    · intro ss s hpost
      obtain ⟨hs, rfl⟩ := hpost
      exact ⟨hs, [], List.nil_prefix, rfl⟩
    · intro ss _ hpost
      subst hpost
      refine ih.mono ?_ ?_
      · intro ss _ hpost
        subst hpost
        rfl
      · intro ss s hpost
        obtain ⟨hs, part, hpart, rfl⟩ := hpost
        exact ⟨hs, b :: part, List.cons_prefix_cons.2 ⟨rfl, hpart⟩, rfl⟩

/-- A send puts its bytes on the wire, or stops within them. -/
theorem ensures_send (c : Channel) (data : List UInt8) :
    Ensures (c.send data) (fun ss _ => ss = data.map .sent) (SentPart data) := by
  refine ensures_note_bind ((c.ensures_writeAll data).bind (fun _ _ h => h) ?_)
  intro ss _ hpost
  subst hpost
  refine (ensures_settle_flush c.patience).mono ?_ ?_
  · intro ss _ hpost
    subst hpost
    exact List.append_nil _
  · intro ss s hpost
    obtain ⟨hs, rfl⟩ := hpost
    exact ⟨hs, data, List.prefix_refl _, List.append_nil _⟩

/-! ## Receiving -/

theorem ensures_lapse (c : Channel) (d : Deadline) (missing : Nat) :
    Ensures (c.lapse d missing) (fun ss _ => ss = []) fun ss s => s.Cut ∧ ss = [] := by
  refine ensures_now_bind fun time => ?_
  split
  · exact ensures_note_bind (ensures_error ⟨.timeout .., rfl⟩)
  · exact ensures_ask fun _ => ensures_ok rfl

theorem ensures_nextByte (c : Channel) (d : Deadline) (missing patience : Nat) :
    Ensures (c.nextByte d missing patience) (fun ss b => ss = [.got b])
      fun ss s => s.Cut ∧ ss = [] := by
  induction patience with
  | zero => exact ensures_crash ⟨.stalled, rfl⟩
  | succ patience ih =>
    have hagain : Ensures ((c.lapse d missing).bind fun _ => c.nextByte d missing patience)
        (fun ss b => ss = [.got b]) fun ss s => s.Cut ∧ ss = [] := by
      refine (c.ensures_lapse d missing).bind (fun _ _ h => h) ?_
      intro ss _ hpost
      subst hpost
      exact ih
    refine ensures_ask fun r => ?_
    cases r with
    | byte b => exact ensures_ok rfl
    | idle => exact hagain
    | fault f => exact ensures_note_bind hagain

/-- What arrived of bytes that did not all arrive. -/
def GotPart (count : Nat) (ss : List Signal) (s : Stop) : Prop :=
  s.Cut ∧ ∃ part : List UInt8, part.length < count ∧ ss = part.map .got

theorem ensures_collect (c : Channel) (d : Deadline) (missing : Nat) (got : List UInt8) :
    Ensures (c.collect d missing got)
      (fun ss data => ∃ rest : List UInt8, rest.length = missing ∧ data = got.reverse ++ rest ∧
        ss = rest.map .got)
      (GotPart missing) := by
  induction missing generalizing got with
  | zero => exact ensures_ok ⟨[], rfl, (List.append_nil _).symm, rfl⟩
  | succ missing ih =>
    refine (c.ensures_nextByte d (missing + 1) c.patience).bind ?_ ?_
    · intro ss s hpost
      obtain ⟨hs, rfl⟩ := hpost
      exact ⟨hs, [], Nat.succ_pos _, rfl⟩
    · intro ss b hpost
      subst hpost
      refine (ih (b :: got)).mono ?_ ?_
      · intro ss data hpost
        obtain ⟨rest, hrest, rfl, rfl⟩ := hpost
        refine ⟨b :: rest, congrArg Nat.succ hrest, ?_, rfl⟩
        rw [List.reverse_cons, List.append_assoc]
        rfl
      · intro ss s hpost
        obtain ⟨hs, part, hpart, rfl⟩ := hpost
        exact ⟨hs, b :: part, Nat.succ_lt_succ hpart, rfl⟩

/-- A receive returns what it got, as many bytes as were asked for, or got fewer than that. -/
theorem ensures_receiveWithin (c : Channel) {count : Nat} (hcount : count ≤ Size.largestBuffer)
    (timeout : UInt32) :
    Ensures (c.receiveWithin count timeout) (fun ss data => data.length = count ∧ ss = data.map .got)
      (GotPart count) := by
  refine ensures_now_bind fun start => ensures_lift_bind (fun _ _ => ?_) fun crash hcrash => ?_
  · refine (c.ensures_collect _ count []).bind (fun _ _ h => h) ?_
    intro ss data hpost
    obtain ⟨rest, hrest, rfl, rfl⟩ := hpost
    exact ensures_note_bind (ensures_ok ⟨hrest, List.append_nil _⟩)
  · rw [Size.reserve, if_pos hcount] at hcrash
    cases hcrash

theorem ensures_receive (c : Channel) {count : Nat} (hcount : count ≤ Size.largestBuffer) :
    Ensures (c.receive count) (fun ss data => data.length = count ∧ ss = data.map .got)
      (GotPart count) :=
  c.ensures_receiveWithin hcount _

/-! ## Discarding -/

theorem ensures_skip (limit skipped : Nat) :
    Ensures (skip limit skipped) (fun ss _ => ∃ data : List UInt8, ss = data.map .got)
      fun _ _ => False := by
  induction limit generalizing skipped with
  | zero => exact ensures_ok ⟨[], rfl⟩
  | succ limit ih =>
    refine ensures_ask fun r => ?_
    cases r with
    | byte b =>
      apply (ih (skipped + 1)).mono
      · intro ss _ hpost
        obtain ⟨data, rfl⟩ := hpost
        exact ⟨b :: data, rfl⟩
      · exact fun _ _ h => h
    | idle => exact ensures_ok ⟨[], rfl⟩
    | fault f => exact ensures_ok ⟨[], rfl⟩

/-- A drain sends nothing, and nothing stops it. -/
theorem ensures_drain (c : Channel) :
    Ensures c.drain (fun ss _ => ∃ data : List UInt8, ss = data.map .got) fun _ _ => False := by
  apply (ensures_skip maxDrain 0).bind
  · exact fun _ _ h => h
  · intro ss count hpost
    by_cases hcount : 0 < count
    · simp only [hcount, if_true]
      exact ensures_note_bind (ensures_ok (by simpa using hpost))
    · simp only [hcount, if_false]
      exact ensures_ok (by simpa using hpost)

end BadgeLink.Channel
