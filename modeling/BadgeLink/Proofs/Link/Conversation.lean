import BadgeLink.Proofs.Link.Channel

/-!
# Conversations of a channel

What the operations of a channel ask of the port and are answered, request for request.

* `Settling` is the conversation of a write or a flush that is repeated while the port is busy, and
  `Sending` that of a send: nothing follows the first failure.
* `plays_receiveWithin_error`: a receive fails in no other way than by its time. A read that fails
  counts as one that found nothing.
* `Reads` are the reads of a drain: as many bytes as wait, but not more than the limit, and one read
  that finds nothing if they are fewer.
-/

namespace BadgeLink.Channel

open Dialogue Link

/-! ## Requests without an answer -/

section Requests

variable {α : Type} {f : Unit → Link α} {es : List (Exchange interface)} {o : Outcome LinkError α}

theorem plays_note_bind_iff {r : Record} :
    ((Link.note r).bind f).Plays es o ↔
      ∃ rest, es = ⟨.note r, ()⟩ :: rest ∧ (f ()).Plays rest o := by
  constructor
  · intro h
    cases h with
    | ask h => exact ⟨_, rfl, h⟩
  · rintro ⟨rest, rfl, h⟩
    exact .ask h

theorem plays_pause_bind_iff {milliseconds : UInt32} :
    ((Link.pause milliseconds).bind f).Plays es o ↔
      ∃ rest, es = ⟨.pause milliseconds, ()⟩ :: rest ∧ (f ()).Plays rest o := by
  constructor
  · intro h
    cases h with
    | ask h => exact ⟨_, rfl, h⟩
  · rintro ⟨rest, rfl, h⟩
    exact .ask h

end Requests

/-! ## Sending -/

/-- The conversation of a call that is repeated while the port is busy with it, but not more often
than the patience of the channel lasts, and what comes of it. -/
inductive Settling (call : Acceptance → Exchange interface) (patience : Nat) :
    List (Exchange interface) → Outcome LinkError Unit → Prop where
  | done {n : Nat} (h : n < patience) :
      Settling call patience (List.replicate n (call .busy) ++ [call .done]) (.ok ())
  | fault {n : Nat} (h : n < patience) (f : PortFault) :
      Settling call patience (List.replicate n (call .busy) ++ [call (.fault f)]) (.error (.port f))
  | stalled : Settling call patience (List.replicate patience (call .busy)) (.crash .stalled)

theorem Settling.busy {call : Acceptance → Exchange interface} {patience : Nat}
    {es : List (Exchange interface)} {o : Outcome LinkError Unit}
    (h : Settling call patience es o) : Settling call (patience + 1) (call .busy :: es) o := by
  cases h with
  | done h => exact .done (Nat.succ_lt_succ h)
  | fault h f => exact .fault (Nat.succ_lt_succ h) f
  | stalled => exact .stalled

/-- The action makes one call of the port, with this exchange for each answer. -/
def Calls (action : Link Acceptance) (call : Acceptance → Exchange interface) : Prop :=
  ∀ es o, action.Plays es o → ∃ a, es = [call a] ∧ o = .ok a

theorem calls_write (b : UInt8) : Calls (Link.write b) fun a => ⟨.write b, a⟩ := by
  intro es o h
  cases h with
  | ask h =>
    cases h
    exact ⟨_, rfl, rfl⟩

theorem calls_flush : Calls Link.flush fun a => ⟨.flush, a⟩ := by
  intro es o h
  cases h with
  | ask h =>
    cases h
    exact ⟨_, rfl, rfl⟩

variable {es : List (Exchange interface)} {o : Outcome LinkError Unit}

theorem plays_settle {action : Link Acceptance} {call : Acceptance → Exchange interface}
    (haction : Calls action call) {patience : Nat} (h : (settle action patience).Plays es o) :
    Settling call patience es o := by
  induction patience generalizing es with
  | zero =>
    cases h
    exact .stalled
  | succ patience ih =>
    rcases plays_bind_iff.1 h with ⟨a, es₁, es₂, rfl, hcall, hrest⟩ | ⟨e, hcall, -⟩ | ⟨c, hcall, -⟩
    · obtain ⟨_, rfl, ⟨rfl⟩⟩ := haction _ _ hcall
      cases a with
      | done =>
        cases hrest
        exact .done (n := 0) (Nat.succ_pos patience)
      | busy => exact (ih hrest).busy
      | fault f =>
        cases hrest
        exact .fault (n := 0) (Nat.succ_pos patience) f
    · obtain ⟨_, -, ho⟩ := haction _ _ hcall
      cases ho
    · obtain ⟨_, -, ho⟩ := haction _ _ hcall
      cases ho

/-- The conversation of bytes that are written one after the other and then flushed. -/
inductive Sending (patience : Nat) :
    List UInt8 → List (Exchange interface) → Outcome LinkError Unit → Prop where
  | flush {es : List (Exchange interface)} {o : Outcome LinkError Unit}
      (h : Settling (fun a => ⟨.flush, a⟩) patience es o) : Sending patience [] es o
  | byte {b : UInt8} {rest : List UInt8} {es es' : List (Exchange interface)}
      {o : Outcome LinkError Unit} (h : Settling (fun a => ⟨.write b, a⟩) patience es (.ok ()))
      (hrest : Sending patience rest es' o) : Sending patience (b :: rest) (es ++ es') o
  | stop {b : UInt8} {rest : List UInt8} {es : List (Exchange interface)}
      {o : Outcome LinkError Unit} (h : Settling (fun a => ⟨.write b, a⟩) patience es o)
      (ho : o ≠ .ok ()) : Sending patience (b :: rest) es o

theorem plays_writeAll_bind {c : Channel} {data : List UInt8}
    (h : ((c.writeAll data).bind fun _ => settle Link.flush c.patience).Plays es o) :
    Sending c.patience data es o := by
  induction data generalizing es with
  | nil => exact .flush (plays_settle calls_flush h)
  | cons b rest ih =>
    have h : ((settle (Link.write b) c.patience).bind fun _ =>
        (c.writeAll rest).bind fun _ => settle Link.flush c.patience).Plays es o := by
      rw [← bind_bind]
      exact h
    rcases plays_bind_iff.1 h with ⟨_, es₁, es₂, rfl, hbyte, hrest⟩ | ⟨e, hbyte, rfl⟩ |
      ⟨crash, hbyte, rfl⟩
    · exact .byte (plays_settle (calls_write b) hbyte) (ih hrest)
    · exact .stop (plays_settle (calls_write b) hbyte) nofun
    · exact .stop (plays_settle (calls_write b) hbyte) nofun

theorem plays_send {c : Channel} {data : List UInt8} (h : (c.send data).Plays es o) :
    ∃ es', es = ⟨.note (.sending data), ()⟩ :: es' ∧ Sending c.patience data es' o := by
  obtain ⟨rest, rfl, hrest⟩ := plays_note_bind_iff.1 h
  exact ⟨rest, rfl, plays_writeAll_bind hrest⟩

/-- A send that stops short does so with the call that was last made. -/
theorem Sending.exists_last {patience : Nat} {data : List UInt8} (h : Sending patience data es o)
    (ho : o ≠ .ok ()) :
    ∃ earlier last, es = earlier ++ last ∧
      ((∃ b ∈ data, Settling (fun a => ⟨.write b, a⟩) patience last o) ∨
        Settling (fun a => ⟨.flush, a⟩) patience last o) := by
  induction h with
  | flush h => exact ⟨[], _, rfl, .inr h⟩
  | stop h => exact ⟨[], _, rfl, .inl ⟨_, List.mem_cons_self, h⟩⟩
  | @byte b rest es es' o h hrest ih =>
    obtain ⟨earlier, last, rfl, hlast⟩ := ih ho
    refine ⟨es ++ earlier, last, (List.append_assoc ..).symm, hlast.imp_left ?_⟩
    rintro ⟨b', hb', hlast⟩
    exact ⟨b', List.mem_cons_of_mem b hb', hlast⟩

/-! ## Receiving -/

/-- The error, if it is one, is that the time of a receive is up. -/
def Overdue (timeout : UInt32) (count : Nat) (s : Stop) : Prop :=
  ∀ e, s = .error e → ∃ received, e = .timeout timeout count received

theorem overdue_crash (timeout : UInt32) (count : Nat) (crash : Crash) :
    Overdue timeout count (.crash crash) := by
  intro e he
  cases he

variable (c : Channel) (d : Deadline)

theorem overdue_of_lapse (missing : Nat) :
    Ensures (c.lapse d missing) (fun _ _ => True) fun _ s => Overdue d.timeout d.count s := by
  refine ensures_now_bind fun time => ?_
  split
  · refine ensures_note_bind (ensures_error ?_)
    rintro _ ⟨rfl⟩
    exact ⟨_, rfl⟩
  · exact ensures_ask fun _ => ensures_ok trivial

theorem overdue_of_nextByte (missing patience : Nat) :
    Ensures (c.nextByte d missing patience) (fun _ _ => True)
      fun _ s => Overdue d.timeout d.count s := by
  induction patience with
  | zero => exact ensures_crash (overdue_crash _ _ _)
  | succ patience ih =>
    have hagain : Ensures ((c.lapse d missing).bind fun _ => c.nextByte d missing patience)
        (fun _ _ => True) fun _ s => Overdue d.timeout d.count s :=
      (c.overdue_of_lapse d missing).bind (fun _ _ h => h) fun _ _ _ => ih
    refine ensures_ask fun r => ?_
    cases r with
    | byte b => exact ensures_ok trivial
    | idle => exact hagain
    | fault f => exact ensures_note_bind hagain

theorem overdue_of_collect (missing : Nat) (got : List UInt8) :
    Ensures (c.collect d missing got) (fun _ _ => True) fun _ s => Overdue d.timeout d.count s := by
  induction missing generalizing got with
  | zero => exact ensures_ok trivial
  | succ missing ih =>
    exact (c.overdue_of_nextByte d (missing + 1) c.patience).bind (fun _ _ h => h)
      fun _ b _ => ih (b :: got)

/-- A receive that fails has timed out. -/
theorem plays_receiveWithin_error {c : Channel} {count : Nat} {timeout : UInt32}
    {es : List (Exchange interface)} {e : LinkError}
    (h : (c.receiveWithin count timeout).Plays es (.error e)) :
    ∃ received, e = .timeout timeout count received := by
  have hoverdue : Ensures (c.receiveWithin count timeout) (fun _ _ => True)
      fun _ s => Overdue timeout count s := by
    refine ensures_now_bind fun start => ensures_lift_bind (fun _ _ => ?_) fun crash _ => ?_
    · refine (c.overdue_of_collect ⟨count, timeout, start⟩ count []).bind (fun _ _ h => h) ?_
      exact fun _ _ _ => ensures_note_bind (ensures_ok trivial)
    · exact overdue_crash _ _ _
  exact hoverdue _ _ h e rfl

/-! ## Discarding -/

/-- The reads yielded these bytes, as many as the limit, or fewer and then one that yielded none. -/
def Reads (limit : Nat) (bytes : List UInt8) (es : List (Exchange interface)) : Prop :=
  (bytes.length = limit ∧ es = bytes.map fun b => ⟨.read, .byte b⟩) ∨
  (bytes.length < limit ∧ ∃ r : Reading, (∀ b, r ≠ .byte b) ∧
    es = (bytes.map fun b => ⟨.read, .byte b⟩) ++ [⟨.read, r⟩])

theorem Reads.length_le {limit : Nat} {bytes : List UInt8} {es : List (Exchange interface)}
    (h : Reads limit bytes es) : bytes.length ≤ limit := by
  obtain ⟨hlength, -⟩ | ⟨hlength, -⟩ := h
  · exact Nat.le_of_eq hlength
  · exact Nat.le_of_lt hlength

theorem Reads.cons {limit : Nat} {bytes : List UInt8} {es : List (Exchange interface)}
    (h : Reads limit bytes es) (b : UInt8) :
    Reads (limit + 1) (b :: bytes) (⟨.read, .byte b⟩ :: es) := by
  obtain ⟨hlength, rfl⟩ | ⟨hlength, r, hr, rfl⟩ := h
  · exact .inl ⟨congrArg Nat.succ hlength, rfl⟩
  · exact .inr ⟨Nat.succ_lt_succ hlength, r, hr, rfl⟩

theorem Reads.of_cons {limit : Nat} {b : UInt8} {bytes : List UInt8}
    {es : List (Exchange interface)} (h : Reads (limit + 1) (b :: bytes) es) :
    ∃ rest, es = ⟨.read, .byte b⟩ :: rest ∧ Reads limit bytes rest := by
  obtain ⟨hlength, rfl⟩ | ⟨hlength, r, hr, rfl⟩ := h
  · exact ⟨_, rfl, .inl ⟨Nat.succ.inj hlength, rfl⟩⟩
  · exact ⟨_, rfl, .inr ⟨Nat.lt_of_succ_lt_succ hlength, r, hr, rfl⟩⟩

theorem plays_skip_iff {limit skipped : Nat} {es : List (Exchange interface)}
    {o : Outcome LinkError Nat} :
    (skip limit skipped).Plays es o ↔
      ∃ bytes, Reads limit bytes es ∧ o = .ok (skipped + bytes.length) := by
  constructor
  · intro h
    induction limit generalizing skipped es with
    | zero =>
      cases h
      exact ⟨[], .inl ⟨rfl, rfl⟩, rfl⟩
    | succ limit ih =>
      cases h with
      | @ask _ _ r _ _ h =>
        cases r with
        | byte b =>
          obtain ⟨bytes, hreads, rfl⟩ := ih h
          refine ⟨b :: bytes, hreads.cons b, ?_⟩
          rw [List.length_cons, Nat.add_right_comm]
          rfl
        | idle =>
          cases h
          exact ⟨[], .inr ⟨Nat.succ_pos limit, .idle, nofun, rfl⟩, rfl⟩
        | fault f =>
          cases h
          exact ⟨[], .inr ⟨Nat.succ_pos limit, .fault f, nofun, rfl⟩, rfl⟩
  · rintro ⟨bytes, hreads, rfl⟩
    induction limit generalizing skipped bytes es with
    | zero =>
      obtain ⟨hlength, rfl⟩ | ⟨hlength, -⟩ := hreads
      · obtain rfl := List.eq_nil_of_length_eq_zero hlength
        exact .done _
      · cases hlength
    | succ limit ih =>
      cases bytes with
      | nil =>
        obtain ⟨hlength, -⟩ | ⟨-, r, hr, rfl⟩ := hreads
        · cases hlength
        · cases r with
          | byte b => exact absurd rfl (hr b)
          | idle => exact .ask (.done _)
          | fault f => exact .ask (.done _)
      | cons b bytes =>
        obtain ⟨rest, rfl, hrest⟩ := hreads.of_cons
        have hplays : (skip limit (skipped + 1)).Plays rest (.ok (skipped + 1 + bytes.length)) :=
          ih bytes hrest
        rw [List.length_cons, Nat.add_comm bytes.length 1, ← Nat.add_assoc]
        exact .ask hplays

/-- The log that a drain writes of the bytes that it discarded. -/
def discardNotes (count : Nat) : List (Exchange interface) :=
  if 0 < count then [⟨.note (.discarded count), ()⟩] else []

/-- A drain discards what waits, up to the limit, and returns how many bytes that was. -/
theorem plays_drain_iff {c : Channel} {es : List (Exchange interface)} {o : Outcome LinkError Nat} :
    c.drain.Plays es o ↔
      ∃ bytes reads, Reads maxDrain bytes reads ∧ es = reads ++ discardNotes bytes.length ∧
        o = .ok bytes.length := by
  constructor
  · intro h
    rcases plays_bind_iff.1 h with ⟨count, reads, notes, rfl, hskip, hrest⟩ | ⟨e, hskip, -⟩ |
      ⟨crash, hskip, -⟩
    · obtain ⟨bytes, hreads, ⟨rfl⟩⟩ := plays_skip_iff.1 hskip
      refine ⟨bytes, reads, hreads, ?_⟩
      rw [Nat.zero_add] at hrest
      unfold discardNotes
      split at hrest
      · next hpos =>
        obtain ⟨_, rfl, hend⟩ := plays_note_bind_iff.1 hrest
        cases hend
        exact ⟨by rw [if_pos hpos], rfl⟩
      · next hzero =>
        cases hrest
        exact ⟨by rw [if_neg hzero], rfl⟩
    · obtain ⟨_, -, ho⟩ := plays_skip_iff.1 hskip
      cases ho
    · obtain ⟨_, -, ho⟩ := plays_skip_iff.1 hskip
      cases ho
  · rintro ⟨bytes, reads, hreads, rfl, rfl⟩
    have hskip : (skip maxDrain 0).Plays reads (.ok (0 + bytes.length)) :=
      plays_skip_iff.2 ⟨bytes, hreads, rfl⟩
    refine plays_bind_iff.2 (.inl ⟨_, _, _, rfl, hskip, ?_⟩)
    rw [Nat.zero_add]
    unfold discardNotes
    split
    · exact .ask (.done _)
    · exact .done _

end BadgeLink.Channel
