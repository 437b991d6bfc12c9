import BadgeLink.Proofs.Link.Conversation

/-!
# Working ports

A port may be slow, and a read of it may fail, and still everything that is sent is taken and
everything that is awaited arrives in time. That it does is a condition on what the port and the
clock answer in a conversation; neither the program nor how it ends has a part in it. Under this
condition every send and every receive succeeds.

* `Channel.Served` is the condition.
* `Served.send`, `Served.receive`: nothing else is needed for a send or a receive to succeed.
* `served_of_prompt`: a port that does at once what it is asked meets it.
-/

namespace BadgeLink

open Dialogue

namespace Link

/-! ## What the port answers -/

/-- The byte of a signal that a byte was received. -/
def gotByte? : Signal → Option UInt8
  | .got b => some b
  | _ => none

/-- The bytes that the port delivered in a conversation. -/
def received (es : List (Exchange interface)) : List UInt8 :=
  (signals es).filterMap gotByte?

@[simp] theorem received_append (es es' : List (Exchange interface)) :
    received (es ++ es') = received es ++ received es' := by
  simp [received]

/-- A write or a flush that fails. -/
def IsFailure : Exchange interface → Prop
  | ⟨.write _, .fault _⟩ | ⟨.flush, .fault _⟩ => True
  | _ => False

/-- A write or a flush that the port cannot do yet. -/
def IsBusy : Exchange interface → Prop
  | ⟨.write _, .busy⟩ | ⟨.flush, .busy⟩ => True
  | _ => False

/-- A read that yields no byte. -/
def isEmptyRead : Exchange interface → Bool
  | ⟨.read, .idle⟩ | ⟨.read, .fault _⟩ => true
  | _ => false

/-- The port does at once what it is asked, and the clock stands still. -/
def Prompt : Exchange interface → Prop
  | ⟨.write _, a⟩ | ⟨.flush, a⟩ => a = .done
  | ⟨.read, a⟩ => ∃ b, a = .byte b
  | ⟨.now, time⟩ => time = (0 : Nat)
  | ⟨.pause _, _⟩ | ⟨.note _, _⟩ | ⟨.report _, _⟩ => True

theorem Prompt.not_isFailure {e : Exchange interface} (h : Prompt e) : ¬IsFailure e := by
  rcases e with ⟨q, a⟩
  cases q <;> first | exact id | (obtain rfl : a = .done := h; exact id)

theorem Prompt.not_isBusy {e : Exchange interface} (h : Prompt e) : ¬IsBusy e := by
  rcases e with ⟨q, a⟩
  cases q <;> first | exact id | (obtain rfl : a = .done := h; exact id)

theorem Prompt.not_isEmptyRead {e : Exchange interface} (h : Prompt e) : ¬isEmptyRead e := by
  rcases e with ⟨q, a⟩
  cases q with
  | read =>
    obtain ⟨b, rfl⟩ : ∃ b, a = .byte b := h
    exact nofun
  | _ => exact nofun

end Link

namespace Channel

open Link

variable {c : Channel} {es : List (Exchange interface)}

/-- The port works in this conversation. Times are in microseconds. -/
structure Served (c : Channel) (es : List (Exchange interface)) : Prop where
  /-- No write and no flush fails. -/
  unfailing : ∀ e ∈ es, ¬IsFailure e
  /-- What the port cannot do yet it does before the patience of the channel is at its end. -/
  settling : ∀ part, part <:+: es → (∀ e ∈ part, IsBusy e) → part.length < c.patience
  /-- There are fewer reads than that between one byte and the next. -/
  answering : ∀ part, part <:+: es → received part = [] → part.countP isEmptyRead < c.patience
  /-- As long as no byte is sent, no more time passes than a response may take. -/
  inTime : ∀ start between time,
    (⟨.now, start⟩ :: between ++ [⟨.now, time⟩] : List (Exchange interface)) <:+: es →
      accepted between = [] → time - start ≤ c.options.responseTimeout.toNat * 1000

theorem Served.of_infix {part : List (Exchange interface)} (h : c.Served es)
    (hpart : part <:+: es) : c.Served part where
  unfailing e he := h.unfailing e (hpart.subset he)
  settling part' hpart' := h.settling part' (hpart'.trans hpart)
  answering part' hpart' := h.answering part' (hpart'.trans hpart)
  inTime start between time hpart' := h.inTime start between time (hpart'.trans hpart)

theorem Served.left {es' : List (Exchange interface)} (h : c.Served (es ++ es')) : c.Served es :=
  h.of_infix (List.prefix_append es es').isInfix

theorem Served.right {es' : List (Exchange interface)} (h : c.Served (es ++ es')) : c.Served es' :=
  h.of_infix (List.suffix_append es es').isInfix

theorem Served.tail {e : Exchange interface} (h : c.Served (e :: es)) : c.Served es :=
  h.of_infix (List.suffix_cons e es).isInfix

/-- A port that does at once what it is asked works. -/
theorem served_of_prompt (hpatience : 0 < c.patience) (h : ∀ e ∈ es, Prompt e) : c.Served es where
  unfailing e he := (h e he).not_isFailure
  settling part hpart hbusy := by
    cases part with
    | nil => exact hpatience
    | cons e part =>
      have he : Prompt e := h e (hpart.subset List.mem_cons_self)
      exact absurd (hbusy e List.mem_cons_self) he.not_isBusy
  answering part hpart _ := by
    rw [List.countP_eq_zero.2 fun e he => (h e (hpart.subset he)).not_isEmptyRead]
    exact hpatience
  inTime start between time hpart _ := by
    have htime : time = (0 : Nat) := h ⟨.now, time⟩ (hpart.subset (by simp))
    rw [htime, Nat.zero_sub]
    exact Nat.zero_le _

/-! ## Sending -/

theorem Served.settle (call : Acceptance → Exchange interface) {o : Outcome LinkError Unit}
    (hbusy : IsBusy (call .busy)) (hfault : ∀ f, IsFailure (call (.fault f))) (h : c.Served es)
    (hsettling : Settling call c.patience es o) : o = .ok () := by
  cases hsettling with
  | done => rfl
  | fault _ f => exact absurd (hfault f) (h.unfailing _ (by simp))
  | stalled =>
    have hlt := h.settling _ (List.infix_refl _) fun e he => List.eq_of_mem_replicate he ▸ hbusy
    exact absurd hlt (by simp)

/-- A send succeeds. -/
theorem Served.send {data : List UInt8} {o : Outcome LinkError Unit} (h : c.Served es)
    (hplays : (c.send data).Plays es o) : o = .ok () := by
  obtain ⟨es', rfl, hsending⟩ := plays_send hplays
  refine Decidable.byContradiction fun ho => ?_
  obtain ⟨earlier, last, rfl, ⟨b, -, hlast⟩ | hlast⟩ := hsending.exists_last ho
  · exact ho (h.tail.right.settle (fun a => ⟨.write b, a⟩) trivial (fun _ => trivial) hlast)
  · exact ho (h.tail.right.settle (fun a => ⟨.flush, a⟩) trivial (fun _ => trivial) hlast)

/-! ## Receiving -/

/-- No look at the clock before the first byte that is sent finds that the time is up. -/
def Timely (d : Deadline) (es : List (Exchange interface)) : Prop :=
  ∀ before time after, es = before ++ ⟨.now, time⟩ :: after → accepted before = [] →
    time - d.start ≤ d.timeout.toNat * 1000

theorem Timely.right {d : Deadline} {es' : List (Exchange interface)} (h : Timely d (es ++ es'))
    (hes : accepted es = []) : Timely d es' := by
  rintro before time after rfl hbefore
  refine h (es ++ before) time after (List.append_assoc ..).symm ?_
  rw [accepted_append, hes, hbefore]
  rfl

theorem Timely.left {d : Deadline} {es' : List (Exchange interface)} (h : Timely d (es ++ es')) :
    Timely d es := by
  rintro before time after rfl hbefore
  exact h before time (after ++ es') (by simp) hbefore

theorem plays_now_bind_iff {α : Type} {f : Nat → Link α} {o : Outcome LinkError α} :
    (now.bind f).Plays es o ↔ ∃ time rest, es = ⟨.now, time⟩ :: rest ∧ (f time).Plays rest o := by
  constructor
  · intro h
    cases h with
    | ask h => exact ⟨_, _, rfl, h⟩
  · rintro ⟨time, rest, rfl, h⟩
    exact .ask h

/-- After a read that yields nothing, the wait goes on if there is time left. -/
theorem plays_lapse_bind {d : Deadline} {missing : Nat} {α : Type} {f : Unit → Link α}
    {o : Outcome LinkError α} (htimely : Timely d es)
    (h : ((c.lapse d missing).bind f).Plays es o) :
    ∃ time rest, es = [⟨.now, time⟩, ⟨.pause c.options.pollDelay, ()⟩] ++ rest ∧
      (f ()).Plays rest o := by
  rw [lapse, bind_eq, bind_bind] at h
  obtain ⟨time, rest, rfl, hrest⟩ := plays_now_bind_iff.1 h
  have hleft : ¬d.timeout.toNat * 1000 < time - d.start :=
    Nat.not_lt.2 (htimely [] time rest rfl rfl)
  dsimp only at hrest
  rw [if_neg hleft] at hrest
  obtain ⟨rest, rfl, hnext⟩ := plays_pause_bind_iff.1 hrest
  exact ⟨time, rest, rfl, hnext⟩

/-- The next byte arrives, if the wait for it is not the whole patience of the channel. -/
theorem plays_nextByte_ok {d : Deadline} {missing patience : Nat} {o : Outcome LinkError UInt8}
    (htimely : Timely d es) (hwait : received es = [] → es.countP isEmptyRead < patience)
    (h : (c.nextByte d missing patience).Plays es o) : ∃ b, o = .ok b := by
  induction patience generalizing es with
  | zero =>
    cases h
    exact absurd (hwait rfl) (Nat.not_lt_zero _)
  | succ patience ih =>
    have hagain : ∀ read {rest : List (Exchange interface)}, es = read ++ rest →
        signals read = [] → read.countP isEmptyRead = 1 →
        ((c.lapse d missing).bind fun _ => c.nextByte d missing patience).Plays rest o →
        ∃ b, o = .ok b := by
      rintro read rest rfl hsignals hcount hrest
      have haccepted : accepted read = [] := by rw [accepted_eq, hsignals]; rfl
      have hreceived : received read = [] := by rw [received, hsignals]; rfl
      obtain ⟨time, rest, rfl, hnext⟩ := plays_lapse_bind (htimely.right haccepted) hrest
      refine ih ((htimely.right haccepted).right rfl) (fun hnone => ?_) hnext
      have hlt := hwait (by rw [received_append, hreceived]; exact hnone)
      rw [List.countP_append, hcount] at hlt
      have hpause : (([⟨.now, time⟩, ⟨.pause c.options.pollDelay, ()⟩] ++ rest :
          List (Exchange interface))).countP isEmptyRead = rest.countP isEmptyRead := rfl
      omega
    cases h with
    | @ask _ _ r _ _ h =>
      cases r with
      | byte b =>
        cases h
        exact ⟨b, rfl⟩
      | idle => exact hagain [⟨.read, .idle⟩] rfl rfl rfl h
      | fault f =>
        obtain ⟨rest, rfl, hrest⟩ := plays_note_bind_iff.1 h
        exact hagain [⟨.read, .fault f⟩, ⟨.note (.readFault f), ()⟩] rfl rfl rfl hrest

theorem plays_collect_ok {d : Deadline} {missing : Nat} {got : List UInt8}
    {o : Outcome LinkError (List UInt8)} (hserved : c.Served es) (htimely : Timely d es)
    (h : (c.collect d missing got).Plays es o) : ∃ data, o = .ok data := by
  induction missing generalizing es got with
  | zero =>
    cases h
    exact ⟨_, rfl⟩
  | succ missing ih =>
    have hbyte : ∀ {es' o'}, es' <+: es →
        (c.nextByte d (missing + 1) c.patience).Plays es' o' → ∃ b, o' = .ok b := by
      rintro es' o' ⟨rest, rfl⟩ hplays
      exact plays_nextByte_ok htimely.left
        (hserved.answering es' (List.prefix_append es' rest).isInfix) hplays
    rcases plays_bind_iff.1 h with ⟨b, es₁, es₂, rfl, hnext, hrest⟩ | ⟨e, hnext, -⟩ | ⟨x, hnext, -⟩
    · have hsignals : signals es₁ = [.got b] := c.ensures_nextByte d _ _ _ _ hnext
      have hquiet : accepted es₁ = [] := by rw [accepted_eq, hsignals]; rfl
      exact ih hserved.right (htimely.right hquiet) hrest
    · obtain ⟨b, ho⟩ := hbyte (List.prefix_refl es) hnext
      cases ho
    · obtain ⟨b, ho⟩ := hbyte (List.prefix_refl es) hnext
      cases ho

/-- A receive succeeds, if a buffer can hold so many bytes. -/
theorem Served.receive {count : Nat} {o : Outcome LinkError (List UInt8)} (h : c.Served es)
    (hcount : count ≤ Size.largestBuffer) (hplays : (c.receive count).Plays es o) :
    ∃ data, o = .ok data := by
  have hreserve : Size.reserve count = .ok () := if_pos hcount
  obtain ⟨start, rest, rfl, hrest⟩ := plays_now_bind_iff.1 hplays
  have htimely : Timely ⟨count, c.options.responseTimeout, start⟩ rest := by
    rintro before time after rfl hbefore
    refine h.inTime start before time ?_ hbefore
    exact List.IsPrefix.isInfix ⟨after, by simp⟩
  rw [hreserve] at hrest
  have hrest : ((c.collect ⟨count, c.options.responseTimeout, start⟩ count []).bind fun data =>
      (Link.note (.received data)).bind fun _ => done (.ok data)).Plays rest o := hrest
  rcases plays_bind_iff.1 hrest with ⟨data, es₁, es₂, rfl, hcollect, hnote⟩ |
    ⟨e, hcollect, -⟩ | ⟨x, hcollect, -⟩
  · obtain ⟨_, rfl, hdone⟩ := plays_note_bind_iff.1 hnote
    cases hdone
    exact ⟨data, rfl⟩
  · obtain ⟨data, ho⟩ := plays_collect_ok h.tail htimely hcollect
    cases ho
  · obtain ⟨data, ho⟩ := plays_collect_ok h.tail htimely hcollect
    cases ho

end Channel

end BadgeLink
