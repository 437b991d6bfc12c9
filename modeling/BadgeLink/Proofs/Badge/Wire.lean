import BadgeLink.Badge.Client
import BadgeLink.Proofs.Frame.Codec
import BadgeLink.Proofs.Link.Channel
import Mathlib.Data.List.Forall2

/-!
# What a client of a badge puts on the wire

The bytes that a client of a badge sends, whatever the port does and whatever it is answered. A reset
sends reset requests and nothing else, and succeeds only behind the acknowledgement of one of them. A
call that is refused shows nothing. Any other sends its frame or a first part of it, and yields a
value only if a frame came back that reports success.

* `Call.frame` is the frame of a call.
* `ensures_reset` and `ensures_call` are the laws of the two.
* `InTurn` and `Served` are for several calls, one after the other.
-/

namespace BadgeLink

/-- A stop because the arguments were refused. -/
def Stop.Refused (s : Stop) : Prop :=
  ∃ why, s = .error (.refused why)

theorem Stop.Cut.not_refused {s : Stop} (h : s.Cut) : ¬s.Refused := by
  rintro ⟨why, rfl⟩
  cases h

theorem Response.not_refused_of_parse {body : List UInt8} {e : LinkError}
    (h : Response.parse body = .error e) : ¬(Stop.error e).Refused := by
  rintro ⟨why, ⟨rfl⟩⟩
  unfold parse at h
  split at h
  · dsimp only at h
    split at h <;> cases h
  · cases h

namespace Badge

open Dialogue Link Channel

/-- The frame with which a call is sent, unless the call is refused. -/
def Call.frame (c : Call) : Except Refusal (List UInt8) := do
  let arguments ← c.arguments
  Frame.encode (c.kind.code :: arguments)

theorem Call.frame_eq_ok_iff {c : Call} {frame : List UInt8} :
    c.frame = .ok frame ↔
      ∃ arguments, c.arguments = .ok arguments ∧ Frame.Frames (c.kind.code :: arguments) frame := by
  unfold Call.frame
  cases c.arguments with
  | ok arguments =>
    constructor
    · intro h
      exact ⟨arguments, rfl, Frame.encode_eq_ok_iff_frames.1 h⟩
    · rintro ⟨_, ⟨rfl⟩, h⟩
      exact Frame.encode_eq_ok_iff_frames.2 h
  | error why =>
    constructor
    · intro h
      cases h
    · rintro ⟨_, h, -⟩
      cases h

variable (b : Badge)

/-! ## Resets -/

/-- Nothing but reset requests was sent, and at most this many. -/
def Requested (most : Nat) (ss : List Signal) : Prop :=
  ∃ k ≤ most, sentBytes ss = List.replicate k Frame.resetRequest

/-- The last that happened is that a reset request was acknowledged. -/
def Acknowledged (ss : List Signal) : Prop :=
  ∃ earlier, ss = earlier ++ .sent Frame.resetRequest :: resetAcknowledgement.map .got

theorem Requested.cons {most : Nat} {ss ss' : List Signal}
    (h : sentBytes ss = [Frame.resetRequest]) (h' : Requested most ss') :
    Requested (most + 1) (ss ++ ss') := by
  obtain ⟨k, hk, hsent⟩ := h'
  refine ⟨k + 1, Nat.succ_le_succ hk, ?_⟩
  rw [sentBytes_append, h, hsent]
  rfl

theorem Acknowledged.append {ss' : List Signal} (ss : List Signal) (h : Acknowledged ss') :
    Acknowledged (ss ++ ss') := by
  obtain ⟨earlier, rfl⟩ := h
  exact ⟨ss ++ earlier, by rw [List.append_assoc]⟩

/-- A request is one byte. It counts as acknowledged only if nothing but the acknowledgement came
back. -/
theorem ensures_requestReset (number : Nat) :
    Ensures (b.requestReset number)
      (fun ss acknowledged => sentBytes ss = [Frame.resetRequest] ∧
        (acknowledged = true → Acknowledged ss))
      fun ss _ => Requested 1 ss := by
  -- whatever came back instead of the acknowledgement, the rest of the attempt sends nothing
  have hgiveUp : ∀ got : List UInt8, Ensures ((discard b.channel.drain).bind fun _ => .done (.ok false))
      (fun ss acknowledged => sentBytes ([.sent Frame.resetRequest] ++ (got.map .got ++ ss)) =
        [Frame.resetRequest] ∧ (acknowledged = true →
          Acknowledged ([.sent Frame.resetRequest] ++ (got.map .got ++ ss))))
      fun ss _ => Requested 1 ([.sent Frame.resetRequest] ++ (got.map .got ++ ss)) := by
    intro got
    rw [discard_bind]
    apply b.channel.ensures_drain.bind
    · exact fun _ _ h => h.elim
    · intro ss _ hpost
      obtain ⟨data, rfl⟩ := hpost
      refine ensures_ok ⟨?_, fun h => nomatch h⟩
      rw [List.append_nil, ← List.map_append, sentBytes_append, sentBytes_got]
      rfl
  have hsent : ∀ got : List UInt8, Requested 1 ([.sent Frame.resetRequest] ++ got.map .got) := by
    intro got
    refine ⟨1, Nat.le_refl 1, ?_⟩
    rw [sentBytes_append, sentBytes_got]
    rfl
  apply (b.channel.ensures_send [Frame.resetRequest]).bind
  · intro ss s hpost
    obtain ⟨-, part, hpart, rfl⟩ := hpost
    have hlength := hpart.length_le
    refine ⟨part.length, hlength, ?_⟩
    rw [sentBytes_sent]
    exact List.eq_replicate_of_mem fun x hx => List.mem_singleton.1 (hpart.subset hx)
  · intro ss _ hpost
    subst hpost
    refine ensures_ask fun _ => ?_
    apply (b.channel.ensures_receiveWithin (by decide) b.resetInterval).attempt.bind
    · intro ss s hpost
      obtain ⟨-, -, got, -, rfl⟩ := hpost
      exact hsent got
    · intro ss answer hpost
      cases answer with
      | ok data =>
        obtain ⟨-, rfl⟩ : data.length = 3 ∧ ss = data.map .got := hpost
        by_cases hack : data = resetAcknowledgement
        · subst hack
          exact ensures_note_bind (ensures_ok ⟨rfl, fun _ => ⟨[], rfl⟩⟩)
        · dsimp only
          rw [if_neg hack]
          exact ensures_note_bind (hgiveUp data)
      | error e =>
        obtain ⟨hcut, got, -, rfl⟩ : GotPart 3 ss (.error e) := hpost
        cases hcut with
        | port f =>
          refine ensures_error ?_
          rw [List.append_nil]
          exact hsent got
        | timeout ms expected received => exact hgiveUp got

theorem ensures_requestResets (left number : Nat) :
    Ensures (b.requestResets left number) (fun ss _ => Requested left ss ∧ Acknowledged ss)
      fun ss _ => Requested left ss := by
  induction left generalizing number with
  | zero => exact ensures_note_bind (ensures_error ⟨0, Nat.le_refl 0, rfl⟩)
  | succ left ih =>
    apply (b.ensures_requestReset number).bind
    · intro ss _ hpost
      obtain ⟨k, hk, hsent⟩ := hpost
      exact ⟨k, Nat.le_trans hk (Nat.le_add_left 1 left), hsent⟩
    · intro ss acknowledged hpost
      obtain ⟨hsent, hack⟩ := hpost
      cases acknowledged with
      | true =>
        refine ensures_ok ⟨Requested.cons hsent ⟨0, Nat.zero_le left, rfl⟩, ?_⟩
        rw [List.append_nil]
        exact hack rfl
      | false =>
        apply (ih (number + 1)).mono
        · intro ss' _ hpost
          exact ⟨hpost.1.cons hsent, hpost.2.append ss⟩
        · intro ss' _ hpost
          exact hpost.cons hsent

/-- A reset sends nothing but reset requests, 256 of them at most, and if it succeeds, the last of
them was acknowledged. -/
theorem ensures_reset :
    Ensures b.reset (fun ss _ => Requested 256 ss ∧ Acknowledged ss) fun ss _ => Requested 256 ss :=
  b.ensures_requestResets 256 1

theorem requested_of_plays {es : List (Exchange interface)} {o : Outcome LinkError Unit}
    (h : b.reset.Plays es o) : Requested 256 (signals es) := by
  have hends := b.ensures_reset _ _ h
  cases o with
  | ok _ => exact hends.1
  | error e => exact hends
  | crash c => exact hends

/-! ## Calls -/

/-- The frame was sent whole, and then a frame came back that reports success, with these data. -/
def Answered (frame data : List UInt8) (ss : List Signal) : Prop :=
  ∃ response, Frame.Frames (ResponseKind.ok.code :: data) response ∧
    ss = frame.map .sent ++ response.map .got

theorem Answered.sentBytes_eq {frame data : List UInt8} {ss : List Signal}
    (h : Answered frame data ss) : sentBytes ss = frame := by
  obtain ⟨response, -, rfl⟩ := h
  simp

theorem Answered.sentBytes_prefix {frame data : List UInt8} {ss : List Signal}
    (h : Answered frame data ss) : sentBytes ss <+: frame :=
  h.sentBytes_eq ▸ List.prefix_refl (sentBytes ss)

/-- A response is a whole frame. -/
theorem ensures_response :
    Ensures b.response
      (fun ss r => ∃ bytes, Frame.Frames (r.kind :: r.data) bytes ∧ ss = bytes.map .got)
      fun ss s => ¬s.Refused ∧ ∃ bytes : List UInt8, ss = bytes.map .got := by
  have hpart : ∀ count ss s, GotPart count ss s →
      ¬s.Refused ∧ ∃ bytes : List UInt8, ss = bytes.map .got := by
    intro count ss s hpost
    obtain ⟨hcut, part, -, rfl⟩ := hpost
    exact ⟨hcut.not_refused, part, rfl⟩
  apply (b.channel.ensures_receive (by decide)).bind
  · exact hpart 1
  · intro ss head hpost
    obtain ⟨hhead, rfl⟩ := hpost
    obtain ⟨count, rfl⟩ := List.length_eq_one_iff.1 hhead
    have hsize : count.toNat + 1 ≤ Size.largestBuffer := by
      have hlt := count.toNat_lt
      rw [Size.largestBuffer]
      omega
    apply (b.channel.ensures_receive hsize).bind
    · intro ss s hpost
      obtain ⟨hrefused, part, rfl⟩ := hpart _ _ _ hpost
      exact ⟨hrefused, count :: part, rfl⟩
    · intro ss body hpost
      obtain ⟨hbody, rfl⟩ := hpost
      have hdecode : Frame.decode (count :: body) = Response.parse body := if_pos hbody
      cases hparse : Response.parse body with
      | ok r =>
        rw [hparse] at hdecode
        refine ensures_ok ⟨count :: body, Frame.decode_eq_ok_iff.1 hdecode, ?_⟩
        rw [List.append_nil]
        rfl
      | error e =>
        refine ensures_error ⟨Response.not_refused_of_parse hparse, count :: body, ?_⟩
        rw [List.append_nil]
        rfl

theorem ensures_command {kind : CommandKind} {arguments frame : List UInt8}
    (hframe : Frame.encode (kind.code :: arguments) = .ok frame) :
    Ensures (b.command kind arguments) (fun ss data => Answered frame data ss)
      fun ss _ => sentBytes ss <+: frame := by
  have hwhole : ∀ got : List UInt8, sentBytes (frame.map .sent ++ got.map .got) <+: frame := by
    intro got
    simp
  unfold command
  dsimp only
  rw [hframe]
  refine ensures_note_bind ?_
  apply (b.channel.ensures_send frame).bind
  · intro ss _ hpost
    obtain ⟨-, part, hpart, rfl⟩ := hpost
    rw [sentBytes_sent]
    exact hpart
  · intro ss _ hpost
    subst hpost
    apply b.ensures_response.bind
    · intro ss _ hpost
      obtain ⟨-, bytes, rfl⟩ := hpost
      exact hwhole bytes
    · intro ss r hpost
      obtain ⟨bytes, hbytes, rfl⟩ := hpost
      by_cases hok : r.kind = ResponseKind.ok.code
      · have hdata : r.ok = .ok r.data := if_pos hok
        rw [hok] at hbytes
        rw [hdata]
        refine ensures_ok ⟨bytes, hbytes, ?_⟩
        rw [List.append_nil]
      · have herror : r.ok = .error (.device r.kind r.data) := if_neg hok
        rw [herror]
        refine ensures_note_bind (ensures_error ?_)
        rw [List.append_nil]
        exact hwhole bytes

variable {c : Call}

/-- A call that is refused asks nothing of the port. -/
theorem call_of_refused {why : Refusal} (h : c.frame = .error why) :
    b.call c = .done (.error (.refused why)) := by
  unfold Call.frame at h
  unfold call
  cases harguments : c.arguments with
  | error why' =>
    rw [harguments] at h
    cases h
    rfl
  | ok arguments =>
    rw [harguments] at h
    have hencode : Frame.encode (c.kind.code :: arguments) = .error why := h
    have hcommand : b.command c.kind arguments = .done (.error (.refused why)) := by
      unfold command
      dsimp only
      rw [hencode]
      rfl
    show (b.command c.kind arguments).bind _ = _
    rw [hcommand]
    rfl

/-- A call that is not refused sends its frame, and yields a value only if the frame that came back
reports success. -/
theorem ensures_call {frame : List UInt8} (h : c.frame = .ok frame) :
    Ensures (b.call c) (fun ss _ => ∃ data, Answered frame data ss)
      fun ss _ => sentBytes ss <+: frame := by
  obtain ⟨arguments, harguments, hframe⟩ := Call.frame_eq_ok_iff.1 h
  have hencode := Frame.encode_eq_ok_iff_frames.2 hframe
  unfold call
  rw [harguments]
  apply (b.ensures_command hencode).bind
  · exact fun _ _ h => h
  · intro ss data hanswered
    cases c.decode data with
    | ok reply =>
      refine ensures_ok ⟨data, ?_⟩
      rw [List.append_nil]
      exact hanswered
    | error e =>
      refine ensures_error ?_
      rw [List.append_nil]
      exact hanswered.sentBytes_prefix

/-! ## Calls in turn -/

/-- A call was sent whole and answered with success. -/
def Call.Succeeds (c : Call) (ss : List Signal) : Prop :=
  ∃ frame data, c.frame = .ok frame ∧ Answered frame data ss

/-- The calls were made one after the other, and each of them returned. -/
inductive Served (b : Badge) : List Call → List Signal → Prop where
  | nil : Served b [] []
  | cons {c : Call} {calls : List Call} {reply : Reply} {es : List (Exchange interface)}
      {ss : List Signal} (hcall : (b.call c).Plays es (.ok reply)) (hrest : Served b calls ss) :
      Served b (c :: calls) (signals es ++ ss)

/-- The calls were made one after the other, each of them only after the one before it had returned,
up to some place. -/
inductive InTurn (b : Badge) : List Call → List Signal → Prop where
  /-- The next call was not made. -/
  | stopped (calls : List Call) : InTurn b calls []
  /-- The next call was made, and no other after it. -/
  | last {c : Call} {calls : List Call} {o : Outcome LinkError Reply}
      {es : List (Exchange interface)} (hcall : (b.call c).Plays es o) :
      InTurn b (c :: calls) (signals es)
  /-- The next call was made and returned. -/
  | returned {c : Call} {calls : List Call} {reply : Reply} {es : List (Exchange interface)}
      {ss : List Signal} (hcall : (b.call c).Plays es (.ok reply)) (hrest : InTurn b calls ss) :
      InTurn b (c :: calls) (signals es ++ ss)

variable {b : Badge} {calls : List Call} {ss : List Signal} {es : List (Exchange interface)}

theorem plays_call_of_refused {why : Refusal} (h : c.frame = .error why)
    {o : Outcome LinkError Reply} (hcall : (b.call c).Plays es o) :
    es = [] ∧ o = .error (.refused why) := by
  rw [b.call_of_refused h] at hcall
  cases hcall
  exact ⟨rfl, rfl⟩

theorem succeeds_of_plays {reply : Reply} (hcall : (b.call c).Plays es (.ok reply)) :
    c.Succeeds (signals es) := by
  cases hframe : c.frame with
  | error why =>
    obtain ⟨-, ho⟩ := plays_call_of_refused hframe hcall
    cases ho
  | ok frame =>
    obtain ⟨data, hanswered⟩ := b.ensures_call hframe _ _ hcall
    exact ⟨frame, data, hframe, hanswered⟩

theorem prefix_of_plays {o : Outcome LinkError Reply} (hcall : (b.call c).Plays es o)
    {frame : List UInt8} (hframe : c.frame = .ok frame) : sentBytes (signals es) <+: frame := by
  have hends := b.ensures_call hframe _ _ hcall
  cases o with
  | ok reply =>
    obtain ⟨data, hanswered⟩ := hends
    exact hanswered.sentBytes_prefix
  | error e => exact hends
  | crash e => exact hends

theorem InTurn.sentBytes_prefix (h : InTurn b calls ss) {frames : List (List UInt8)}
    (hframes : List.Forall₂ (fun c frame => c.frame = .ok frame) calls frames) :
    sentBytes ss <+: frames.flatten := by
  induction h generalizing frames with
  | stopped calls => exact List.nil_prefix
  | last hcall =>
    cases hframes with
    | cons hframe _ =>
      rw [List.flatten_cons]
      exact (prefix_of_plays hcall hframe).trans (List.prefix_append _ _)
  | returned hcall _ ih =>
    cases hframes with
    | cons hframe hrest =>
      obtain ⟨frame, data, hsent, hanswered⟩ := succeeds_of_plays hcall
      cases hframe.symm.trans hsent
      rw [sentBytes_append, hanswered.sentBytes_eq, List.flatten_cons]
      exact (List.prefix_append_right_inj _).2 (ih hrest)

/-- Where the first of the calls is refused, nothing happens. -/
theorem InTurn.eq_nil_of_refused (h : InTurn b (c :: calls) ss) {why : Refusal}
    (hrefused : c.frame = .error why) : ss = [] := by
  cases h with
  | stopped => rfl
  | last hcall =>
    obtain ⟨rfl, -⟩ := plays_call_of_refused hrefused hcall
    rfl
  | returned hcall _ =>
    obtain ⟨-, ho⟩ := plays_call_of_refused hrefused hcall
    cases ho

theorem Served.exists_pieces (h : Served b calls ss) :
    ∃ pieces, ss = pieces.flatten ∧ List.Forall₂ Call.Succeeds calls pieces := by
  induction h with
  | nil => exact ⟨[], rfl, .nil⟩
  | cons hcall _ ih =>
    obtain ⟨pieces, rfl, hpieces⟩ := ih
    exact ⟨_ :: pieces, rfl, .cons (succeeds_of_plays hcall) hpieces⟩

end Badge

end BadgeLink
