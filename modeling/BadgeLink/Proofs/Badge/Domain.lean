import BadgeLink.Proofs.Badge.Encoding
import BadgeLink.Proofs.Link.Conversation

/-!
# The domain of the arguments

A call is refused for its arguments in two places. The operation checks each of them by itself, and
the frame refuses a payload of more than 255 bytes. What the checks leave too long is so bounded by
the frame, less the header that the operation adds.

* `Call.Accepts` is the domain of the arguments, and `Call.layout` the payload, of each operation.
* `Call.Checked` is what the operations check. `Call.accepts_iff`: with the bound of the frame, this is
  the domain.
* `argument_domain`: outside of it nothing is asked of the port; inside, the frame of the payload is
  sent, and nothing is refused.
-/

namespace BadgeLink.Badge

open Dialogue Link Channel

namespace Call

/-- The arguments that are not refused. -/
def Accepts : Call → Prop
  | raw _ data | uartTransfer data => data.length ≤ 254
  | lcdClear | lcdRefresh | buttons => True
  | lcdPixel x y _ => x.toNat < 128 ∧ y.toNat < 64
  | lcdText _ _ text => (∀ c ∈ text.toList, c.toNat < 128) ∧ text.utf8ByteSize ≤ 250
  | ledSet led _ | ledBlink led _ => led = 0 ∨ led = 1
  | i2cRead _ register length => register.length ≤ 4 ∧ length ≤ 255
  | i2cWrite _ register data => register.length ≤ 4 ∧ register.length + data.length ≤ 250
  | spiConfig clock mode => 1 ≤ clock.toNat ∧ clock.toNat ≤ 60000 ∧ mode.toNat ≤ 3
  | spiTransfer data => data.length ≤ 252

instance : DecidablePred Accepts
  | raw .. | uartTransfer _ | spiTransfer _ => inferInstanceAs (Decidable (_ ≤ _))
  | lcdClear | lcdRefresh | buttons => inferInstanceAs (Decidable True)
  | lcdPixel .. | lcdText .. | i2cRead .. | i2cWrite .. | spiConfig .. =>
    inferInstanceAs (Decidable (_ ∧ _))
  | ledSet .. | ledBlink .. => inferInstanceAs (Decidable (_ ∨ _))

/-- The arguments that pass the checks of the operation itself. -/
def Checked : Call → Prop
  | i2cWrite _ register data => register.length ≤ 4 ∧ data.length ≤ 255
  | spiTransfer data => data.length ≤ 255
  | raw .. | uartTransfer _ => True
  | c => c.Accepts

/-- The payload that holds the arguments, whatever they are. -/
def layout : Call → List UInt8
  | raw kind data => kind.code :: data
  | lcdClear => [6, 0]
  | lcdRefresh => [6, 1]
  | lcdPixel x y value => [6, 2, x, y, value]
  | lcdText row column text =>
    [6, 3, row, column, UInt8.ofNat text.utf8ByteSize] ++ asciiBytes text.toList
  | ledSet led value => [5, 0, led, value]
  | ledBlink led period => [5, 1, led, period]
  | buttons => [7]
  | uartTransfer data => 1 :: data
  | i2cRead device register length =>
    [2, 0, device, UInt8.ofNat register.length] ++ register ++ [UInt8.ofNat length]
  | i2cWrite device register data =>
    [2, 1, device, UInt8.ofNat register.length] ++ register ++ UInt8.ofNat data.length :: data
  | spiConfig clock mode => [3, 0, UInt8.ofNat (clock.toNat / 256), UInt8.ofNat clock.toNat, mode]
  | spiTransfer data => [3, 1, UInt8.ofNat data.length] ++ data

/-- An ASCII text has one byte for each of its characters. -/
theorem utf8ByteSize_of_ascii {text : String} (h : ∀ c ∈ text.toList, c.toNat < 128) :
    text.utf8ByteSize = text.toList.length := by
  have hsize : ∀ cs : List Char, (∀ c ∈ cs, c.toNat < 128) →
      (String.ofList cs).utf8ByteSize = cs.length := by
    intro cs hcs
    induction cs with
    | nil => rfl
    | cons c cs ih =>
      obtain ⟨hc, hcs⟩ := List.forall_mem_cons.1 hcs
      have hone : c.utf8Size = 1 := Char.utf8Size_eq_one_iff.2 (UInt32.le_iff_toNat_le.2
        (Nat.le_of_lt_succ hc))
      rw [← List.singleton_append, String.ofList_append, String.utf8ByteSize_append, ih hcs,
        ← String.singleton_eq_ofList, String.utf8ByteSize_singleton, hone, List.length_append]
      rfl
  rw [← hsize text.toList h, String.ofList_toList]

theorem ok_eq_ok_iff {code : UInt8} {arguments arguments' : List UInt8} :
    (.ok arguments : Except Refusal (List UInt8)) = .ok arguments' ↔
      code :: arguments = code :: arguments' := by
  rw [Except.ok.injEq, List.cons_inj_right]

theorem require_require_bind_eq_ok {p q : Bool} {why why' : Refusal}
    {rest : Except Refusal (List UInt8)} {a : List UInt8} :
    (require p why >>= fun _ => require q why' >>= fun _ => rest) = .ok a ↔
      (p = true ∧ q = true) ∧ rest = .ok a := by
  rw [require_bind_eq_ok, require_bind_eq_ok, and_assoc]

/-- The checks let pass what they are meant to, and the payload is laid out then. -/
theorem arguments_eq_ok_iff {c : Call} {arguments : List UInt8} :
    c.arguments = .ok arguments ↔ c.Checked ∧ c.layout = c.kind.code :: arguments := by
  cases c with
  | raw | lcdClear | lcdRefresh | buttons | uartTransfer =>
    exact ok_eq_ok_iff.trans (iff_of_eq (true_and _)).symm
  | lcdPixel x y value =>
    refine require_bind_eq_ok.trans (and_congr ?_ ok_eq_ok_iff)
    rw [Bool.and_eq_true, decide_eq_true_iff, decide_eq_true_iff]
    exact and_congr UInt8.lt_iff_toNat_lt UInt8.lt_iff_toNat_lt
  | lcdText row column text =>
    refine require_require_bind_eq_ok.trans ?_
    rw [List.all_eq_true, decide_eq_true_iff]
    simp only [decide_eq_true_iff]
    -- the characters are counted as bytes once they are known to be ASCII
    refine and_assoc.trans ((and_congr_right fun hascii => ?_).trans and_assoc.symm)
    rw [layout, utf8ByteSize_of_ascii hascii]
    exact and_congr_right' ok_eq_ok_iff
  | ledSet led value | ledBlink led value =>
    refine require_bind_eq_ok.trans (and_congr ?_ ok_eq_ok_iff)
    rw [List.contains_iff_mem, leds, List.mem_pair]
    rfl
  | i2cRead | i2cWrite =>
    exact require_require_bind_eq_ok.trans
      (and_congr (and_congr decide_eq_true_iff decide_eq_true_iff) ok_eq_ok_iff)
  | spiConfig clock mode =>
    refine require_require_bind_eq_ok.trans (and_congr ?_ ok_eq_ok_iff)
    rw [Bool.and_eq_true, decide_eq_true_iff, decide_eq_true_iff, decide_eq_true_iff, and_assoc]
    exact and_congr UInt16.le_iff_toNat_le
      (and_congr UInt16.le_iff_toNat_le UInt8.le_iff_toNat_le)
  | spiTransfer data =>
    exact require_bind_eq_ok.trans (and_congr decide_eq_true_iff ok_eq_ok_iff)

/-- The operations check what makes their payloads too long, or leave it to the frame. -/
theorem accepts_iff {c : Call} : c.Accepts ↔ c.Checked ∧ c.layout.length ≤ 255 := by
  cases c with
  | lcdText row column text =>
    refine (and_iff_left_of_imp ?_).symm
    rintro ⟨hascii, hsize⟩
    rw [utf8ByteSize_of_ascii hascii] at hsize
    have hlength : (asciiBytes text.toList).length = text.toList.length := List.length_map ..
    simp only [layout, List.length_append, List.length_cons, List.length_nil, hlength]
    omega
  | lcdClear | lcdRefresh | lcdPixel | ledSet | ledBlink | buttons | spiConfig =>
    exact (and_iff_left (Nat.le_of_ble_eq_true rfl)).symm
  | raw | uartTransfer | i2cRead | i2cWrite | spiTransfer =>
    simp only [Accepts, Checked, layout, List.length_append, List.length_cons, List.length_nil,
      true_and]
    omega

theorem layout_eq_cons (c : Call) : ∃ arguments, c.layout = c.kind.code :: arguments := by
  cases c <;> exact ⟨_, rfl⟩

/-- A call has a frame if its arguments lie in the domain, and then it is that of its payload. -/
theorem frame_eq_ok_iff_accepts {c : Call} {frame : List UInt8} :
    c.frame = .ok frame ↔ c.Accepts ∧ Frame.encode c.layout = .ok frame := by
  rw [frame_eq_ok_iff, accepts_iff]
  constructor
  · rintro ⟨arguments, harguments, hframe⟩
    obtain ⟨hchecked, hlayout⟩ := arguments_eq_ok_iff.1 harguments
    rw [← hlayout, ← Frame.encode_eq_ok_iff_frames] at hframe
    obtain ⟨-, hmax, -⟩ := Frame.encode_eq_ok_iff.1 hframe
    exact ⟨⟨hchecked, hmax⟩, hframe⟩
  · rintro ⟨⟨hchecked, -⟩, hframe⟩
    obtain ⟨arguments, hlayout⟩ := c.layout_eq_cons
    rw [hlayout, Frame.encode_eq_ok_iff_frames] at hframe
    exact ⟨arguments, arguments_eq_ok_iff.2 ⟨hchecked, hlayout⟩, hframe⟩

theorem exists_frame {c : Call} (h : c.Accepts) : ∃ frame, c.frame = .ok frame := by
  obtain ⟨-, hmax⟩ := accepts_iff.1 h
  obtain ⟨arguments, hlayout⟩ := c.layout_eq_cons
  have hpos : 0 < c.layout.length := by
    rw [hlayout]
    exact Nat.succ_pos _
  exact ⟨_, frame_eq_ok_iff_accepts.2 ⟨h, Frame.encode_eq_ok_iff.2 ⟨hpos, hmax, rfl⟩⟩⟩

theorem exists_refusal {c : Call} (h : ¬c.Accepts) : ∃ why, c.frame = .error why := by
  cases hframe : c.frame with
  | ok frame => exact absurd (frame_eq_ok_iff_accepts.1 hframe).1 h
  | error why => exact ⟨why, rfl⟩

end Call

/-! ## Conversations of a call -/

variable (b : Badge) (c : Call)

/-- What a call makes of the response. -/
def Call.conclude (r : Response) : Link Reply :=
  match r.ok with
  | .ok data => Dialogue.ofExcept (c.decode data)
  | .error e => do
    Link.note (.commandFailed c.kind (ResponseKind.ofCode? r.kind))
    throw e

variable {b c} {frame : List UInt8}

/-- A call that is not refused sends its frame, and then takes a response. -/
theorem call_of_frame (h : c.frame = .ok frame) :
    b.call c = (Link.note (.command c.kind c.layout.length)).bind fun _ =>
      (b.channel.send frame).bind fun _ => b.response.bind c.conclude := by
  obtain ⟨arguments, harguments, hframe⟩ := Call.frame_eq_ok_iff.1 h
  obtain ⟨-, hlayout⟩ := Call.arguments_eq_ok_iff.1 harguments
  have hencode := Frame.encode_eq_ok_iff_frames.2 hframe
  unfold call command
  rw [harguments, hlayout]
  show Dialogue.bind _ (fun data => Dialogue.ofExcept (c.decode data)) = _
  dsimp only
  rw [hencode]
  show Dialogue.bind ((Link.note _).bind fun _ => (b.channel.send frame).bind fun _ =>
    b.response.bind _) _ = _
  simp only [bind_bind]
  refine congrArg (Dialogue.bind _) (funext fun _ => congrArg (Dialogue.bind _) (funext fun _ =>
    congrArg (Dialogue.bind _) (funext fun r => ?_)))
  unfold Call.conclude
  cases r.ok <;> rfl

theorem Call.not_refused_of_decode {data : List UInt8} {e : LinkError}
    (h : c.decode data = .error e) : ¬(Stop.error e).Refused := by
  rintro ⟨why, ⟨rfl⟩⟩
  cases c with
  | buttons =>
    cases data with
    | nil => cases h
    | cons => cases h
  | _ => cases h

theorem not_refused_of_ok {r : Response} {e : LinkError} (h : r.ok = .error e) :
    ¬(Stop.error e).Refused := by
  rintro ⟨why, ⟨rfl⟩⟩
  unfold Response.ok at h
  split at h <;> cases h

/-- Once its frame was sent, a call sends no more, and nothing is refused. -/
theorem ensures_answer :
    Ensures (b.response.bind c.conclude) (fun ss _ => sentBytes ss = [])
      fun ss s => ¬s.Refused ∧ sentBytes ss = [] := by
  apply b.ensures_response.bind
  · rintro _ s ⟨hrefused, bytes, rfl⟩
    exact ⟨hrefused, sentBytes_got bytes⟩
  · rintro _ r ⟨bytes, -, rfl⟩
    have hsent : sentBytes (bytes.map .got ++ []) = [] := by
      rw [List.append_nil, sentBytes_got]
    have hstop : ∀ e, ¬(Stop.error e).Refused → Ensures (done (.error e) : Link Reply)
        (fun ss _ => sentBytes (bytes.map .got ++ ss) = [])
        fun ss s => ¬s.Refused ∧ sentBytes (bytes.map .got ++ ss) = [] :=
      fun e he => ensures_error ⟨he, hsent⟩
    unfold Call.conclude
    cases hok : r.ok with
    | ok data =>
      dsimp only
      cases hdecode : c.decode data with
      | ok reply =>
        refine ensures_ok ?_
        exact hsent
      | error e => exact hstop e (Call.not_refused_of_decode hdecode)
    | error e => exact ensures_note_bind (hstop e (not_refused_of_ok hok))

/-- A call that is not refused sends its frame, and if the send stops short, so does the call. -/
theorem exists_sending (h : c.frame = .ok frame) {es : List (Exchange interface)}
    {o : Outcome LinkError Reply} (hplays : (b.call c).Plays es o) :
    ∃ sending rest sent, es = ⟨.note (.command c.kind c.layout.length), ()⟩ :: (sending ++ rest) ∧
      (b.channel.send frame).Plays sending sent ∧
      (sent = .ok () ∧ (b.response.bind c.conclude).Plays rest o ∨
        rest = [] ∧ ∃ s : Stop, s.Cut ∧ o.stop? = some s ∧ sent.stop? = some s) := by
  rw [call_of_frame h] at hplays
  obtain ⟨es, rfl, hafter⟩ := plays_note_bind_iff.1 hplays
  rcases plays_bind_iff.1 hafter with ⟨_, sending, rest, rfl, hsend, hrest⟩ | ⟨e, hsend, rfl⟩ |
    ⟨crash, hsend, rfl⟩
  · exact ⟨sending, rest, _, rfl, hsend, .inl ⟨rfl, hrest⟩⟩
  · obtain ⟨hcut, -⟩ : SentPart frame _ _ := b.channel.ensures_send frame _ _ hsend
    exact ⟨es, [], _, by rw [List.append_nil], hsend, .inr ⟨rfl, _, hcut, rfl, rfl⟩⟩
  · obtain ⟨hcut, -⟩ : SentPart frame _ _ := b.channel.ensures_send frame _ _ hsend
    exact ⟨es, [], _, by rw [List.append_nil], hsend, .inr ⟨rfl, _, hcut, rfl, rfl⟩⟩

theorem not_refused_of_plays (h : c.frame = .ok frame) {es : List (Exchange interface)}
    {why : Refusal} : ¬(b.call c).Plays es (.error (.refused why)) := by
  intro hplays
  obtain ⟨_, rest, _, -, -, ⟨-, hrest⟩ | ⟨-, s, hcut, hs, -⟩⟩ := exists_sending h hplays
  · obtain ⟨hrefused, -⟩ := ensures_answer _ _ hrest
    exact hrefused ⟨why, rfl⟩
  · exact hcut.not_refused ⟨why, (Option.some.inj hs).symm⟩

/-- The whole frame is accepted if the send succeeds, and nothing else is. -/
theorem exists_sending_accepted (h : c.frame = .ok frame) {es : List (Exchange interface)}
    {o : Outcome LinkError Reply} (hplays : (b.call c).Plays es o) :
    ∃ sending rest sent, es = ⟨.note (.command c.kind c.layout.length), ()⟩ :: (sending ++ rest) ∧
      (b.channel.send frame).Plays sending sent ∧ (sent = .ok () → accepted es = frame) := by
  obtain ⟨sending, rest, sent, rfl, hsend, hrest⟩ := exists_sending h hplays
  refine ⟨sending, rest, sent, rfl, hsend, ?_⟩
  rintro rfl
  have hsent : signals sending = frame.map .sent := b.channel.ensures_send frame _ _ hsend
  obtain ⟨-, hanswer⟩ | ⟨-, _, -, -, hs⟩ := hrest
  · have hanswer := ensures_answer _ _ hanswer
    have hnone : sentBytes (signals rest) = [] := by
      cases o with
      | ok reply => exact hanswer
      | error e => exact hanswer.2
      | crash crash => exact hanswer.2
    rw [accepted_eq, signals_cons, signals_append, hsent, sentBytes_append, sentBytes_append, hnone,
      sentBytes_sent, List.append_nil]
    rfl
  · cases hs

/-! ## The domain -/

/-- A call whose arguments lie outside of the domain is refused, and asks nothing of the port, nor
for a pause. No other call is refused, whatever the port does: it sends the frame of its payload, or
a first part of it if the send stops short. -/
theorem argument_domain (b : Badge) (c : Call) :
    (¬c.Accepts → ∃ why, b.call c = .done (.error (.refused why))) ∧
    (∀ es o, (b.call c).Plays es o → ((∃ why, o = .error (.refused why)) ↔ ¬c.Accepts)) ∧
    (c.Accepts → ∃ frame, Frame.encode c.layout = .ok frame ∧
      ∀ es o, (b.call c).Plays es o → accepted es <+: frame ∧
        ∃ sending rest sent,
          es = ⟨.note (.command c.kind c.layout.length), ()⟩ :: (sending ++ rest) ∧
          (b.channel.send frame).Plays sending sent ∧ (sent = .ok () → accepted es = frame)) := by
  refine ⟨?_, ?_, ?_⟩
  · intro houtside
    obtain ⟨why, hframe⟩ := Call.exists_refusal houtside
    exact ⟨why, b.call_of_refused hframe⟩
  · intro es o hplays
    constructor
    · rintro ⟨why, rfl⟩ hinside
      obtain ⟨frame, hframe⟩ := Call.exists_frame hinside
      exact not_refused_of_plays hframe hplays
    · intro houtside
      obtain ⟨why, hframe⟩ := Call.exists_refusal houtside
      exact ⟨why, (plays_call_of_refused hframe hplays).2⟩
  · intro hinside
    obtain ⟨frame, hframe⟩ := Call.exists_frame hinside
    refine ⟨frame, (Call.frame_eq_ok_iff_accepts.1 hframe).2, fun es o hplays => ⟨?_, ?_⟩⟩
    · rw [accepted_eq]
      exact prefix_of_plays hplays hframe
    · exact exists_sending_accepted hframe hplays

/-- A write to a register with an address of four bytes takes 246 bytes and no more. Where the port
fails at the second byte of the frame that sets a light, it has got the first. -/
theorem domain_of_write_and_light :
    (Call.i2cWrite 0x50 [0, 0, 0, 0] (List.replicate 246 7)).Accepts ∧
    (∃ why, (Badge.mk {} 100).call (.i2cWrite 0x50 [0, 0, 0, 0] (List.replicate 247 7)) =
      .done (.error (.refused why))) ∧
    ∃ es f, ((Badge.mk {} 100).call (.ledSet 1 255)).Plays es (.error (.port f)) ∧
      accepted es = [4] ∧
      ∃ frame, Frame.encode [5, 0, 1, 255] = .ok frame ∧ accepted es <+: frame := by
  refine ⟨⟨by decide, by rw [List.length_replicate]; decide⟩, ?_, ?_⟩
  · obtain ⟨hrefused, -, -⟩ :=
      argument_domain (Badge.mk {} 100) (.i2cWrite 0x50 [0, 0, 0, 0] (List.replicate 247 7))
    refine hrefused ?_
    rintro ⟨-, hlength⟩
    rw [List.length_replicate] at hlength
    exact absurd hlength (by decide)
  · obtain ⟨-, -, hinside⟩ := argument_domain (Badge.mk {} 100) (.ledSet 1 255)
    obtain ⟨frame, hframe, hsent⟩ := hinside (by decide)
    have hwrite : (writeAll {} [4, 5, 0, 1, 255, 251]).Plays
        [⟨.write 4, .done⟩, ⟨.write 5, .fault ⟨"gone"⟩⟩] (.error (.port ⟨"gone"⟩)) :=
      plays_bind_iff.2 (.inl ⟨(), [_], [_], rfl, .ask (.done _),
        plays_bind_iff.2 (.inr (.inl ⟨_, .ask (.done _), rfl⟩))⟩)
    have hsend : (send {} [4, 5, 0, 1, 255, 251]).Plays
        [⟨.note (.sending [4, 5, 0, 1, 255, 251]), ()⟩, ⟨.write 4, .done⟩,
          ⟨.write 5, .fault ⟨"gone"⟩⟩] (.error (.port ⟨"gone"⟩)) :=
      .ask ((plays_bind_iff (p := writeAll {} _)).2 (.inr (.inl ⟨_, hwrite, rfl⟩)))
    have hcall : ((Badge.mk {} 100).call (.ledSet 1 255)).Plays (⟨.note (.command .led 4), ()⟩ ::
        [⟨.note (.sending [4, 5, 0, 1, 255, 251]), ()⟩, ⟨.write 4, .done⟩,
          ⟨.write 5, .fault ⟨"gone"⟩⟩]) (.error (.port ⟨"gone"⟩)) := by
      rw [call_of_frame (show (Call.ledSet 1 255).frame = .ok [4, 5, 0, 1, 255, 251] from rfl)]
      exact .ask ((plays_bind_iff (p := send {} _)).2 (.inr (.inl ⟨_, hsend, rfl⟩)))
    exact ⟨_, _, hcall, rfl, frame, hframe, (hsent _ _ hcall).1⟩

end BadgeLink.Badge
