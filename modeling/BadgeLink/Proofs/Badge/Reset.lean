import BadgeLink.Badge.Client
import BadgeLink.Proofs.Bench.Firmware
import BadgeLink.Proofs.Bench.Silence

/-!
# Resets after an interrupted command

A badge that got a part of a frame takes the reset requests that follow for the rest of it. Each
request but the last of these is met with silence, the last one with a reply that is no
acknowledgement, and only the next one is a request to the badge. So a reset needs one request more
than there are bytes missing.

* `Firmware.Awaits` counts the missing bytes, and `runs_requestReset` says what one request does.
* `runs_requestResets` and `fails_requestResets`: a series of requests succeeds if and only if it is
  longer than that count.
* `reset_of_interrupted`: so a reset succeeds after every part of every frame, except after the
  length byte alone of a frame of the largest size.
-/

namespace BadgeLink

open Dialogue Bench

namespace Firmware

/-- A badge that hears every reset request and has no replies prepared. -/
structure Plain (f : Firmware) : Prop where
  deafResets_eq : f.deafResets = 0
  replies_eq : f.replies = []

/-- So many bytes complete the frame that the badge has begun to take; between two frames, none. -/
def Awaits (f : Firmware) : Nat → Prop
  | 0 => f.buffer = []
  | n + 1 => ∃ length body, f.buffer = length :: body ∧ body.length + n = length.toNat

variable {f : Firmware} {n : Nat}

theorem receive_length (hplain : f.Plain) (hidle : f.Awaits 0) {b : UInt8} (hb : b ≠ 0) :
    ∃ f', f.receive b = ([], f') ∧ f'.Plain ∧ f'.Awaits (b.toNat + 1) :=
  ⟨_, receive_first hidle hb, ⟨hplain.deafResets_eq, hplain.replies_eq⟩, b, [], rfl, Nat.zero_add _⟩

theorem receive_more (hplain : f.Plain) (hawaits : f.Awaits (n + 2)) (b : UInt8) :
    ∃ f', f.receive b = ([], f') ∧ f'.Plain ∧ f'.Awaits (n + 1) := by
  obtain ⟨length, body, hbuffer, hcount⟩ := hawaits
  have hbody : (body ++ [b]).length = body.length + 1 := List.length_append
  rw [receive_of_buffer hbuffer, if_pos (by omega)]
  exact ⟨_, rfl, ⟨hplain.deafResets_eq, hplain.replies_eq⟩, length, body ++ [b], rfl, by omega⟩

theorem execute_eq (hplain : f.Plain) (payload : List UInt8) (checksum : UInt8) :
    ∃ reply f', f.execute payload checksum = (reply, f') ∧ reply.length = 3 ∧
      reply ≠ Badge.resetAcknowledgement ∧ f'.Plain ∧ f'.buffer = [] := by
  unfold execute
  by_cases hsum : Frame.checksum payload = checksum
  · rw [if_neg (fun h => h hsum), hplain.replies_eq]
    exact ⟨_, _, rfl, rfl, by decide, ⟨hplain.deafResets_eq, rfl⟩, rfl⟩
  · rw [if_pos hsum]
    exact ⟨_, _, rfl, rfl, by decide, ⟨hplain.deafResets_eq, hplain.replies_eq⟩, rfl⟩

/-- The reply to a frame is as long as an acknowledgement, but it is none. -/
theorem receive_last (hplain : f.Plain) (hawaits : f.Awaits 1) (b : UInt8) :
    ∃ reply f', f.receive b = (reply, f') ∧ reply.length = 3 ∧
      reply ≠ Badge.resetAcknowledgement ∧ f'.Plain ∧ f'.Awaits 0 := by
  obtain ⟨length, body, hbuffer, hcount⟩ := hawaits
  have hcount : body.length = length.toNat := hcount
  have hbody : (body ++ [b]).length = body.length + 1 := List.length_append
  rw [receive_of_buffer hbuffer, if_neg (by omega)]
  exact execute_eq hplain _ _

theorem receive_request (hplain : f.Plain) (hidle : f.Awaits 0) :
    ∃ f', f.receive 0 = (Badge.resetAcknowledgement, f') ∧ f'.Plain ∧ f'.Awaits 0 :=
  ⟨_, receive_zero hplain.deafResets_eq hidle, ⟨hplain.deafResets_eq, hplain.replies_eq⟩, hidle⟩

/-! ## Parts of frames -/

theorem feeds_more (hplain : f.Plain) {data : List UInt8} (hawaits : f.Awaits (data.length + n + 1)) :
    ∃ f', Feeds responder data f [] f' ∧ f'.Plain ∧ f'.Awaits (n + 1) := by
  obtain ⟨length, body, hbuffer, hcount⟩ := hawaits
  refine ⟨_, feeds_body hbuffer (by omega), ⟨hplain.deafResets_eq, hplain.replies_eq⟩, length,
    body ++ data, rfl, ?_⟩
  rw [List.length_append]
  omega

/-- What a badge awaits after the first `k` bytes of the frame of a payload. -/
def missing (payload : List UInt8) (k : Nat) : Nat :=
  if k = 0 then 0 else payload.length + 2 - k

theorem feeds_part (hplain : f.Plain) (hidle : f.Awaits 0) {payload frame : List UInt8}
    (hframe : Frame.encode payload = .ok frame) {k : Nat} (hk : k < frame.length) :
    ∃ f', Feeds responder (frame.take k) f [] f' ∧ f'.Plain ∧ f'.Awaits (missing payload k) := by
  obtain ⟨hpos, hmax, rfl⟩ := Frame.encode_eq_ok_iff.1 hframe
  cases k with
  | zero => exact ⟨f, .nil f, hplain, hidle⟩
  | succ k =>
    have hsize := Frame.toNat_count hmax
    have hlength : UInt8.ofNat payload.length ≠ 0 := by
      intro h
      rw [h] at hsize
      exact absurd hsize.symm (Nat.ne_of_gt hpos)
    obtain ⟨f', hreceive, hplain', hawaits'⟩ := receive_length hplain hidle hlength
    have hfirst : responder (UInt8.ofNat payload.length) f = (.ok [], f') :=
      responder_eq_ok_iff.2 hreceive
    have hbody : (payload ++ [Frame.checksum payload]).length = payload.length + 1 :=
      List.length_append
    have hk : k < payload.length + 1 := hbody ▸ Nat.lt_of_succ_lt_succ hk
    have htake : ((payload ++ [Frame.checksum payload]).take k).length = k := by
      rw [List.length_take, hbody]
      omega
    have hmissing : missing payload (k + 1) = payload.length - k + 1 := by
      rw [missing, if_neg (Nat.succ_ne_zero k)]
      omega
    have hcount : (UInt8.ofNat payload.length).toNat + 1 =
        ((payload ++ [Frame.checksum payload]).take k).length + (payload.length - k) + 1 := by
      omega
    obtain ⟨f'', hfeeds, hplain'', hawaits''⟩ := feeds_more hplain' (hcount ▸ hawaits')
    exact ⟨f'', .cons_silent hfirst hfeeds, hplain'', hmissing ▸ hawaits''⟩

end Firmware

namespace Badge

variable {b : Badge} {pace : Pace} {f : Firmware} {number : Nat}

/-! ## Requests -/

section Requests

variable (hpatience : b.channel.patience = 0x4000000000000000)
  (htick : 0 < pace.tick b.channel.options)

include hpatience

theorem runs_sendRequest {queue reply : List UInt8} {f' : Firmware}
    (h : f.receive 0 = (reply, f')) :
    Runs (Wire.port Firmware.responder) pace (b.channel.send [Frame.resetRequest]) (onWire f queue)
      fun _ w => w = onWire f' (queue ++ reply) := by
  have hpos : 0 < b.channel.patience := hpatience ▸ Nat.succ_pos _
  have hresponder : Firmware.responder Frame.resetRequest f = (.ok reply, f') :=
    Firmware.responder_eq_ok_iff.2 h
  have hfeeds := Feeds.cons hresponder (.nil f')
  rw [List.append_nil] at hfeeds
  exact runs_send hpos hfeeds

/-- A request takes the first three bytes that wait after it for the answer, and if these are no
acknowledgement, it discards what waits behind them. -/
theorem runs_requestReset_of_reply {queue reply answer rest : List UInt8} {f' : Firmware}
    (h : f.receive 0 = (reply, f')) (hqueue : queue ++ reply = answer ++ rest)
    (hlength : answer.length = 3) :
    Runs (Wire.port Firmware.responder) pace (b.requestReset number) (onWire f queue)
      fun r w => r = decide (answer = resetAcknowledgement) ∧
        w = onWire f' (if answer = resetAcknowledgement then rest
          else rest.drop Channel.maxDrain) := by
  have hpos : 0 < b.channel.patience := hpatience ▸ Nat.succ_pos _
  have hreceived : Runs (Wire.port Firmware.responder) pace
      (b.channel.receiveWithin resetAcknowledgement.length b.resetInterval)
      (onWire f' (answer ++ rest)) fun data w => data = answer ∧ w = onWire f' rest :=
    runs_receiveWithin hpos hlength (by decide) b.resetInterval
  refine (runs_sendRequest hpatience h).bind ?_
  rintro _ _ rfl
  rw [hqueue]
  refine (runs_pause b.resetInterval).bind ?_
  rintro _ _ rfl
  refine hreceived.attempt.bind ?_
  rintro _ _ ⟨data, rfl, rfl, rfl⟩
  by_cases hack : data = resetAcknowledgement
  · subst hack
    exact runs_note_bind (runs_ok ⟨rfl, rfl⟩)
  · dsimp only
    rw [if_neg hack, if_neg hack]
    refine runs_note_bind (runs_drain.discard.bind ?_)
    rintro _ _ ⟨_, rfl⟩
    exact runs_ok ⟨(decide_eq_false hack).symm, rfl⟩

include htick

/-- A request after which fewer bytes wait than an acknowledgement has takes these and is not
acknowledged. -/
theorem runs_requestReset_of_short {queue reply : List UInt8} {f' : Firmware}
    (h : f.receive 0 = (reply, f')) (hshort : (queue ++ reply).length < 3) :
    Runs (Wire.port Firmware.responder) pace (b.requestReset number) (onWire f queue)
      fun r w => r = false ∧ w = onWire f' [] := by
  have hfails : Fails (Wire.port Firmware.responder) pace
      (b.channel.receiveWithin resetAcknowledgement.length b.resetInterval)
      (onWire f' (queue ++ reply))
      (.timeout b.resetInterval resetAcknowledgement.length (queue ++ reply).length)
      fun w => w = onWire f' [] :=
    (queued_onWire f').fails_receiveWithin hpatience htick hshort (by decide) b.resetInterval rfl
  refine (runs_sendRequest hpatience h).bind ?_
  rintro _ _ rfl
  refine (runs_pause b.resetInterval).bind ?_
  rintro _ _ rfl
  refine hfails.attempt.bind ?_
  rintro _ _ ⟨rfl, rfl⟩
  refine runs_drain.discard.bind ?_
  rintro _ _ ⟨_, rfl⟩
  exact runs_ok ⟨rfl, rfl⟩

/-- A request to a badge that awaits more of a frame is one byte of it. -/
theorem runs_requestReset {n : Nat} (hplain : f.Plain) (hawaits : f.Awaits (n + 1)) :
    Runs (Wire.port Firmware.responder) pace (b.requestReset number) (onWire f [])
      fun r w => r = false ∧ ∃ f', w = onWire f' [] ∧ f'.Plain ∧ f'.Awaits n := by
  cases n with
  | zero =>
    obtain ⟨reply, f', hreceive, hlength, hack, hplain', hawaits'⟩ :=
      Firmware.receive_last hplain hawaits 0
    have hqueue : [] ++ reply = reply ++ [] := (List.append_nil reply).symm
    refine (runs_requestReset_of_reply hpatience hreceive hqueue hlength).mono ?_
    rintro _ _ ⟨rfl, rfl⟩
    exact ⟨decide_eq_false hack, f', by rw [if_neg hack, List.drop_nil], hplain', hawaits'⟩
  | succ n =>
    obtain ⟨f', hreceive, hplain', hawaits'⟩ := Firmware.receive_more hplain hawaits 0
    have hsilent : ([] ++ [] : List UInt8).length < 3 := by decide
    refine (runs_requestReset_of_short hpatience htick hreceive hsilent).mono ?_
    rintro _ _ ⟨rfl, rfl⟩
    exact ⟨rfl, f', rfl, hplain', hawaits'⟩

/-! ## Series of requests -/

theorem runs_requestResets (number : Nat) {n left : Nat} (hplain : f.Plain) (hawaits : f.Awaits n)
    (hleft : n < left) :
    Runs (Wire.port Firmware.responder) pace (b.requestResets left number) (onWire f [])
      fun _ w => ∃ f', w = onWire f' [] ∧ f'.buffer = [] := by
  induction left generalizing n f number with
  | zero => exact absurd hleft (Nat.not_lt_zero n)
  | succ left ih =>
    cases n with
    | zero =>
      obtain ⟨f', hreceive, -, hidle⟩ := Firmware.receive_request hplain hawaits
      have hqueue : [] ++ resetAcknowledgement = resetAcknowledgement ++ [] := rfl
      refine (runs_requestReset_of_reply hpatience hreceive hqueue rfl).bind ?_
      rintro _ _ ⟨rfl, rfl⟩
      exact runs_ok ⟨f', rfl, hidle⟩
    | succ n =>
      refine (runs_requestReset hpatience htick hplain hawaits).bind ?_
      rintro _ _ ⟨rfl, f', rfl, hplain', hawaits'⟩
      exact ih _ hplain' hawaits' (Nat.lt_of_succ_lt_succ hleft)

/-- As many requests as there are bytes missing complete the frame, and no more. -/
theorem fails_requestResets (number : Nat) {left : Nat} (hplain : f.Plain) (hawaits : f.Awaits left) :
    Fails (Wire.port Firmware.responder) pace (b.requestResets left number) (onWire f [])
      (.resetTimeout resetAttempts) fun w => ∃ f', w = onWire f' [] ∧ f'.buffer = [] := by
  induction left generalizing f number with
  | zero => exact fails_note_bind (fails_error ⟨f, rfl, hawaits⟩)
  | succ left ih =>
    refine (runs_requestReset hpatience htick hplain hawaits).bind_fails ?_
    rintro _ _ ⟨rfl, f', rfl, hplain', hawaits'⟩
    exact ih _ hplain' hawaits'

end Requests

/-! ## Resets -/

/-- After any part of a frame that is not the whole of it, to which a badge replies nothing, a reset
ends with an acknowledgement, unless the badge has the length byte alone of a frame of the largest
size: then the 256 requests are just enough to complete that frame, and the reset fails. In both
cases the badge is left between two frames. -/
theorem reset_of_interrupted (options : Options) (resetInterval : UInt32) {pace : Pace}
    (htick : 0 < pace.tick options) {f f' : Firmware} (hplain : f.Plain) (hidle : f.buffer = [])
    {payload frame : List UInt8} (hframe : Frame.encode payload = .ok frame) {k : Nat}
    (hk : k < frame.length) {reply : List UInt8}
    (hpart : Feeds Firmware.responder (frame.take k) f reply f') (clock : Nat) (t : Transcript) :
    reply = [] ∧ ∃ f'' clock' t',
      (Badge.mk { options } resetInterval).reset.run (device (Wire.port Firmware.responder) pace)
          ⟨{ device := f' }, clock, t⟩ =
        (if payload.length = 255 ∧ k = 1 then .error (.resetTimeout 256) else .ok (),
          ⟨{ device := f'' }, clock', t'⟩) ∧
      f''.buffer = [] := by
  obtain ⟨g, hfeeds, hplain', hawaits⟩ := Firmware.feeds_part hplain hidle hframe hk
  obtain ⟨rfl, rfl⟩ := hfeeds.unique hpart
  obtain ⟨-, hmax, -⟩ := Frame.encode_eq_ok_iff.1 hframe
  refine ⟨rfl, ?_⟩
  by_cases hlongest : payload.length = 255 ∧ k = 1
  · have hmissing : Firmware.missing payload k = 256 := by
      rw [Firmware.missing, hlongest.1, hlongest.2]
      rfl
    rw [hmissing] at hawaits
    obtain ⟨_, clock', t', hrun, f'', rfl, hbuffer⟩ :=
      fails_requestResets (b := ⟨{ options }, resetInterval⟩) rfl htick 1 hplain' hawaits clock t
    refine ⟨f'', clock', t', ?_, hbuffer⟩
    rw [if_pos hlongest]
    exact hrun
  · have hmissing : Firmware.missing payload k < 256 := by
      unfold Firmware.missing
      split <;> omega
    obtain ⟨_, _, clock', t', hrun, f'', rfl, hbuffer⟩ :=
      runs_requestResets (b := ⟨{ options }, resetInterval⟩) rfl htick 1 hplain' hawaits hmissing
        clock t
    refine ⟨f'', clock', t', ?_, hbuffer⟩
    rw [if_neg hlongest]
    exact hrun

/-- A badge that got the first three bytes of a command to clear the display. -/
theorem reset_of_interrupted_clear :
    Frame.encode [6, 0] = .ok [2, 6, 0, 6] ∧
    ∃ f'' clock' t',
      (Badge.mk { options := Wire.options } 1).reset.run
          (device (Wire.port Firmware.responder) .simulated)
          ⟨{ device := { buffer := [2, 6, 0] } }, 0, {}⟩ =
        (.ok (), ⟨{ device := f'' }, clock', t'⟩) ∧
      f''.buffer = [] := by
  have hframe : Frame.encode [6, 0] = .ok [2, 6, 0, 6] := rfl
  have hpart : Feeds Firmware.responder [2, 6, 0] {} [] { buffer := [2, 6, 0] } :=
    .cons_silent rfl (.cons_silent rfl (.cons_silent rfl (.nil _)))
  exact ⟨hframe, (reset_of_interrupted Wire.options 1 (by decide) ⟨rfl, rfl⟩ rfl hframe (k := 3)
    (by decide) hpart 0 {}).2⟩

/-- A badge that got the length byte of a frame of the largest size is not recovered. -/
theorem reset_fails_after_length :
    ∃ frame, Frame.encode (List.replicate 255 1) = .ok frame ∧ frame.take 1 = [255] ∧
    Feeds Firmware.responder [255] {} [] { buffer := [255] } ∧
    ∃ b, (Badge.mk { options := Wire.options } 100).reset.run
        (device (Wire.port Firmware.responder) .simulated)
        ⟨{ device := { buffer := [255] } }, 0, {}⟩ = (.error (.resetTimeout 256), b) := by
  have hawaits : Firmware.Awaits { buffer := [255] } 256 := ⟨255, [], rfl, rfl⟩
  have htick : 0 < Pace.simulated.tick Wire.options := by decide
  obtain ⟨_, clock', t', hrun, -⟩ :=
    fails_requestResets (b := ⟨{ options := Wire.options }, 100⟩) rfl htick 1 ⟨rfl, rfl⟩ hawaits 0 {}
  have hlength : (List.replicate 255 (1 : UInt8)).length = 255 := List.length_replicate
  have hpos : 0 < (List.replicate 255 (1 : UInt8)).length := by
    rw [hlength]
    decide
  have hfirst : UInt8.ofNat (List.replicate 255 (1 : UInt8)).length = 255 := by
    rw [hlength]
    decide
  refine ⟨_, Frame.encode_eq_ok_iff.2 ⟨hpos, Nat.le_of_eq hlength, rfl⟩, ?_,
    .cons_silent rfl (.nil _), _, hrun⟩
  rw [hfirst]
  rfl

end Badge

end BadgeLink
