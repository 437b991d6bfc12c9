import BadgeLink.Badge.Client
import BadgeLink.Proofs.Bench.Firmware
import BadgeLink.Proofs.Bench.Silence
import BadgeLink.Proofs.Text.Hex

/-!
# Responses read from a stream

A client reads a response from the port in two pieces: the byte that says how long it is, and then
as many bytes as that. What it makes of the bytes that wait is what decoding makes of the frame that
they begin with, and the rest of them is left for the next response. If they end before that frame
does, the client waits for more, and is not told of a frame that is broken but that its time is up.

* `Frame.first` says what is read of a byte string that waits, and what is left of it.
* `concludes_response`: a response is read accordingly.
* `command_reads_first`: so is the response to a command.
-/

namespace BadgeLink

open Dialogue Bench

/-- What is read of the bytes that wait, when no more come, and what is left of them. -/
def Frame.first (timeout : UInt32) : List UInt8 → Except LinkError Response × List UInt8
  | [] => (.error (.timeout timeout 1 0), [])
  | count :: rest =>
    if count.toNat + 2 ≤ (count :: rest).length then
      (Frame.decode ((count :: rest).take (count.toNat + 2)),
        (count :: rest).drop (count.toNat + 2))
    else (.error (.timeout timeout (count.toNat + 1) rest.length), [])

theorem Frame.first_of_whole (timeout : UInt32) {count : UInt8} {body rest : List UInt8}
    (hbody : body.length = count.toNat + 1) :
    Frame.first timeout (count :: (body ++ rest)) = (Response.parse body, rest) := by
  have hwhole : count.toNat + 2 ≤ (count :: (body ++ rest)).length := by
    rw [List.length_cons, List.length_append]
    omega
  have htake : (count :: (body ++ rest)).take (count.toNat + 2) = count :: body := by
    rw [List.take_succ_cons, List.take_left' hbody]
  have hdrop : (count :: (body ++ rest)).drop (count.toNat + 2) = rest := by
    rw [List.drop_succ_cons, List.drop_left' hbody]
  rw [Frame.first, if_pos hwhole, htake, hdrop, Frame.decode, if_pos hbody]

theorem Frame.first_of_short (timeout : UInt32) {count : UInt8} {rest : List UInt8}
    (hshort : rest.length < count.toNat + 1) :
    Frame.first timeout (count :: rest) =
      (.error (.timeout timeout (count.toNat + 1) rest.length), []) :=
  if_neg (Nat.not_le.2 (Nat.succ_lt_succ hshort))

namespace Badge

variable {ρ α : Type} {port : SimulatedPort ρ} {P : List UInt8 → ρ → Prop} {pace : Pace} {b : Badge}
  {s : ρ}

/-- The data of an error that a badge reports are shown by lower-case digits that denote them. -/
theorem message_device (code : UInt8) (data : List UInt8) :
    ∃ ds, (LinkError.device code data).message = "response != OK: code = 0x" ++ Hex.byte code ++
      ", data = \"" ++ String.ofList ds ++ "\"" ∧ Hex.Denotes ds data := by
  refine ⟨_, ?_, Hex.denotes_digits data⟩
  unfold LinkError.message Hex.ofBytes
  rfl

theorem runs_receive_count (hport : Queued port P) (hpatience : 0 < b.channel.patience)
    {count : UInt8} {rest : List UInt8} (h : P (count :: rest) s) :
    Runs port pace (b.channel.receive 1) s fun got s₁ => got = [count] ∧ P rest s₁ :=
  hport.runs_receiveWithin hpatience (List.length_singleton : [count].length = 1) (by decide) _ h

theorem body_le_largestBuffer (count : UInt8) : count.toNat + 1 ≤ Size.largestBuffer := by
  have hlt := count.toNat_lt
  rw [Size.largestBuffer]
  omega

/-- The first byte says how many more are read. -/
theorem concludes_response_of_body (hport : Queued port P) (hpatience : 0 < b.channel.patience)
    {count : UInt8} {body rest : List UInt8} (hbody : body.length = count.toNat + 1)
    (h : P (count :: (body ++ rest)) s) :
    Concludes port pace b.response s (Response.parse body) (P rest) := by
  refine (runs_receive_count hport hpatience h).bind_concludes ?_
  rintro _ s₁ ⟨rfl, hs₁⟩
  have hsize := body_le_largestBuffer count
  refine (hport.runs_receiveWithin hpatience hbody hsize _ hs₁).bind_concludes ?_
  rintro _ s₂ ⟨rfl, hs₂⟩
  exact concludes_ofExcept _ hs₂

/-- What waits is read, and less than a frame of it is waited for until the time is up. -/
theorem concludes_response (hport : Queued port P)
    (hpatience : b.channel.patience = 0x4000000000000000) {queue : List UInt8}
    (hmoves : queue.length < (queue.headD 0).toNat + 2 → 0 < pace.tick b.channel.options)
    (h : P queue s) :
    Concludes port pace b.response s (Frame.first b.channel.options.responseTimeout queue).1
      (P (Frame.first b.channel.options.responseTimeout queue).2) := by
  cases queue with
  | nil =>
    have hhead : Fails port pace (b.channel.receive 1) s _ (P []) :=
      hport.fails_receiveWithin hpatience (hmoves (Nat.succ_pos _)) Nat.one_pos (by decide) _ h
    exact (hhead.bind _).concludes
  | cons count rest =>
    have hpos : 0 < b.channel.patience := hpatience ▸ Nat.succ_pos _
    rcases Nat.lt_or_ge rest.length (count.toNat + 1) with hshort | hwhole
    · have htick := hmoves (Nat.succ_lt_succ hshort)
      have hsize := body_le_largestBuffer count
      rw [Frame.first_of_short _ hshort]
      refine ((runs_receive_count hport hpos h).bind_fails ?_).concludes
      rintro _ s₁ ⟨rfl, hs₁⟩
      exact (hport.fails_receiveWithin hpatience htick hshort hsize _ hs₁).bind _
    · have hbody : (rest.take (count.toNat + 1)).length = count.toNat + 1 :=
        List.length_take_of_le hwhole
      rw [← List.take_append_drop (count.toNat + 1) rest] at h ⊢
      rw [Frame.first_of_whole _ hbody]
      exact concludes_response_of_body hport hpos hbody h

/-- A command ends with what its response says. -/
theorem concludes_command {kind : CommandKind} {arguments frame : List UInt8}
    {Q F : ρ → Prop} {x : Except LinkError Response}
    (hencode : Frame.encode (kind.code :: arguments) = .ok frame)
    (hsend : Runs port pace (b.channel.send frame) s fun _ s₁ => Q s₁)
    (hresponse : ∀ s₁, Q s₁ → Concludes port pace b.response s₁ x F) :
    Concludes port pace (b.command kind arguments) s (x >>= Response.ok) F := by
  unfold command
  dsimp only
  rw [hencode]
  refine concludes_note_bind (hsend.bind_concludes ?_)
  intro _ s₁ hs₁
  refine (hresponse s₁ hs₁).bind ?_
  intro r s₂ hs₂
  cases r.ok with
  | ok data => exact concludes_ofExcept (.ok data) hs₂
  | error e => exact concludes_note_bind (concludes_ofExcept (.error e) hs₂)

/-- The data of a response that reports success are decoded. -/
theorem ok_bind_decode (x : Except LinkError Response) (decode : List UInt8 → Except LinkError α) :
    x >>= Response.ok >>= decode =
      match x with
      | .ok r => if r.kind = 0x02 then decode r.data else .error (.device r.kind r.data)
      | .error e => .error e := by
  cases x with
  | error e => rfl
  | ok r =>
    show (if r.kind = 0x02 then _ else _) >>= decode = if _ then _ else _
    by_cases hkind : r.kind = 0x02
    · rw [if_pos hkind, if_pos hkind]
      rfl
    · rw [if_neg hkind, if_neg hkind]
      rfl

/-- When bytes wait on a port and no more come, reading a response gives what decoding gives of the
frame that they begin with, and leaves the rest of them. If there is less of them than a frame, it
takes them all and times out; the clock has to move for that. A command that is sent ends with what
its decoder makes of the response if this reports success, and otherwise with an error that tells
what the device reported. -/
theorem command_reads_first (hport : Queued port P) (options : Options) (resetInterval : UInt32)
    (pace : Pace) {queue : List UInt8}
    (hmoves : queue.length < (queue.headD 0).toNat + 2 → 0 < pace.tick options) :
    let b : Badge := ⟨{ options }, resetInterval⟩
    let read := Frame.first options.responseTimeout queue
    (∀ s, P queue s → Concludes port pace b.response s read.1 (P read.2)) ∧
    (∀ (kind : CommandKind) (arguments frame : List UInt8)
      (decode : List UInt8 → Except LinkError α) (s : ρ),
      Frame.encode (kind.code :: arguments) = .ok frame →
      Runs port pace (b.channel.send frame) s (fun _ s₁ => P queue s₁) →
      Concludes port pace ((b.command kind arguments).bind fun data =>
        Dialogue.ofExcept (decode data)) s
        (match read.1 with
          | .ok r => if r.kind = 0x02 then decode r.data else .error (.device r.kind r.data)
          | .error e => .error e)
        (P read.2)) ∧
    ∀ code data, ∃ ds, (LinkError.device code data).message = "response != OK: code = 0x" ++
      Hex.byte code ++ ", data = \"" ++ String.ofList ds ++ "\"" ∧ Hex.Denotes ds data := by
  intro b read
  have hresponse (s : ρ) (h : P queue s) : Concludes port pace b.response s read.1 (P read.2) :=
    concludes_response hport rfl hmoves h
  refine ⟨hresponse, ?_, message_device⟩
  intro kind arguments frame decode s hencode hsend
  rw [← ok_bind_decode]
  refine (concludes_command hencode hsend hresponse).bind ?_
  intro data s₁ hs₁
  exact concludes_ofExcept (decode data) hs₁

/-- An error that waits before the reply to a command is taken for the reply, which is left. -/
theorem command_of_late_error :
    ∃ clock t,
      (((Badge.mk { options := Wire.options } 1).command .led [0, 0, 1]).bind
          fun data => Dialogue.ofExcept (.ok data)).run
          (device (Wire.port Firmware.responder) .simulated)
          ⟨{ device := {}, queue := [2, 3, 0xab, 0xa8] }, 0, {}⟩ =
        (.error (.device 3 [0xab]),
          ⟨{ device := { commands := [[5, 0, 0, 1]] }, queue := [1, 2, 2] }, clock, t⟩) := by
  have hencode : Frame.encode [5, 0, 0, 1] = .ok [4, 5, 0, 0, 1, 4] := rfl
  have hsend : Runs (Wire.port Firmware.responder) .simulated
      (Channel.send { options := Wire.options } [4, 5, 0, 0, 1, 4])
      (onWire {} [2, 3, 0xab, 0xa8])
      fun _ w => w = onWire (Firmware.record {} [5, 0, 0, 1]) [2, 3, 0xab, 0xa8, 1, 2, 2] :=
    runs_send (Channel.patience_pos _)
      (Firmware.feeds_frame rfl (Frame.encode_eq_ok_iff_frames.1 hencode))
  obtain ⟨_, clock, t, hrun, rfl⟩ :=
    (command_reads_first (queued_onWire _) Wire.options 1 .simulated (fun _ => by decide)).2.1
      .led [0, 0, 1] _ .ok _ hencode hsend 0 {}
  exact ⟨clock, t, hrun⟩

end Badge

end BadgeLink
