import BadgeLink.Badge.Client
import BadgeLink.Bench.Firmware
import BadgeLink.Proofs.Bench.Run
import BadgeLink.Proofs.Frame.Codec
import Mathlib.Data.List.GetD

/-!
# Frames at a simulated badge

A badge between two frames that is fed the frame of a payload records the payload and sends the next
of its replies. It says nothing before the frame is complete, and keeps nothing of it afterwards.

* `feeds_body`: a frame that is not complete yet is kept and not answered.
* `feeds_begun_frame`: a whole frame is answered at its last byte.
* `feeds_frame`: what a whole frame does.
-/

namespace BadgeLink.Firmware

open Bench

/-- The payload of the next reply. -/
def nextReply (f : Firmware) : List UInt8 :=
  f.replies.headD [ResponseKind.ok.code]

/-- A badge after a command: the command is recorded, and a reply is used up. -/
def record (f : Firmware) (payload : List UInt8) : Firmware :=
  { f with commands := payload :: f.commands, replies := f.replies.tail }

variable {f f' : Firmware}

theorem responder_eq_ok_iff {b : UInt8} {reply : List UInt8} :
    responder b f = (.ok reply, f') ↔ f.receive b = (reply, f') := by
  unfold responder
  simp only [Prod.ext_iff, Except.ok.injEq]

/-- Between two frames a zero byte is a request to reset. -/
theorem receive_zero (hhears : f.deafResets = 0) (hidle : f.buffer = []) :
    f.receive 0 = (Badge.resetAcknowledgement, { f with resets := f.resets + 1 }) := by
  obtain ⟨commands, replies, deafResets, resets, buffer⟩ := f
  cases hhears
  cases hidle
  rfl

theorem receive_of_buffer {length : UInt8} {body : List UInt8} (h : f.buffer = length :: body)
    (b : UInt8) :
    f.receive b =
      if (body ++ [b]).length < length.toNat + 1 then
        ([], { f with buffer := length :: (body ++ [b]) })
      else f.execute ((body ++ [b]).take length.toNat) ((body ++ [b]).getD length.toNat 0) := by
  unfold receive
  rw [h, List.cons_append]
  split
  · next heq => simp at heq
  · next heq => simp at heq
  · next heq =>
    obtain ⟨rfl, rfl⟩ := List.cons.inj heq
    rfl

/-- Any first byte but zero is the length of a frame. -/
theorem receive_first (hidle : f.buffer = []) {b : UInt8} (hb : b ≠ 0) :
    f.receive b = ([], { f with buffer := [b] }) := by
  have hpos : 0 < b.toNat := Nat.pos_of_ne_zero fun h => hb (UInt8.toNat_inj.1 h)
  unfold receive
  rw [hidle]
  split
  · next heq => exact absurd (List.cons.inj heq).1 hb
  · next heq => cases heq
  · next heq =>
    obtain ⟨rfl, rfl⟩ := List.cons.inj heq
    exact if_pos (Nat.lt_succ_of_lt hpos)

/-- While bytes of the payload or its checksum are missing, a badge collects them. -/
theorem feeds_body {length : UInt8} {body data : List UInt8} (hbuffer : f.buffer = length :: body)
    (hmissing : body.length + data.length ≤ length.toNat) :
    Feeds responder data f [] { f with buffer := length :: (body ++ data) } := by
  induction data generalizing f body with
  | nil =>
    rw [List.append_nil, ← hbuffer]
    exact .nil f
  | cons b data ih =>
    have hbody : (body ++ [b]).length = body.length + 1 := List.length_append
    rw [List.length_cons] at hmissing
    have hreceive : f.receive b = ([], { f with buffer := length :: (body ++ [b]) }) := by
      rw [receive_of_buffer hbuffer, if_pos (by omega)]
    have hrest := ih (f := { f with buffer := length :: (body ++ [b]) }) rfl (by omega)
    rw [List.append_assoc] at hrest
    exact .cons_silent (responder_eq_ok_iff.2 hreceive) hrest

theorem execute_of_parity (payload : List UInt8) :
    f.execute payload (Frame.parity payload) =
      (frame f.nextReply, { f.record payload with buffer := [] }) := by
  unfold execute
  rw [if_neg (fun h => h (Frame.checksum_eq_parity payload))]
  unfold nextReply record
  cases f.replies <;> rfl

/-- A badge between two frames records the command that a frame carries. It answers with its next
reply at the last byte, and says nothing before. -/
theorem feeds_begun_frame (hidle : f.buffer = []) {payload bytes : List UInt8}
    (hframe : Frame.Frames payload bytes) :
    ∃ begun last g, bytes = begun ++ [last] ∧ Feeds responder begun f [] g ∧
      g.receive last = (frame f.nextReply, f.record payload) := by
  obtain ⟨count, hcount, hsome, rfl⟩ := hframe
  have hne : count ≠ 0 := by
    rintro rfl
    exact hsome (List.eq_nil_of_length_eq_zero hcount.symm)
  have hfirst : responder count f = (.ok [], { f with buffer := [count] }) :=
    responder_eq_ok_iff.2 (receive_first hidle hne)
  have hbody : Feeds responder payload { f with buffer := [count] } []
      { f with buffer := count :: ([] ++ payload) } :=
    feeds_body rfl (by simp [hcount])
  -- what the last byte completes is carried out with the buffer emptied, as it was before
  have hbuffer : ({ f.record payload with buffer := [] } : Firmware) = f.record payload := by
    unfold record
    rw [← hidle]
  refine ⟨count :: payload, Frame.parity payload, { f with buffer := count :: payload }, rfl,
    .cons_silent hfirst hbody, ?_⟩
  have hlength : (payload ++ [Frame.parity payload]).length = payload.length + 1 :=
    List.length_append
  rw [receive_of_buffer rfl, if_neg (by omega), hcount, List.take_left' rfl,
    List.getD_append_right _ _ _ _ (Nat.le_refl _), Nat.sub_self, List.getD_cons_zero,
    execute_of_parity]
  exact congrArg (Prod.mk _) hbuffer

theorem feeds_frame (hidle : f.buffer = []) {payload bytes : List UInt8}
    (hframe : Frame.Frames payload bytes) :
    Feeds responder bytes f (frame f.nextReply) (f.record payload) := by
  obtain ⟨begun, last, g, rfl, hbegun, hlast⟩ := feeds_begun_frame hidle hframe
  have hwhole := hbegun.append (.cons (responder_eq_ok_iff.2 hlast) (.nil _))
  rw [List.nil_append, List.append_nil] at hwhole
  exact hwhole

end BadgeLink.Firmware
