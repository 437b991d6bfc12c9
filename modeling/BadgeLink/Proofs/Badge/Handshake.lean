import BadgeLink.Proofs.Badge.Reset
import BadgeLink.Proofs.Badge.Wire
import BadgeLink.Proofs.Bench.Transcript

/-!
# How many requests a reset needs

A request is one byte to the badge, and it counts as acknowledged if the first three bytes that wait
after it are the acknowledgement. If they are not, all that waits is discarded, the acknowledgement
of this very request included. So a reset needs one request for each that the badge does not hear,
one for bytes that wait in front, and one that is heard on an empty wire; the badge may be deaf to
the one that clears the wire.

* `transmits_requestReset`: one request, whatever waits and whatever the badge replies.
* `run_requestResets`: a series of requests on an empty wire.
* `attempts_of_reset`: how a reset ends, and after how many requests.
-/

namespace BadgeLink

open Dialogue Bench

namespace Firmware

/-- A badge between two frames after so many reset requests. -/
def requested (f : Firmware) (n : Nat) : Firmware :=
  { f with deafResets := f.deafResets - n, resets := f.resets + n }

variable {f : Firmware}

theorem requested_zero (f : Firmware) : f.requested 0 = f :=
  rfl

theorem requested_requested (f : Firmware) (m n : Nat) :
    (f.requested m).requested n = f.requested (m + n) := by
  simp only [requested, Nat.sub_sub, Nat.add_assoc]

theorem requested_one_of_hears (hhears : f.deafResets = 0) :
    f.requested 1 = { f with resets := f.resets + 1 } := by
  simp [requested, hhears]

/-- Between two frames a request is counted, and acknowledged by a badge that hears it. -/
theorem receive_zero_of_idle (hidle : f.buffer = []) :
    f.receive 0 =
      (if f.deafResets = 0 then Badge.resetAcknowledgement else [], f.requested 1) := by
  obtain ⟨commands, replies, deafResets, resets, buffer⟩ := f
  cases hidle
  cases deafResets <;> rfl

end Firmware

namespace Badge

variable {b : Badge} {pace : Pace} {f : Firmware}

/-! ## One request -/

section Requests

variable (hpatience : b.channel.patience = 0x4000000000000000)
  (htick : 0 < pace.tick b.channel.options)

include hpatience htick

/-- A request is acknowledged if what waits after it begins with the acknowledgement, and only that
is taken then. Otherwise what waits is discarded behind the first three bytes. -/
theorem transmits_requestReset (number : Nat) {queue waiting reply : List UInt8} {f' : Firmware}
    (h : f.receive 0 = (reply, f')) (hwaiting : queue ++ reply = waiting) :
    Transmits (Wire.port Firmware.responder) pace (b.requestReset number) (onWire f queue)
      (decide (waiting.take 3 = resetAcknowledgement)) [0]
      (onWire f' (if waiting.take 3 = resetAcknowledgement then waiting.drop 3
        else waiting.drop (3 + Channel.maxDrain))) := by
  have hsent : Link.Ensures (b.requestReset number) (fun ss _ => Link.sentBytes ss = [0])
      fun ss _ => Requested 1 ss :=
    (b.ensures_requestReset number).mono (fun _ _ h => h.1) fun _ _ h => h
  subst hwaiting
  by_cases hshort : (queue ++ reply).length < 3
  · have hne : (queue ++ reply).take 3 ≠ resetAcknowledgement := by
      intro heq
      have hlength : ((queue ++ reply).take 3).length = 3 := congrArg List.length heq
      exact absurd (hlength ▸ List.length_take_le' 3 _) (Nat.not_le.2 hshort)
    have hnothing : (queue ++ reply).drop (3 + Channel.maxDrain) = [] :=
      List.drop_eq_nil_of_le (by omega)
    rw [if_neg hne, decide_eq_false hne, hnothing]
    exact (runs_requestReset_of_short hpatience htick h hshort).transmits hsent
  · have hlength : ((queue ++ reply).take 3).length = 3 := by
      rw [List.length_take]
      omega
    rw [← List.drop_drop]
    exact (runs_requestReset_of_reply hpatience h (List.take_append_drop 3 _).symm
      hlength).transmits hsent

/-- A request to a badge between two frames, on a wire on which nothing waits that could be taken
for an acknowledgement: it is acknowledged if the badge hears it and nothing waits, and in any case
nothing waits afterwards. -/
theorem transmits_requestReset_of_idle (number : Nat) (hidle : f.buffer = []) {stale : List UInt8}
    (hstale : stale.length ≤ Channel.maxDrain) (hhead : stale.head? ≠ some 1) :
    Transmits (Wire.port Firmware.responder) pace (b.requestReset number) (onWire f stale)
      (decide (f.deafResets = 0 ∧ stale = [])) [0] (onWire (f.requested 1) []) := by
  have hrequest := transmits_requestReset hpatience htick number
    (Firmware.receive_zero_of_idle hidle) (rfl : stale ++ _ = _)
  cases stale with
  | nil =>
    by_cases hhears : f.deafResets = 0
    · rw [if_pos hhears] at hrequest
      rw [decide_eq_true ⟨hhears, rfl⟩]
      exact hrequest
    · rw [if_neg hhears] at hrequest
      rw [decide_eq_false fun h => hhears h.1]
      exact hrequest
  | cons x rest =>
    have hne : ((x :: rest) ++ if f.deafResets = 0 then resetAcknowledgement else []).take 3 ≠
        resetAcknowledgement := by
      intro heq
      exact hhead (congrArg some (List.cons.inj heq).1)
    have hnothing : ((x :: rest) ++ if f.deafResets = 0 then resetAcknowledgement else []).drop
        (3 + Channel.maxDrain) = [] := by
      have hthree : resetAcknowledgement.length = 3 := rfl
      refine List.drop_eq_nil_of_le ?_
      rw [List.length_append]
      split
      · omega
      · exact Nat.le_add_left_of_le hstale
    rw [if_neg hne, decide_eq_false hne, hnothing] at hrequest
    rw [decide_eq_false fun h => List.cons_ne_nil x rest h.2]
    exact hrequest

/-! ## Series of requests -/

omit hpatience htick in
/-- A series goes on after a request that was not acknowledged. -/
theorem run_requestResets_succ {σ : Type} {d : Device Link.interface σ} {s s' : σ} {number : Nat}
    {acknowledged : Bool} (h : (b.requestReset number).run d s = (.ok acknowledged, s'))
    (left : Nat) :
    (b.requestResets (left + 1) number).run d s =
      if acknowledged then (.ok (), s') else (b.requestResets left (number + 1)).run d s' := by
  rw [requestResets, bind_eq, run_bind, h]
  cases acknowledged <;> rfl

/-- A series of requests on an empty wire: it is acknowledged if it is longer than the badge is
deaf, and ends with the request that is. -/
theorem run_requestResets (left number : Nat) (hidle : f.buffer = []) (clock : Nat)
    (t : Transcript) :
    ∃ clock' t', (b.requestResets left number).run (device (Wire.port Firmware.responder) pace)
        ⟨onWire f [], clock, t⟩ =
      (if f.deafResets < left then .ok () else .error (.resetTimeout resetAttempts),
        ⟨onWire (f.requested (min left (f.deafResets + 1))) [], clock', t'⟩) ∧
      t'.accepted = List.replicate (min left (f.deafResets + 1)) 0 ++ t.accepted := by
  induction left generalizing f number clock t with
  | zero =>
    rw [if_neg (Nat.not_lt_zero _), Nat.zero_min, Firmware.requested_zero]
    exact ⟨clock, _, rfl, rfl⟩
  | succ left ih =>
    have hnothing : ([] : List UInt8).length ≤ Channel.maxDrain := Nat.zero_le _
    obtain ⟨clock₁, t₁, hrequest, hsent⟩ :=
      transmits_requestReset_of_idle hpatience htick number hidle hnothing nofun clock t
    rw [run_requestResets_succ hrequest]
    cases hdeaf : f.deafResets with
    | zero =>
      rw [if_pos (Nat.succ_pos left), Nat.zero_add, Nat.min_eq_right (Nat.le_add_left 1 left)]
      exact ⟨clock₁, t₁, rfl, hsent⟩
    | succ deaf =>
      obtain ⟨clock₂, t₂, hrest, hrestSent⟩ := ih (f := f.requested 1) (number + 1) hidle clock₁ t₁
      have hdeaf₁ : (f.requested 1).deafResets = deaf := by
        rw [Firmware.requested, hdeaf]
        rfl
      have hcount : 1 + min left (deaf + 1) = min (left + 1) (deaf + 1 + 1) := by omega
      rw [hdeaf₁, Firmware.requested_requested, hcount] at hrest
      rw [hdeaf₁, hsent] at hrestSent
      refine ⟨clock₂, t₂, ?_, ?_⟩
      · simp only [Nat.add_lt_add_iff_right]
        exact hrest
      · rw [hrestSent, ← hcount, Nat.add_comm 1, List.replicate_add, List.append_assoc]
        rfl

/-- The requests that a reset of a badge needs which is deaf to so many, on a wire on which these
bytes wait. -/
def needed (deaf : Nat) (stale : List UInt8) : Nat :=
  max (deaf + 1) (if stale = [] then 1 else 2)

theorem run_reset (hidle : f.buffer = []) {stale : List UInt8}
    (hstale : stale.length ≤ Channel.maxDrain) (hhead : stale.head? ≠ some 1) (clock : Nat)
    (t : Transcript) :
    ∃ clock' t', b.reset.run (device (Wire.port Firmware.responder) pace)
        ⟨onWire f stale, clock, t⟩ =
      (if needed f.deafResets stale ≤ 256 then .ok () else .error (.resetTimeout 256),
        ⟨onWire (f.requested (min (needed f.deafResets stale) 256)) [], clock', t'⟩) ∧
      t'.accepted = List.replicate (min (needed f.deafResets stale) 256) 0 ++ t.accepted := by
  by_cases hempty : stale = []
  · have hneeded : needed f.deafResets stale = f.deafResets + 1 := by
      rw [needed, if_pos hempty]
      omega
    obtain ⟨clock', t', hrun, hsent⟩ := run_requestResets hpatience htick 256 1 hidle clock t
    rw [hneeded, Nat.min_comm, hempty]
    exact ⟨clock', t', hrun, hsent⟩
  · -- the first request clears the wire, and uses up one that the badge is deaf to
    have hneeded : needed f.deafResets stale = (f.deafResets - 1 + 1) + 1 := by
      rw [needed, if_neg hempty]
      omega
    obtain ⟨clock₁, t₁, hrequest, hsent⟩ :=
      transmits_requestReset_of_idle hpatience htick 1 hidle hstale hhead clock t
    rw [decide_eq_false fun h => hempty h.2] at hrequest
    obtain ⟨clock', t', hrest, hrestSent⟩ :=
      run_requestResets hpatience htick (f := f.requested 1) 255 2 hidle clock₁ t₁
    have hcount : min (f.deafResets - 1 + 1 + 1) 256 = 1 + min 255 (f.deafResets - 1 + 1) := by
      omega
    have hrun : b.reset.run (device (Wire.port Firmware.responder) pace)
        ⟨onWire f stale, clock, t⟩ = _ := run_requestResets_succ hrequest 255
    rw [Firmware.requested_requested] at hrest
    rw [hrun, hneeded, hcount]
    refine ⟨clock', t', ?_, ?_⟩
    · have hlimit : f.deafResets - 1 + 1 + 1 ≤ 256 ↔ (f.requested 1).deafResets < 255 :=
        ⟨fun h => Nat.lt_of_succ_lt_succ h, fun h => Nat.succ_lt_succ h⟩
      simp only [hlimit]
      exact hrest
    · rw [hrestSent, hsent, Nat.add_comm 1, List.replicate_add, List.append_assoc]
      rfl

end Requests

/-! ## Resets -/

/-- A reset of a badge between two frames that is deaf to some requests, on a wire on which up to
4096 bytes wait of which the first is not taken for an acknowledgement. It needs one request more
than the badge is deaf, and two at least if anything waits. If 256 are enough, it ends with the last
of them; if not, it is given up after 256. The badge has counted the requests and is otherwise as it
was, and nothing waits on the wire; so another reset after one that succeeded needs one request. -/
theorem attempts_of_reset (options : Options) (resetInterval : UInt32) {pace : Pace}
    (htick : 0 < pace.tick options) {f : Firmware} (hidle : f.buffer = []) {stale : List UInt8}
    (hstale : stale.length ≤ 4096) (hhead : stale.head? ≠ some 1) (clock : Nat) (t : Transcript) :
    let badge : Badge := { channel := { options }, resetInterval }
    let d := device (Wire.port Firmware.responder) pace
    let n := max (f.deafResets + 1) (if stale = [] then 1 else 2)
    ∃ f' clock' t',
      badge.reset.run d ⟨{ device := f, queue := stale }, clock, t⟩ =
        (if n ≤ 256 then .ok () else .error (.resetTimeout 256), ⟨{ device := f' }, clock', t'⟩) ∧
      t'.accepted = List.replicate (min n 256) 0 ++ t.accepted ∧
      f'.resets = f.resets + min n 256 ∧ f'.commands = f.commands ∧ f'.buffer = [] ∧
      (n ≤ 256 → ∃ clock'' t'',
        badge.reset.run d ⟨{ device := f' }, clock', t'⟩ =
          (.ok (), ⟨{ device := { f' with resets := f'.resets + 1 } }, clock'', t''⟩) ∧
        t''.accepted = 0 :: t'.accepted) := by
  intro badge d n
  obtain ⟨clock', t', hrun, hsent⟩ :=
    run_reset (b := badge) rfl htick hidle hstale hhead clock t
  refine ⟨f.requested (min n 256), clock', t', hrun, hsent, rfl, rfl, hidle, fun henough => ?_⟩
  have hnothing : ([] : List UInt8).length ≤ Channel.maxDrain := Nat.zero_le _
  obtain ⟨clock'', t'', hagain, hagainSent⟩ :=
    run_reset (b := badge) (f := f.requested (min n 256)) rfl htick hidle hnothing nofun clock' t'
  have hdeaf : (f.requested (min n 256)).deafResets = 0 := by
    have hle : f.deafResets + 1 ≤ n := Nat.le_max_left _ _
    rw [Firmware.requested, Nat.min_eq_left henough]
    exact Nat.sub_eq_zero_of_le (Nat.le_of_succ_le hle)
  have hone : needed 0 [] = 1 := rfl
  rw [hdeaf, hone] at hagain hagainSent
  have hcounted : (f.requested (min n 256)).requested (min 1 256) = _ :=
    Firmware.requested_one_of_hears hdeaf
  rw [hcounted] at hagain
  exact ⟨clock'', t'', hagain, hagainSent⟩

/-- A badge that is deaf to two requests, on a wire on which two bytes of a late reply wait: the
first request discards these, and the third is acknowledged. -/
theorem attempts_of_deaf_reset :
    ([3, 9] : List UInt8).length ≤ 4096 ∧ ([3, 9] : List UInt8).head? ≠ some 1 ∧
    ∃ f' clock' t',
      (Badge.mk { options := Wire.options } 1).reset.run
          (device (Wire.port Firmware.responder) .simulated)
          ⟨{ device := { deafResets := 2 }, queue := [3, 9] }, 0, {}⟩ =
        (.ok (), ⟨{ device := f' }, clock', t'⟩) ∧
      t'.accepted = [0, 0, 0] ∧ f'.resets = 3 ∧ f'.commands = [] ∧ f'.buffer = [] := by
  have htick : 0 < Pace.simulated.tick Wire.options := by decide
  have hstale : ([3, 9] : List UInt8).length ≤ 4096 := by decide
  have hhead : ([3, 9] : List UInt8).head? ≠ some 1 := by decide
  obtain ⟨f', clock', t', hrun, hsent, hresets, hcommands, hbuffer, -⟩ :=
    attempts_of_reset Wire.options 1 htick (f := { deafResets := 2 }) rfl hstale hhead 0 {}
  exact ⟨hstale, hhead, f', clock', t', hrun, hsent, hresets, hcommands, hbuffer⟩

end Badge

end BadgeLink
