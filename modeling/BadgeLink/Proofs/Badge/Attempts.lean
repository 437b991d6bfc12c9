import BadgeLink.Proofs.Badge.Wire
import BadgeLink.Proofs.Bench.Deadline
import BadgeLink.Proofs.Bench.Transcript
import BadgeLink.Proofs.Link.Conversation

/-!
# Attempts at a reset

A reset is a series of attempts, each of which sends one request. It goes on after an attempt for as
long as the request was sent but not acknowledged, whatever came back instead. It is over with the
first attempt whose request is acknowledged or cannot be sent, or else when as many attempts as are
allowed have failed.

* `Attempt` is the conversation of one attempt: `attempt_of_plays` says that there are no others,
  except those in which a receive does not end, and `Attempt.plays` that there are these.
* `Series` is the conversation of a series of attempts, with `series_of_plays` and `Series.plays`.
* `reset_outcome`: so with any device that lets every receive end, a reset is such a series.
-/

namespace BadgeLink.Badge

open Dialogue Link Channel

/-! ## Attempts -/

/-- The calls of the port that a request needs. -/
inductive RequestCall : (Acceptance → Exchange interface) → Prop where
  | write : RequestCall fun a => ⟨.write 0, a⟩
  | flush : RequestCall fun a => ⟨.flush, a⟩

/-- The conversation of the attempt with this number, and whether its request was acknowledged. -/
inductive Attempt (b : Badge) (number : Nat) :
    List (Exchange interface) → Outcome LinkError Bool → Prop where
  /-- The request was sent and flushed, and what was received is the acknowledgement. -/
  | acknowledged {sending receiving : List (Exchange interface)}
      (hsend : (b.channel.send [0]).Plays sending (.ok ()))
      (hreceive : (b.channel.receiveWithin 3 b.resetInterval).Plays receiving (.ok [1, 1, 1])) :
      Attempt b number (sending ++ ⟨.pause b.resetInterval, ()⟩ ::
        (receiving ++ [⟨.note (.resetAcknowledged number), ()⟩])) (.ok true)
  /-- The request was sent and flushed, and other bytes were received. What waited behind them was
  discarded, up to a limit. -/
  | wrong {sending receiving reads : List (Exchange interface)} {data discarded : List UInt8}
      (hsend : (b.channel.send [0]).Plays sending (.ok ()))
      (hreceive : (b.channel.receiveWithin 3 b.resetInterval).Plays receiving (.ok data))
      (hdata : data ≠ [1, 1, 1]) (hreads : Reads 4096 discarded reads) :
      Attempt b number (sending ++ ⟨.pause b.resetInterval, ()⟩ ::
        (receiving ++ ⟨.note (.unexpectedReset data), ()⟩ ::
          (reads ++ discardNotes discarded.length))) (.ok false)
  /-- The request was sent and flushed, and the time of the receive was up. What waited then was
  discarded, up to a limit. -/
  | late {sending receiving reads : List (Exchange interface)} {discarded : List UInt8}
      {received : Nat} (hsend : (b.channel.send [0]).Plays sending (.ok ()))
      (hreceive : (b.channel.receiveWithin 3 b.resetInterval).Plays receiving
        (.error (.timeout b.resetInterval 3 received)))
      (hreads : Reads 4096 discarded reads) :
      Attempt b number (sending ++ ⟨.pause b.resetInterval, ()⟩ ::
        (receiving ++ (reads ++ discardNotes discarded.length))) (.ok false)
  /-- A write or the flush of the request failed, and nothing was asked for after that. -/
  | failed {earlier : List (Exchange interface)} {call : Acceptance → Exchange interface}
      {f : PortFault} (hcall : RequestCall call)
      (hsend : (b.channel.send [0]).Plays (earlier ++ [call (.fault f)]) (.error (.port f))) :
      Attempt b number (earlier ++ [call (.fault f)]) (.error (.port f))
  /-- The port was busy with a write or with the flush as often as a wait may ask it. -/
  | busy {earlier : List (Exchange interface)} {call : Acceptance → Exchange interface}
      (hcall : RequestCall call)
      (hsend : (b.channel.send [0]).Plays
        (earlier ++ List.replicate b.channel.patience (call .busy)) (.crash .stalled)) :
      Attempt b number (earlier ++ List.replicate b.channel.patience (call .busy)) (.crash .stalled)

/-- At the end there is a receive that did not end. -/
def Unheard (b : Badge) (es : List (Exchange interface)) : Prop :=
  ∃ earlier receiving crash, es = earlier ++ receiving ∧
    (b.channel.receiveWithin 3 b.resetInterval).Plays receiving (.crash crash)

/-- What an attempt does without an acknowledgement. -/
def giveUp (b : Badge) : Link Bool := do
  discard b.channel.drain
  return false

/-- What an attempt makes of what was received. -/
def judge (b : Badge) (number : Nat) : Except LinkError (List UInt8) → Link Bool
  | .ok data =>
    if data = [1, 1, 1] then
      (Link.note (.resetAcknowledged number)).bind fun _ => done (.ok true)
    else (Link.note (.unexpectedReset data)).bind fun _ => b.giveUp
  | .error (.timeout ..) => b.giveUp
  | .error e => done (.error e)

variable {b : Badge} {number : Nat} {es : List (Exchange interface)}

theorem requestReset_eq :
    b.requestReset number = (b.channel.send [0]).bind fun _ =>
      (Link.pause b.resetInterval).bind fun _ =>
        (attempt (b.channel.receiveWithin 3 b.resetInterval)).bind (b.judge number) := by
  unfold requestReset
  refine congrArg (Dialogue.bind _) (funext fun _ => congrArg (Dialogue.bind _) (funext fun _ =>
    congrArg (Dialogue.bind _) (funext fun answer => ?_)))
  unfold judge
  rcases answer with e | data
  · cases e <;> rfl
  · rfl

theorem plays_giveUp_iff {o : Outcome LinkError Bool} :
    b.giveUp.Plays es o ↔ ∃ discarded reads, Reads 4096 discarded reads ∧
      es = reads ++ discardNotes discarded.length ∧ o = .ok false := by
  have hdiscard : b.giveUp = b.channel.drain.bind fun _ => done (.ok false) :=
    discard_bind b.channel.drain _
  rw [hdiscard]
  constructor
  · intro h
    rcases plays_bind_iff.1 h with ⟨_, es₁, _, rfl, hdrain, hrest⟩ | ⟨_, hdrain, -⟩ |
      ⟨_, hdrain, -⟩
    · obtain ⟨discarded, reads, hreads, rfl, -⟩ := plays_drain_iff.1 hdrain
      cases hrest
      exact ⟨discarded, reads, hreads, List.append_nil _, rfl⟩
    · obtain ⟨_, _, -, -, ho⟩ := plays_drain_iff.1 hdrain
      cases ho
    · obtain ⟨_, _, -, -, ho⟩ := plays_drain_iff.1 hdrain
      cases ho
  · rintro ⟨discarded, reads, hreads, rfl, rfl⟩
    exact plays_bind_iff.2 (.inl ⟨_, _, [], (List.append_nil _).symm,
      plays_drain_iff.2 ⟨discarded, reads, hreads, rfl, rfl⟩, .done _⟩)

/-- Where the request was not sent, that is the end of the attempt. -/
theorem attempt_of_unsent {o : Outcome LinkError Unit} (h : (b.channel.send [0]).Plays es o) :
    o = .ok () ∨ (∃ f, o = .error (.port f) ∧ b.Attempt number es (.error (.port f))) ∨
      o = .crash .stalled ∧ b.Attempt number es (.crash .stalled) := by
  obtain ⟨sending, rfl, hsending⟩ := plays_send h
  by_cases hok : o = .ok ()
  · exact .inl hok
  · obtain ⟨earlier, last, rfl, hlast⟩ := hsending.exists_last hok
    obtain ⟨call, hcall, hlast⟩ :
        ∃ call, RequestCall call ∧ Settling call b.channel.patience last o := by
      obtain ⟨byte, hbyte, hlast⟩ | hlast := hlast
      · obtain rfl := List.mem_singleton.1 hbyte
        exact ⟨_, .write, hlast⟩
      · exact ⟨_, .flush, hlast⟩
    cases hlast with
    | done _ => exact absurd rfl hok
    | @fault n _ f =>
      have hes : ⟨.note (.sending [0]), ()⟩ ::
            (earlier ++ (List.replicate n (call .busy) ++ [call (.fault f)])) =
          ⟨.note (.sending [0]), ()⟩ :: (earlier ++ List.replicate n (call .busy)) ++
            [call (.fault f)] := by
        rw [List.cons_append, List.append_assoc]
      rw [hes] at h ⊢
      exact .inr (.inl ⟨f, rfl, .failed hcall h⟩)
    | stalled =>
      rw [← List.cons_append] at h ⊢
      exact .inr (.inr ⟨rfl, .busy hcall h⟩)

/-- Where it was sent, the attempt is decided by what was received. -/
theorem attempt_of_judge {o : Outcome LinkError Bool}
    {sending receiving rest : List (Exchange interface)}
    (hsend : (b.channel.send [0]).Plays sending (.ok ())) {answer : Except LinkError (List UInt8)}
    (hanswer : (attempt (b.channel.receiveWithin 3 b.resetInterval)).Plays receiving
      (.ok answer : Outcome LinkError _))
    (h : (b.judge number answer).Plays rest o) :
    b.Attempt number (sending ++ ⟨.pause b.resetInterval, ()⟩ :: (receiving ++ rest)) o := by
  obtain ⟨data, hreceive, ⟨rfl⟩⟩ | ⟨e, hreceive, ⟨rfl⟩⟩ | ⟨_, -, hvalue⟩ :=
    plays_attempt_iff.1 hanswer
  · rw [judge] at h
    by_cases hdata : data = [1, 1, 1]
    · rw [if_pos hdata] at h
      obtain ⟨_, rfl, hend⟩ := plays_note_bind_iff.1 h
      cases hend
      subst hdata
      exact .acknowledged hsend hreceive
    · rw [if_neg hdata] at h
      obtain ⟨_, rfl, hend⟩ := plays_note_bind_iff.1 h
      obtain ⟨discarded, reads, hreads, rfl, rfl⟩ := plays_giveUp_iff.1 hend
      exact .wrong hsend hreceive hdata hreads
  · obtain ⟨received, rfl⟩ := plays_receiveWithin_error hreceive
    obtain ⟨discarded, reads, hreads, rfl, rfl⟩ := plays_giveUp_iff.1 h
    exact .late hsend hreceive hreads
  · cases hvalue

/-- Every conversation of an attempt, unless a receive in it does not end. -/
theorem attempt_of_plays {o : Outcome LinkError Bool} (h : (b.requestReset number).Plays es o) :
    b.Attempt number es o ∨ b.Unheard es ∧ ∃ crash, o = .crash crash := by
  rw [requestReset_eq] at h
  rcases plays_bind_iff.1 h with ⟨_, sending, _, rfl, hsend, hpause⟩ | ⟨e, hsend, rfl⟩ |
    ⟨crash, hsend, rfl⟩
  · obtain ⟨rest, rfl, hpaused⟩ := plays_pause_bind_iff.1 hpause
    rcases plays_bind_iff.1 hpaused with ⟨answer, receiving, rest, rfl, hanswer, hrest⟩ |
      ⟨e, hanswer, -⟩ | ⟨crash, hanswer, ho⟩
    · exact .inl (attempt_of_judge hsend hanswer hrest)
    · obtain ⟨_, -, hvalue⟩ | ⟨_, -, hvalue⟩ | ⟨_, -, hvalue⟩ := plays_attempt_iff.1 hanswer <;>
        cases hvalue
    · obtain ⟨_, -, hvalue⟩ | ⟨_, -, hvalue⟩ | ⟨crash, hreceive, -⟩ := plays_attempt_iff.1 hanswer
      · cases hvalue
      · cases hvalue
      · refine .inr ⟨⟨sending ++ [⟨.pause b.resetInterval, ()⟩], rest, crash, ?_, hreceive⟩, _, ho⟩
        rw [List.append_assoc]
        rfl
  · obtain ho | ⟨f, ⟨rfl⟩, hattempt⟩ | ⟨ho, -⟩ := attempt_of_unsent hsend
    · cases ho
    · exact .inl hattempt
    · cases ho
  · obtain ho | ⟨f, ho, -⟩ | ⟨⟨rfl⟩, hattempt⟩ := attempt_of_unsent hsend
    · cases ho
    · cases ho
    · exact .inl hattempt

theorem plays_of_judge {o : Outcome LinkError Bool}
    {sending receiving rest : List (Exchange interface)}
    (hsend : (b.channel.send [0]).Plays sending (.ok ())) {answer : Except LinkError (List UInt8)}
    (hanswer : (attempt (b.channel.receiveWithin 3 b.resetInterval)).Plays receiving
      (.ok answer : Outcome LinkError _))
    (h : (b.judge number answer).Plays rest o) :
    (b.requestReset number).Plays
      (sending ++ ⟨.pause b.resetInterval, ()⟩ :: (receiving ++ rest)) o := by
  rw [requestReset_eq]
  exact plays_bind_iff.2 (.inl ⟨_, _, _, rfl, hsend, plays_pause_bind_iff.2 ⟨_, rfl,
    plays_bind_iff.2 (.inl ⟨_, _, _, rfl, hanswer, h⟩)⟩⟩)

/-- An attempt has each of these conversations. -/
theorem Attempt.plays {o : Outcome LinkError Bool} (h : b.Attempt number es o) :
    (b.requestReset number).Plays es o := by
  cases h with
  | acknowledged hsend hreceive =>
    refine plays_of_judge hsend (plays_attempt_iff.2 (.inl ⟨_, hreceive, rfl⟩)) ?_
    exact plays_note_bind_iff.2 ⟨_, rfl, .done _⟩
  | wrong hsend hreceive hdata hreads =>
    refine plays_of_judge hsend (plays_attempt_iff.2 (.inl ⟨_, hreceive, rfl⟩)) ?_
    rw [judge, if_neg hdata]
    exact plays_note_bind_iff.2 ⟨_, rfl, plays_giveUp_iff.2 ⟨_, _, hreads, rfl, rfl⟩⟩
  | late hsend hreceive hreads =>
    refine plays_of_judge hsend (plays_attempt_iff.2 (.inr (.inl ⟨_, hreceive, rfl⟩))) ?_
    exact plays_giveUp_iff.2 ⟨_, _, hreads, rfl, rfl⟩
  | failed _ hsend =>
    rw [requestReset_eq]
    exact plays_bind_iff.2 (.inr (.inl ⟨_, hsend, rfl⟩))
  | busy _ hsend =>
    rw [requestReset_eq]
    exact plays_bind_iff.2 (.inr (.inr ⟨_, hsend, rfl⟩))

/-- An attempt sends its request or nothing, and it goes on only if it has sent it. -/
theorem Attempt.accepted {o : Outcome LinkError Bool} (h : b.Attempt number es o) :
    ∃ k ≤ 1, accepted es = List.replicate k 0 ∧ ∀ acknowledged, o = .ok acknowledged → k = 1 := by
  have hends := b.ensures_requestReset number _ _ h.plays
  rw [accepted_eq]
  cases o with
  | ok acknowledged =>
    obtain ⟨hsent, -⟩ := hends
    exact ⟨1, Nat.le_refl 1, hsent, fun _ _ => rfl⟩
  | error e =>
    obtain ⟨k, hk, hsent⟩ := hends
    exact ⟨k, hk, hsent, nofun⟩
  | crash crash =>
    obtain ⟨k, hk, hsent⟩ := hends
    exact ⟨k, hk, hsent, nofun⟩

/-! ## Series of attempts -/

/-- The conversation of a series with so many attempts left, the next of them the one with this
number. -/
inductive Series (b : Badge) : (left number : Nat) → List (Exchange interface) →
    Outcome LinkError Unit → Prop where
  | acknowledged {left number : Nat} {attempt : List (Exchange interface)}
      (h : b.Attempt number attempt (.ok true)) : Series b (left + 1) number attempt (.ok ())
  | port {left number : Nat} {attempt : List (Exchange interface)} {f : PortFault}
      (h : b.Attempt number attempt (.error (.port f))) :
      Series b (left + 1) number attempt (.error (.port f))
  | busy {left number : Nat} {attempt : List (Exchange interface)}
      (h : b.Attempt number attempt (.crash .stalled)) :
      Series b (left + 1) number attempt (.crash .stalled)
  | again {left number : Nat} {attempt rest : List (Exchange interface)}
      {o : Outcome LinkError Unit} (h : b.Attempt number attempt (.ok false))
      (hrest : Series b left (number + 1) rest o) : Series b (left + 1) number (attempt ++ rest) o
  | givenUp (number : Nat) :
      Series b 0 number [⟨.note (.resetGivenUp 256), ()⟩] (.error (.resetTimeout 256))

theorem Unheard.append (earlier : List (Exchange interface)) (h : b.Unheard es) :
    b.Unheard (earlier ++ es) := by
  obtain ⟨before, receiving, crash, rfl, hreceive⟩ := h
  exact ⟨earlier ++ before, receiving, crash, by rw [List.append_assoc], hreceive⟩

variable {left : Nat} {o : Outcome LinkError Unit}

/-- Every conversation of a series, unless a receive in it does not end. -/
theorem series_of_plays (h : (b.requestResets left number).Plays es o) :
    b.Series left number es o ∨ b.Unheard es := by
  induction left generalizing number es with
  | zero =>
    obtain ⟨_, rfl, hend⟩ := plays_note_bind_iff.1 h
    cases hend
    exact .inl (.givenUp number)
  | succ left ih =>
    rcases plays_bind_iff.1 h with ⟨acknowledged, attempt, rest, rfl, hattempt, hrest⟩ |
      ⟨e, hattempt, rfl⟩ | ⟨crash, hattempt, rfl⟩
    · obtain hplayed | ⟨-, _, hcrash⟩ := attempt_of_plays hattempt
      · cases acknowledged with
        | true =>
          cases hrest
          rw [List.append_nil]
          exact .inl (.acknowledged hplayed)
        | false => exact (ih hrest).imp (.again hplayed) (·.append attempt)
      · cases hcrash
    · obtain hplayed | ⟨-, _, hcrash⟩ := attempt_of_plays hattempt
      · cases hplayed with
        | failed hcall hsend => exact .inl (.port (.failed hcall hsend))
      · cases hcrash
    · obtain hplayed | ⟨hunheard, -⟩ := attempt_of_plays hattempt
      · cases hplayed with
        | busy hcall hsend => exact .inl (.busy (.busy hcall hsend))
      · exact .inr hunheard

/-- A series has each of these conversations. -/
theorem Series.plays (h : b.Series left number es o) :
    (b.requestResets left number).Plays es o := by
  induction h with
  | @acknowledged left number attempt h =>
    rw [← List.append_nil attempt]
    exact plays_bind_iff.2 (.inl ⟨true, _, _, rfl, h.plays, .done _⟩)
  | port h => exact plays_bind_iff.2 (.inr (.inl ⟨_, h.plays, rfl⟩))
  | busy h => exact plays_bind_iff.2 (.inr (.inr ⟨_, h.plays, rfl⟩))
  | again h _ ih => exact plays_bind_iff.2 (.inl ⟨false, _, _, rfl, h.plays, ih⟩)
  | givenUp number => exact plays_note_bind_iff.2 ⟨_, rfl, .done _⟩

/-- A series sends at most one request for each attempt, and all of them before it is given up. -/
theorem Series.accepted (h : b.Series left number es o) :
    ∃ k ≤ left, accepted es = List.replicate k 0 ∧ (o = .error (.resetTimeout 256) → k = left) := by
  have hlast : ∀ {left number es r}, b.Attempt number es r →
      ∃ k ≤ left + 1, Link.accepted es = List.replicate k 0 := by
    intro left number es r hattempt
    obtain ⟨k, hk, haccepted, -⟩ := hattempt.accepted
    exact ⟨k, Nat.le_trans hk (Nat.le_add_left 1 left), haccepted⟩
  induction h with
  | acknowledged h | port h | busy h =>
    obtain ⟨k, hk, haccepted⟩ := hlast h
    exact ⟨k, hk, haccepted, nofun⟩
  | again h _ ih =>
    obtain ⟨k, -, haccepted, hone⟩ := h.accepted
    obtain ⟨k', hk', haccepted', hall⟩ := ih
    refine ⟨k' + 1, Nat.succ_le_succ hk', ?_, fun ho => congrArg Nat.succ (hall ho)⟩
    rw [accepted_append, haccepted, haccepted', hone false rfl, Nat.add_comm, List.replicate_add]
  | givenUp number => exact ⟨0, Nat.le_refl 0, rfl, fun _ => rfl⟩

/-- A series ends with a value, a failure of the port or the last attempt, unless the port is busy
with a send. -/
theorem Series.cases_end (h : b.Series left number es o) :
    o = .ok () ∨ (∃ f, o = .error (.port f)) ∨ o = .error (.resetTimeout 256) ∨
      ∃ earlier sending, es = earlier ++ sending ∧
        (b.channel.send [0]).Plays sending (.crash .stalled) := by
  induction h with
  | acknowledged _ => exact .inl rfl
  | port _ => exact .inr (.inl ⟨_, rfl⟩)
  | busy h =>
    cases h with
    | busy _ hsend => exact .inr (.inr (.inr ⟨[], _, rfl, hsend⟩))
  | again _ _ ih =>
    refine ih.imp_right (.imp_right (.imp_right ?_))
    rintro ⟨earlier, sending, rfl, hsend⟩
    exact ⟨_ ++ earlier, sending, (List.append_assoc ..).symm, hsend⟩
  | givenUp number => exact .inr (.inr (.inl rfl))

/-- A reset over any device that answers, and that lets every receive come to an end, is a series of
at most 256 attempts. So it returns at the first attempt whose request is acknowledged, fails at the
first whose request the port does not take, and is given up after 256 others, whatever they were
answered. Only a port that stays busy with a request for as long as the channel has patience keeps it
from that. It sends nothing but requests, at most one for each attempt, and all 256 if it is given
up. Every series that the device can have is what the reset does. -/
theorem reset_outcome {σ : Type} (b : Badge) (d : Device interface σ) (hd : d.Total)
    (hreceives : ∀ s crash,
      ((b.channel.receiveWithin 3 b.resetInterval).run d s).1 ≠ .crash crash) (s : σ) :
    (∃ es o s', b.reset.run d s = (o, s') ∧ d.Holds s es s' ∧ b.Series 256 1 es o ∧
      (∃ k ≤ 256, accepted es = List.replicate k 0 ∧
        (o = .error (.resetTimeout 256) → k = 256)) ∧
      ((∀ s crash, ((b.channel.send [0]).run d s).1 ≠ .crash crash) →
        o = .ok () ∨ (∃ f, o = .error (.port f)) ∨ o = .error (.resetTimeout 256))) ∧
    (∀ es o s', d.Holds s es s' → b.Series 256 1 es o → b.reset.run d s = (o, s')) ∧
    ∀ number attempt r, b.Attempt number attempt r → (accepted attempt).length ≤ 1 := by
  refine ⟨?_, ?_, ?_⟩
  · obtain ⟨es, o, s', hplays, hholds⟩ := exists_plays_of_total hd b.reset s
    obtain hseries | ⟨earlier, receiving, crash, rfl, hreceive⟩ := series_of_plays hplays
    · refine ⟨es, o, s', hplays.run_eq hholds, hholds, hseries, hseries.accepted, fun hsends => ?_⟩
      obtain hok | hport | hgivenUp | ⟨earlier, sending, rfl, hsend⟩ := hseries.cases_end
      · exact .inl hok
      · exact .inr (.inl hport)
      · exact .inr (.inr hgivenUp)
      · obtain ⟨s₁, -, hheld⟩ := hholds.of_append
        exact absurd (congrArg Prod.fst (hsend.run_eq hheld)) (hsends s₁ _)
    · obtain ⟨s₁, -, hheld⟩ := hholds.of_append
      exact absurd (congrArg Prod.fst (hreceive.run_eq hheld)) (hreceives s₁ crash)
  · intro es o s' hholds hseries
    exact hseries.plays.run_eq hholds
  · intro number attempt r hattempt
    obtain ⟨k, hk, haccepted, -⟩ := hattempt.accepted
    rw [haccepted, List.length_replicate]
    exact hk

/-- The first request is answered with three bytes of which the first is wrong, the second with the
acknowledgement. -/
theorem reset_after_wrong_answer :
    ∃ es s', (Badge.mk {} 1).reset.run (Bench.device Script.port (.scripted 1000))
        ⟨{ deliveries := [.bytes [0, 1, 1], .untilAccepted 2, .bytes [1, 1, 1]] }, 0, {}⟩ =
          (.ok (), s') ∧ s'.transcript.accepted = [0, 0] ∧
      (Badge.mk {} 1).Series 256 1 es (.ok ()) ∧ ∃ k ≤ 256, accepted es = List.replicate k 0 := by
  obtain ⟨⟨es, o, s', houtcome, -, hseries, ⟨k, hk, haccepted, -⟩, -⟩, -, -⟩ :=
    reset_outcome (Badge.mk {} 1) (Bench.device Script.port (.scripted 1000)) (Bench.total_script _)
      (Bench.receiveWithin_ne_crash rfl (by decide) (by decide) 1)
      ⟨{ deliveries := [.bytes [0, 1, 1], .untilAccepted 2, .bytes [1, 1, 1]] }, 0, {}⟩
  obtain ⟨s'', hrun, hsent⟩ : ∃ s', (Badge.mk {} 1).reset.run
      (Bench.device Script.port (.scripted 1000))
      ⟨{ deliveries := [.bytes [0, 1, 1], .untilAccepted 2, .bytes [1, 1, 1]] }, 0, {}⟩ =
        (.ok (), s') ∧ s'.transcript.accepted = [0, 0] := ⟨_, rfl, rfl⟩
  obtain ⟨⟨rfl⟩, rfl⟩ := Prod.mk.inj (hrun.symm.trans houtcome)
  exact ⟨es, s'', hrun, hsent, hseries, k, hk, haccepted⟩

end BadgeLink.Badge
