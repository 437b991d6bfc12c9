import BadgeLink.Proofs.Flash.Arithmetic
import BadgeLink.Proofs.Flash.Command
import BadgeLink.Proofs.Monitor.Driven

/-!
# Polling a flash controller

How a command ends for every sequence of statuses that the controller may report. The wait reads
one status after the other until one says that the controller is ready. The client may have a limit
of polls; without one, the wait still counts the busy polls in a machine word, which overflows.

* `driven_pollReady_after`: the wait after some busy polls, by induction on their number.
* `driven_awaitReady`, `driven_awaitReady_exhausted`: how the wait ends.
* `send_within_limit`: a command with a limit, for every sequence of statuses.
* `wait_without_limit`: the wait without a limit.
-/

namespace BadgeLink.Flash

open Dialogue Monitor Link

/-- How many polls a client makes at most. A limit of none still permits the first poll. -/
def pollsPermitted : Option UInt32 → Nat
  | some limit => max limit.toNat 1
  | none => 0x100000000

/-- How a wait ends whose polls all found the controller busy. -/
def exhausted : Option UInt32 → Outcome LinkError UInt32
  | some limit => .error (.flashBusy (max limit.toNat 1))
  | none => .crash .addOverflow

/-- The controller is busy in the first `k` statuses and ready in the next. -/
structure ReadyAt (status : Nat → UInt32) (k : Nat) : Prop where
  busy : ∀ j < k, Status.has (status j) Status.ready = false
  ready : Status.has (status k) Status.ready = true

/-- How a command ends with the status that says ready. -/
def Status.verdict (status : UInt32) : Outcome LinkError UInt32 :=
  if has status locked then .error (.flashLocked status)
  else if has status failed then .error (.flashWrite status)
  else if has status invalid then .error (.flashCommand status)
  else .ok status

theorem Status.verdict_of_clean {status : UInt32} (h : check status = .ok ()) :
    verdict status = .ok status := by
  have hclear := check_eq_ok.1 h
  have hlocked := hclear locked (by simp)
  have hfailed := hclear failed (by simp)
  have hinvalid := hclear invalid (by simp)
  simp [verdict, hlocked, hfailed, hinvalid]

theorem Status.check_ready : check ready = .ok () := by
  rw [check, if_neg (by decide), if_neg (by decide), if_neg (by decide)]

theorem pollsPermitted_pos (limit : Option UInt32) : 0 < pollsPermitted limit := by
  cases limit with
  | none => decide
  | some limit => exact Nat.le_max_right _ _

theorem pollsPermitted_le (limit : Option UInt32) : pollsPermitted limit ≤ 0x100000000 := by
  cases limit with
  | none => exact Nat.le_refl _
  | some limit => exact Nat.max_le.2 ⟨Nat.le_of_lt limit.toNat_lt, by decide⟩

/-- A client of the flash controller of the badge that has not read a description yet. -/
def Controller.onBadge (limit : Option UInt32) : Controller where
  monitor := ⟨{}⟩
  base := Target.badge.controllerBase
  pollLimit := limit
  flash := {}

theorem polls_wordAnswers_add (base : UInt32) (w : Nat → UInt32) (m n : Nat) :
    polls base (wordAnswers w (m + n)) =
      polls base (wordAnswers w m) ++ polls base (wordAnswers (fun j => w (m + j)) n) := by
  rw [wordAnswers_add, polls, List.map_append]
  rfl

namespace Controller

variable {c : Controller} {w : Nat → UInt32} (hpatience : 0 < c.monitor.channel.patience)
  (hbase : Addressable c.base)

include hpatience hbase

theorem driven_readRegister (r : Register) :
    Driven c.monitor.channel w (c.readRegister r) 1
      [.whole (.readWord (registerAt c.base r)) (Word.littleEndian (w 0))] (.ok (w 0)) :=
  driven_lift_bind (add_register hbase r) (driven_readWord hpatience _)

/-! ## The wait -/

theorem driven_pollReady_ready (hready : Status.has (w 0) Status.ready = true)
    (headroom counted : Nat) :
    Driven c.monitor.channel w (c.pollReady headroom counted) 1 (polls c.base (wordAnswers w 1))
      (.ok (w 0)) := by
  have hread := driven_readRegister (w := w) hpatience hbase .status
  unfold pollReady
  refine hread.bind_end ?_
  rw [if_pos hready]
  exact driven_done _

/-- A poll that finds the controller busy is counted, and the wait goes on if more are permitted. -/
theorem driven_pollReady_busy (hbusy : Status.has (w 0) Status.ready = false)
    {headroom counted n : Nat} {evs : List Event} {o : Outcome LinkError UInt32}
    (hmore : counted + 1 < pollsPermitted c.pollLimit)
    (hrest : Driven c.monitor.channel (fun j => w (1 + j)) (c.pollReady headroom (counted + 1)) n
      evs o) :
    Driven c.monitor.channel w (c.pollReady (headroom + 1) counted) (1 + n)
      (polls c.base (wordAnswers w 1) ++ evs) o := by
  have hread := driven_readRegister (w := w) hpatience hbase .status
  have hlimit : ¬c.pollLimit.any (·.toNat ≤ counted + 1) := by
    cases hl : c.pollLimit with
    | none => exact nofun
    | some limit =>
      rw [hl, pollsPermitted] at hmore
      simp only [Option.any_some, decide_eq_true_eq]
      omega
  unfold pollReady
  refine hread.bind ?_
  rw [if_neg (by rw [hbusy]; decide)]
  dsimp only
  rw [if_neg hlimit]
  exact hrest

/-- The last poll that is permitted ends the wait if it finds the controller busy. -/
theorem driven_pollReady_last (hbusy : Status.has (w 0) Status.ready = false)
    {headroom counted : Nat} (hcount : counted + headroom = 0xffffffff)
    (hlast : counted + 1 = pollsPermitted c.pollLimit) :
    Driven c.monitor.channel w (c.pollReady headroom counted) 1 (polls c.base (wordAnswers w 1))
      (exhausted c.pollLimit) := by
  have hread := driven_readRegister (w := w) hpatience hbase .status
  unfold pollReady
  refine hread.bind_end ?_
  rw [if_neg (by rw [hbusy]; decide)]
  cases hl : c.pollLimit with
  | none =>
    -- the count of the busy polls has no room for this one
    rw [hl, pollsPermitted] at hlast
    obtain rfl : headroom = 0 := by omega
    exact driven_done _
  | some limit =>
    have hlt := limit.toNat_lt
    rw [hl, pollsPermitted] at hlast
    obtain ⟨headroom, rfl⟩ := Nat.exists_eq_succ_of_ne_zero (show headroom ≠ 0 by omega)
    have hreached : (some limit).any (·.toNat ≤ counted + 1) := by
      simp only [Option.any_some, decide_eq_true_eq]
      omega
    dsimp only
    rw [if_pos hreached, hlast]
    exact driven_note_bind (driven_done _)

/-- After busy polls that do not exhaust the limit, the wait goes on with the statuses after them. -/
theorem driven_pollReady_after {k headroom n : Nat} {evs : List Event}
    {o : Outcome LinkError UInt32} (hbusy : ∀ j < k, Status.has (w j) Status.ready = false)
    (hmore : k < pollsPermitted c.pollLimit)
    (hrest : Driven c.monitor.channel (fun j => w (k + j)) (c.pollReady headroom k) n evs o) :
    Driven c.monitor.channel w (c.pollReady (headroom + k) 0) (k + n)
      (polls c.base (wordAnswers w k) ++ evs) o := by
  induction k generalizing headroom n evs with
  | zero =>
    simp only [Nat.zero_add] at hrest ⊢
    exact hrest
  | succ k ih =>
    simp only [Nat.add_assoc] at hrest ⊢
    -- the last busy poll is put in front of the rest, and the induction takes those before it
    have hnext := driven_pollReady_busy (w := fun j => w (k + j)) hpatience hbase
      (hbusy k (Nat.lt_succ_self k)) hmore hrest
    have h := ih (fun j hj => hbusy j (Nat.lt_succ_of_lt hj)) (Nat.lt_of_succ_lt hmore) hnext
    rw [← List.append_assoc, ← polls_wordAnswers_add] at h
    rw [show headroom + (k + 1) = headroom + 1 + k by omega]
    exact h

/-- The wait ends with the first status that says ready, if the limit permits the poll. -/
theorem driven_awaitReady {k : Nat} (hready : ReadyAt w k)
    (hpermitted : k < pollsPermitted c.pollLimit) :
    Driven c.monitor.channel w c.awaitReady (k + 1) (polls c.base (wordAnswers w (k + 1)))
      (.ok (w k)) := by
  have hlast := driven_pollReady_ready (w := fun j => w (k + j)) hpatience hbase hready.ready
    (0xffffffff - k) k
  have h := driven_pollReady_after hpatience hbase hready.busy hpermitted hlast
  have hle := pollsPermitted_le c.pollLimit
  rw [Nat.sub_add_cancel (by omega), ← polls_wordAnswers_add] at h
  exact h

/-- The wait ends with the last poll that the limit permits, if all of them find the controller
busy. -/
theorem driven_awaitReady_exhausted
    (hbusy : ∀ j < pollsPermitted c.pollLimit, Status.has (w j) Status.ready = false) :
    Driven c.monitor.channel w c.awaitReady (pollsPermitted c.pollLimit)
      (polls c.base (wordAnswers w (pollsPermitted c.pollLimit))) (exhausted c.pollLimit) := by
  have hle := pollsPermitted_le c.pollLimit
  obtain ⟨k, hk⟩ := Nat.exists_eq_succ_of_ne_zero (Nat.ne_of_gt (pollsPermitted_pos c.pollLimit))
  rw [hk] at hle hbusy ⊢
  have hlast := driven_pollReady_last (w := fun j => w (k + j)) hpatience hbase
    (hbusy k (Nat.lt_succ_self k)) (Nat.add_sub_cancel' (by omega)) hk.symm
  have h := driven_pollReady_after hpatience hbase (fun j hj => hbusy j (Nat.lt_succ_of_lt hj))
    (by omega) hlast
  rw [Nat.sub_add_cancel (by omega), ← polls_wordAnswers_add] at h
  exact h

/-! ## Commands -/

/-- What a command does with the status that says ready. -/
def judge (status : UInt32) : Link UInt32 :=
  (Dialogue.ofExcept (Status.check status)).bind fun _ => done (.ok status)

omit hpatience hbase in
theorem driven_judge (status : UInt32) :
    Driven c.monitor.channel w (judge status) 0 [] (Status.verdict status) := by
  unfold judge Status.check Status.verdict
  split
  · exact driven_done _
  · split
    · exact driven_done _
    · split
      · exact driven_done _
      · exact driven_done _

/-- A command is one write, and then the wait. -/
theorem driven_send_of_wait {count : Nat} {evs : List Event} {o : Outcome LinkError UInt32}
    (code : UInt8) (arg : UInt32)
    (h : Driven c.monitor.channel w (c.awaitReady.bind judge) count evs o) :
    Driven c.monitor.channel w (c.send code arg) count
      (.whole (.writeWord (registerAt c.base .command) (Command.wordOf code arg)) [] :: evs) o := by
  refine driven_note_bind (driven_lift_bind (add_register hbase .command) ?_)
  exact driven_writeWord_bind hpatience h

/-- The status that says ready decides how a command ends. -/
theorem driven_send {k : Nat} (hready : ReadyAt w k) (hpermitted : k < pollsPermitted c.pollLimit)
    (code : UInt8) (arg : UInt32) :
    Driven c.monitor.channel w (c.send code arg) (k + 1)
      (.whole (.writeWord (registerAt c.base .command) (Command.wordOf code arg)) [] ::
        polls c.base (wordAnswers w (k + 1)))
      (Status.verdict (w k)) := by
  have hwait := driven_awaitReady hpatience hbase hready hpermitted
  exact driven_send_of_wait hpatience hbase code arg (hwait.bind_end (driven_judge (w k)))

/-- A command succeeds if the status that says ready reports no error. -/
theorem driven_issue {k : Nat} (hready : ReadyAt w k) (hpermitted : k < pollsPermitted c.pollLimit)
    (hclean : Status.check (w k) = .ok ()) (command : Command) (arg : UInt32) :
    Driven c.monitor.channel w (c.issue command arg) (k + 1)
      (issuing c.base command arg :: polls c.base (wordAnswers w (k + 1))) (.ok (w k)) := by
  have h := driven_send hpatience hbase hready hpermitted command.code arg
  rw [Status.verdict_of_clean hclean] at h
  exact h

/-- A command of a client with a limit, for every sequence of statuses that are delivered on a port
that works: one write and then nothing but polls. The first status that says ready decides how the
command ends; if none of the permitted polls reads one, the controller counts as busy. The registers
of a controller have addresses once it is connected to (`addressable_of_connect`). -/
theorem send_within_limit {limit : UInt32} (hlimit : c.pollLimit = some limit) (code : UInt8)
    (arg : UInt32) (status : Nat → UInt32) :
    (∀ k < max limit.toNat 1, ReadyAt status k →
      Driven c.monitor.channel status (c.send code arg) (k + 1)
        (.whole (.writeWord (registerAt c.base .command) (Command.wordOf code arg)) [] ::
          polls c.base (wordAnswers status (k + 1)))
        (Status.verdict (status k))) ∧
    ((∀ j < max limit.toNat 1, Status.has (status j) Status.ready = false) →
      Driven c.monitor.channel status (c.send code arg) (max limit.toNat 1)
        (.whole (.writeWord (registerAt c.base .command) (Command.wordOf code arg)) [] ::
          polls c.base (wordAnswers status (max limit.toNat 1)))
        (.error (.flashBusy (max limit.toNat 1)))) := by
  have hpermitted : pollsPermitted c.pollLimit = max limit.toNat 1 := by rw [hlimit, pollsPermitted]
  constructor
  · intro k hk hready
    exact driven_send hpatience hbase hready (hpermitted ▸ hk) code arg
  · intro hbusy
    have hwait := driven_awaitReady_exhausted hpatience hbase (hpermitted ▸ hbusy)
    rw [hpermitted, hlimit, exhausted] at hwait
    exact driven_send_of_wait hpatience hbase code arg (hwait.bind_error judge)

omit hpatience hbase in
/-- An erasure with a limit of three polls: the third may report that a page is locked, and if the
controller is still busy then, that is the error. -/
theorem erasure_within_three_polls :
    Driven (onBadge (some 3)).monitor.channel (fun j => if j < 2 then 0 else 5)
      ((onBadge (some 3)).send Command.eraseAll.code 0) 3
      (issuing Target.badge.controllerBase .eraseAll 0 ::
        polls Target.badge.controllerBase (wordAnswers (fun j => if j < 2 then 0 else 5) 3))
      (.error (.flashLocked 5)) ∧
    Driven (onBadge (some 3)).monitor.channel (fun _ => 0)
      ((onBadge (some 3)).send Command.eraseAll.code 0) 3
      (issuing Target.badge.controllerBase .eraseAll 0 ::
        polls Target.badge.controllerBase (wordAnswers (fun _ => 0) 3))
      (.error (.flashBusy 3)) := by
  have hpatience : 0 < (onBadge (some 3)).monitor.channel.patience := by decide
  constructor
  · exact (send_within_limit hpatience addressable_badge rfl Command.eraseAll.code 0 _).1 2
      (by decide) ⟨by decide, by decide⟩
  · exact (send_within_limit hpatience addressable_badge rfl Command.eraseAll.code 0 _).2
      (by decide)

/-- The wait without a limit, for every sequence of statuses that are delivered on a port that works.
It goes on until a status says ready, as long as the busy polls can be counted in a machine word. -/
theorem wait_without_limit (hlimit : c.pollLimit = none) (status : Nat → UInt32) :
    (∀ k < 0x100000000, ReadyAt status k →
      Driven c.monitor.channel status c.awaitReady (k + 1)
        (polls c.base (wordAnswers status (k + 1))) (.ok (status k))) ∧
    ((∀ j < 0x100000000, Status.has (status j) Status.ready = false) →
      Driven c.monitor.channel status c.awaitReady 0x100000000
        (polls c.base (wordAnswers status 0x100000000)) (.crash .addOverflow)) := by
  have hpermitted : pollsPermitted c.pollLimit = 0x100000000 := by rw [hlimit, pollsPermitted]
  constructor
  · intro k hk hready
    exact driven_awaitReady hpatience hbase hready (hpermitted ▸ hk)
  · intro hbusy
    have hwait := driven_awaitReady_exhausted hpatience hbase (hpermitted ▸ hbusy)
    rw [hpermitted, hlimit, exhausted] at hwait
    exact hwait

omit hpatience hbase in
theorem wait_of_two_busy_polls :
    Driven (onBadge none).monitor.channel (fun j => if j < 2 then 0 else 1)
      (onBadge none).awaitReady 3
      (polls Target.badge.controllerBase (wordAnswers (fun j => if j < 2 then 0 else 1) 3))
      (.ok 1) :=
  (wait_without_limit (c := onBadge none) (by decide) addressable_badge rfl _).1 2 (by decide)
    ⟨by decide, by decide⟩

/-- The statuses of a controller that is ready after 2^32 busy polls. -/
def lateReady (j : Nat) : UInt32 :=
  if j < 0x100000000 then 0 else Status.ready

omit hpatience hbase in
/-- The wait does not see that the controller becomes ready: the count of the busy polls overflows
before. -/
theorem wait_overflows_before_ready :
    Driven (onBadge none).monitor.channel lateReady (onBadge none).awaitReady 0x100000000
      (polls Target.badge.controllerBase (wordAnswers lateReady 0x100000000))
      (.crash .addOverflow) ∧
    ReadyAt lateReady 0x100000000 := by
  have hready : ReadyAt lateReady 0x100000000 := by
    constructor
    · intro j hj
      rw [lateReady, if_pos hj]
      decide
    · rw [lateReady, if_neg (Nat.lt_irrefl _)]
      decide
  constructor
  · exact driven_awaitReady_exhausted (c := onBadge none) (by decide) addressable_badge hready.busy
  · exact hready

end Controller

end BadgeLink.Flash
