import BadgeLink.Flash.Controller
import BadgeLink.Proofs.Bench.Monitor
import BadgeLink.Proofs.Flash.Command

/-!
# The flash controller of a simulated chip

How a client drives the simulated controller: a command that is written to its register is carried
out by the chip, which then is busy for some polls, and the client returns with the first status
that says ready.

* `Chip.begun` is the chip as it begins a command, and `writeWord_command` says that the word of a
  command makes the chip execute it.
* `runs_command` is the law of a command that is executed without an error, `fails_command` that of
  one that is executed with an error.
-/

namespace BadgeLink.Chip

open Dialogue Monitor Bench Flash

/-! ## Commands as words -/

theorem word_toUInt8 (command : Flash.Command) (arg : UInt32) :
    (command.word arg).toUInt8 = command.code := by
  apply UInt8.toNat_inj.1
  have hcode : command.code.toNat < 256 := command.code.toNat_lt
  rw [UInt32.toNat_toUInt8, Command.toNat_word, Command.number]
  omega

theorem word_argument (command : Flash.Command) (arg : UInt32) :
    (command.word arg).toNat / 256 % 65536 = arg.toNat % 65536 :=
  Command.argument_word command arg

theorem word_key (command : Flash.Command) (arg : UInt32) :
    command.word arg >>> 24 = Command.key >>> 24 := by
  apply UInt32.toNat_inj.1
  have hcode : command.code.toNat < 256 := command.code.toNat_lt
  have hshift : (24 : UInt32).toNat % 32 = 24 := rfl
  have hkey : Command.key.toNat = 0x5a000000 := rfl
  rw [UInt32.toNat_shiftRight, UInt32.toNat_shiftRight, hshift, Nat.shiftRight_eq_div_pow,
    Nat.shiftRight_eq_div_pow, Command.toNat_word, Command.number, hkey]
  omega

/-- The word of a command makes the chip execute it. -/
theorem writeWord_command (c : Chip) (command : Flash.Command) (arg : UInt32) :
    c.writeWord (registerAddress .command) (command.word arg) =
      c.execute command.code (arg.toNat % 65536) := by
  have houtside : windowOffset? (registerAddress .command) = none := by decide
  rw [writeWord, houtside]
  dsimp only
  rw [if_pos rfl, if_pos (word_key command arg), word_toUInt8, word_argument]

/-! ## Registers -/

theorem readWord_status_busy {c : Chip} {n : Nat} (h : c.busy = n + 1) :
    c.readWord (registerAddress .status) = .ok (0, { c with busy := n }) := by
  have houtside : windowOffset? (registerAddress .status) = none := by decide
  rw [readWord, houtside]
  dsimp only
  rw [if_neg (by decide), if_neg (by decide), if_pos rfl, h]

theorem readWord_status_ready {c : Chip} (h : c.busy = 0) :
    c.readWord (registerAddress .status) = .ok (c.status, c) := by
  have houtside : windowOffset? (registerAddress .status) = none := by decide
  rw [readWord, houtside]
  dsimp only
  rw [if_neg (by decide), if_neg (by decide), if_pos rfl, h]

theorem readWord_result {c : Chip} {word : UInt32} {results : List UInt32}
    (h : c.results = word :: results) :
    c.readWord (registerAddress .result) = .ok (word, { c with results }) := by
  have houtside : windowOffset? (registerAddress .result) = none := by decide
  rw [readWord, houtside]
  dsimp only
  rw [if_neg (by decide), if_neg (by decide), if_neg (by decide), if_pos rfl, h]

theorem readWord_cidr (c : Chip) : c.readWord cidrAddress = .ok (c.cidr, c) := by
  have houtside : windowOffset? cidrAddress = none := by decide
  rw [readWord, houtside]
  exact if_pos rfl

theorem readWord_exid (c : Chip) : c.readWord exidAddress = .ok (c.exid, c) := by
  have houtside : windowOffset? exidAddress = none := by decide
  rw [readWord, houtside]
  dsimp only
  rw [if_neg (by decide), if_pos rfl]

/-! ## Clients -/

/-- So many polls that find a chip busy are less than a client allows for. -/
def Awaited (limit : Option UInt32) (polls : Nat) : Prop :=
  polls < limit.elim 0x100000000 UInt32.toNat

theorem Awaited.lt_limit {limit : Option UInt32} {polls : Nat} (h : Awaited limit polls)
    {bound : UInt32} (hl : limit = some bound) : polls < bound.toNat := by
  rw [hl] at h
  exact h

theorem Awaited.le_word {limit : Option UInt32} {polls : Nat} (h : Awaited limit polls) :
    polls ≤ 0xffffffff := by
  cases limit with
  | none => exact Nat.le_of_lt_succ h
  | some bound => exact Nat.le_of_lt_succ (Nat.lt_trans h bound.toNat_lt)

section Clients

variable {pace : Pace} {ctl : Controller} (hpatience : 0 < ctl.monitor.channel.patience)
  (hbase : ctl.base = controllerBase) {c c' : Chip} (hidle : c.line = [])

include hpatience hbase hidle

theorem runs_readRegister {r : Register} {value : UInt32}
    (h : c.readWord (registerAddress r) = .ok (value, c')) :
    Runs (Wire.port receive) pace (ctl.readRegister r) (onWire c [])
      fun word w => word = value ∧ w = onWire c' [] := by
  have haddress : Word.add ctl.base r.offset = .ok (registerAddress r) := by
    rw [hbase]
    cases r <;> rfl
  exact runs_lift_bind haddress (runs_readWord hpatience hidle h)

omit hidle in
/-- Polling ends when the chip is not busy any more, unless the limit is reached before. -/
theorem runs_pollReady {n : Nat} (hready : Status.has c.status Status.ready = true)
    {headroom counted : Nat} (hidle : c.line = []) (hbusy : c.busy = n) (hheadroom : n ≤ headroom)
    (hlimit : ∀ limit, ctl.pollLimit = some limit → counted + n < limit.toNat) :
    Runs (Wire.port receive) pace (ctl.pollReady headroom counted) (onWire c [])
      fun status w => status = c.status ∧ w = onWire { c with busy := 0 } [] := by
  induction n generalizing headroom counted c with
  | zero =>
    have hchip : ({ c with busy := 0 } : Chip) = c := by
      rw [← hbusy]
    rw [hchip]
    unfold Controller.pollReady
    refine (runs_readRegister hpatience hbase hidle (readWord_status_ready hbusy)).bind ?_
    intro _ _ hpost
    obtain ⟨rfl, rfl⟩ := hpost
    rw [if_pos hready]
    exact runs_ok ⟨rfl, rfl⟩
  | succ n ih =>
    -- `counted + n` is the same for every poll, and stays below the limit
    obtain ⟨headroom, rfl⟩ := Nat.exists_eq_succ_of_ne_zero (n := headroom) (by omega)
    unfold Controller.pollReady
    refine (runs_readRegister hpatience hbase hidle (readWord_status_busy hbusy)).bind ?_
    intro _ _ hpost
    obtain ⟨rfl, rfl⟩ := hpost
    have hunlimited : ctl.pollLimit.any (·.toNat ≤ counted + 1) = false := by
      cases hl : ctl.pollLimit with
      | none => rfl
      | some limit =>
        have h := hlimit limit hl
        exact decide_eq_false (by omega)
    rw [if_neg (by decide), hunlimited]
    refine ih (c := { c with busy := n }) hready hidle rfl (by omega) fun limit hl => ?_
    have h := hlimit limit hl
    omega

/-- A command that the chip executes is written, and after the polls that find the chip busy its
status is that of the chip. -/
theorem runs_execute {command : Flash.Command} {arg : UInt32}
    (h : c.execute command.code (arg.toNat % 65536) = .ok c') (hidle' : c'.line = [])
    (hready : Status.has c'.status Status.ready = true) (hbusy : Awaited ctl.pollLimit c'.busy) :
    Runs (Wire.port receive) pace
      ((ctl.monitor.writeWord (registerAddress .command) (command.word arg)).bind
        fun _ => ctl.awaitReady) (onWire c [])
      fun status w => status = c'.status ∧ w = onWire { c' with busy := 0 } [] := by
  have hwrite := writeWord_command c command arg
  rw [h] at hwrite
  refine (runs_writeWord hpatience hidle hwrite).bind ?_
  intro _ _ hpost
  subst hpost
  refine runs_pollReady hpatience hbase hready hidle' rfl hbusy.le_word fun limit hl => ?_
  rw [Nat.zero_add]
  exact hbusy.lt_limit hl

omit hpatience hidle in
theorem commandAddress_eq_ok :
    Word.add ctl.base Register.command.offset = .ok (registerAddress .command) := by
  rw [hbase]
  rfl

/-- A command that the chip executes without an error is complete after the polls that find it
busy. -/
theorem runs_command {command : Flash.Command} {arg : UInt32}
    (h : c.execute command.code (arg.toNat % 65536) = .ok c') (hidle' : c'.line = [])
    (hstatus : c'.status = Status.ready) (hbusy : Awaited ctl.pollLimit c'.busy) :
    Runs (Wire.port receive) pace (ctl.issue command arg) (onWire c [])
      fun _ w => w = onWire { c' with busy := 0 } [] := by
  refine runs_note_bind (runs_lift_bind (commandAddress_eq_ok hbase) ?_)
  simp only [bind_eq]
  rw [← bind_bind]
  have hready : Status.has c'.status Status.ready = true := by
    rw [hstatus]
    rfl
  refine (runs_execute hpatience hbase hidle h hidle' hready hbusy).bind ?_
  intro _ _ hpost
  obtain ⟨rfl, rfl⟩ := hpost
  rw [hstatus]
  exact runs_ok rfl

/-- A command that the chip executes with an error fails after the polls that find it busy. -/
theorem fails_command {command : Flash.Command} {arg : UInt32} {e : LinkError}
    (h : c.execute command.code (arg.toNat % 65536) = .ok c') (hidle' : c'.line = [])
    (hready : Status.has c'.status Status.ready = true) (hstatus : Status.check c'.status = .error e)
    (hbusy : Awaited ctl.pollLimit c'.busy) :
    Fails (Wire.port receive) pace (ctl.issue command arg) (onWire c []) e
      fun w => w = onWire { c' with busy := 0 } [] := by
  refine fails_note_bind (fails_lift_bind (commandAddress_eq_ok hbase) ?_)
  simp only [bind_eq]
  rw [← bind_bind]
  refine (runs_execute hpatience hbase hidle h hidle' hready hbusy).bind_fails ?_
  intro _ _ hpost
  obtain ⟨rfl, rfl⟩ := hpost
  rw [hstatus]
  exact fails_error rfl

end Clients

end BadgeLink.Chip
