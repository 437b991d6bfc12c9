import BadgeLink.Proofs.Bench.Monitor
import BadgeLink.Proofs.Bench.Transcript
import BadgeLink.Proofs.Monitor.Client
import Mathlib.Data.List.Forall2

/-!
# The registers of a simulated chip as a memory

Behind the monitor of a chip most addresses are plain registers. A client that reads and writes
these, and jumps wherever it likes, finds a memory: each read gives what was written last, whatever
the words and the addresses are. The chip carries out each command once, with the address and the
value that the client meant, and leaves nothing to be read.

* `carriedOut` are the commands that a chip carries out when it is fed bytes.
* `transmits_access` is one access and `transmits_accesses` a sequence of them.
* `memory_faithful`: what a sequence of accesses sends, reads and leaves behind.
-/

namespace BadgeLink

namespace RegisterFile

theorem lookup_cons (a v place : UInt32) (rest : List (UInt32 × UInt32)) :
    ((a, v) :: rest).lookup place = if a = place then some v else rest.lookup place := by
  rw [List.lookup_cons]
  by_cases h : a = place
  · rw [if_pos h, h, beq_self_eq_true]
  · rw [if_neg h, beq_false_of_ne (Ne.symm h)]

/-- Where a word is inserted does not matter to those who look it up. -/
theorem lookup_insert (entries : List (UInt32 × UInt32)) (address value place : UInt32) :
    (insert address value entries).lookup place =
      if address = place then some value else entries.lookup place := by
  induction entries with
  | nil => rw [insert, lookup_cons]
  | cons entry rest ih =>
    obtain ⟨a, v⟩ := entry
    rw [insert]
    by_cases hlt : address < a
    · rw [if_pos hlt, lookup_cons]
    · rw [if_neg hlt]
      by_cases heq : address = a
      · subst heq
        rw [if_pos rfl, lookup_cons, lookup_cons]
        by_cases hplace : address = place
        · rw [if_pos hplace, if_pos hplace]
        · simp only [hplace, if_false]
      · rw [if_neg heq, lookup_cons, ih, lookup_cons]
        by_cases hplace : address = place
        · subst hplace
          rw [if_neg (Ne.symm heq), if_pos rfl, if_pos rfl]
        · simp only [hplace, if_false]

theorem get_set (r : RegisterFile) (address value place : UInt32) :
    (r.set address value).get place = if address = place then value else r.get place := by
  rw [get, set, lookup_insert, get]
  split <;> rfl

end RegisterFile

namespace Chip

open Dialogue Monitor Bench

/-! ## Accesses -/

/-- An access to the memory of a chip. -/
inductive Access where
  | read (address : UInt32)
  | write (address value : UInt32)
  | jump (address : UInt32)
deriving DecidableEq

/-- An address is a register that means nothing to the chip: it lies outside the window of the flash,
and is neither one of the identification registers nor the command, status or result register of the
flash controller. -/
structure Ordinary (address : UInt32) : Prop where
  outside : address.toNat < flashBase.toNat ∨ flashBase.toNat + flashSize ≤ address.toNat
  ne_cidr : address ≠ cidrAddress
  ne_exid : address ≠ exidAddress
  ne_command : address ≠ registerAddress .command
  ne_status : address ≠ registerAddress .status
  ne_result : address ≠ registerAddress .result

namespace Access

/-- Only ordinary registers are read and written. -/
def Ordinary : Access → Prop
  | read address | write address _ => Chip.Ordinary address
  | jump _ => True

/-- The call of a client that makes an access. -/
def operation : Access → Operation
  | read address => .readWord address
  | write address value => .writeWord address value
  | jump address => .go address

/-- The command that an access is for the monitor. -/
def command : Access → Command
  | read address => .readWord address
  | write address value => .writeWord address value
  | jump address => .go address

/-- The bytes that are sent for an access: a letter, words in eight lower-case digits, and a closing
hash sign. -/
def Sends : Access → List UInt8 → Prop
  | read address, bytes =>
    ∃ ds, Hex.Spells ds address ∧ bytes = asciiBytes ('w' :: ds ++ [',', '#'])
  | write address value, bytes =>
    ∃ ds ds', Hex.Spells ds address ∧ Hex.Spells ds' value ∧
      bytes = asciiBytes ('W' :: ds ++ ',' :: ds' ++ ['#'])
  | jump address, bytes => ∃ ds, Hex.Spells ds address ∧ bytes = asciiBytes ('G' :: ds ++ ['#'])

/-- The word that an access writes to an address, if it does. -/
def written? (address : UInt32) : Access → Option UInt32
  | write place value => if place = address then some value else none
  | _ => none

def target? : Access → Option UInt32
  | jump address => some address
  | _ => none

end Access

/-- The word that was written last to an address. -/
def lastWritten? (address : UInt32) (accesses : List Access) : Option UInt32 :=
  accesses.reverse.findSome? (Access.written? address)

/-- What an access is answered after others, if the registers held these words at first. -/
def Access.answer (r : RegisterFile) (before : List Access) : Access → Answer
  | read address => .word ((lastWritten? address before).getD (r.get address))
  | _ => .done

/-- Each access has an answer, which depends on those before it. -/
structure Answered (r : RegisterFile) (accesses : List Access) (answers : List Answer) : Prop where
  length_eq : answers.length = accesses.length
  answer_eq : ∀ before a after, accesses = before ++ a :: after →
    answers[before.length]? = some (a.answer r before)

theorem lastWritten_cons (address : UInt32) (a : Access) (accesses : List Access) :
    lastWritten? address (a :: accesses) =
      (lastWritten? address accesses).or (a.written? address) := by
  unfold lastWritten?
  rw [List.reverse_cons, List.findSome?_append]
  simp

theorem sends_command (a : Access) : a.Sends a.command.bytes := by
  cases a with
  | read address => exact ⟨_, Hex.spells_digits address, rfl⟩
  | write address value => exact ⟨_, _, Hex.spells_digits address, Hex.spells_digits value, rfl⟩
  | jump address => exact ⟨_, Hex.spells_digits address, rfl⟩

/-! ## The chip -/

/-- The commands that a chip carries out when it is fed bytes: with each hash sign the one that the
line makes which it closes. -/
def carriedOut (c : Chip) : List UInt8 → List Command
  | [] => []
  | b :: rest =>
    match receive b c with
    | (.error _, _) => []
    | (.ok _, c') =>
      (if b = UInt8.ofNat '#'.toNat then (parse c.line.reverse).toOption.toList else []) ++
        c'.carriedOut rest

/-- A chip after an access. -/
def access (c : Chip) : Access → Chip
  | .read _ => c
  | .write address value => { c with registers := c.registers.set address value }
  | .jump address => { c with jumps := address :: c.jumps }

variable {c c' : Chip}

theorem line_access (c : Chip) (a : Access) : (c.access a).line = c.line := by
  cases a <;> rfl

theorem get_access (c : Chip) (a : Access) (address : UInt32) :
    (c.access a).registers.get address = (a.written? address).getD (c.registers.get address) := by
  cases a with
  | read _ => rfl
  | write place value =>
    simp only [access, Access.written?, RegisterFile.get_set]
    split <;> rfl
  | jump _ => rfl

/-- What was written before the others is the content that they find. -/
theorem answer_cons (c : Chip) (a₀ : Access) (before : List Access) (a : Access) :
    a.answer c.registers (a₀ :: before) = a.answer (c.access a₀).registers before := by
  cases a with
  | read address =>
    rw [Access.answer, Access.answer, lastWritten_cons, get_access, Option.getD_or]
  | write _ _ => rfl
  | jump _ => rfl

theorem windowOffset_of_ordinary {address : UInt32} (h : Ordinary address) :
    windowOffset? address = none := by
  rw [windowOffset?, if_neg]
  rintro ⟨hle, hlt⟩
  have hle : flashBase.toNat ≤ address.toNat := hle
  have hout := h.outside
  omega

theorem readWord_of_ordinary {address : UInt32} (h : Ordinary address) :
    c.readWord address = .ok (c.registers.get address, c) := by
  rw [readWord, windowOffset_of_ordinary h]
  simp only [h.ne_cidr, h.ne_exid, h.ne_status, h.ne_result, if_false]

theorem writeWord_of_ordinary {address value : UInt32} (h : Ordinary address) :
    c.writeWord address value = .ok { c with registers := c.registers.set address value } := by
  rw [writeWord, windowOffset_of_ordinary h]
  simp only [h.ne_command, if_false]

theorem carryOut_access {a : Access} (h : a.Ordinary) :
    ∃ reply, c.carryOut a.command = .ok (reply, c.access a) := by
  cases a with
  | read address => exact ⟨_, carryOut_readWord (readWord_of_ordinary h)⟩
  | write address value => exact ⟨_, carryOut_writeWord (writeWord_of_ordinary h)⟩
  | jump address => exact ⟨_, rfl⟩

theorem carriedOut_line (c : Chip) {line : List UInt8} (h : UInt8.ofNat '#'.toNat ∉ line)
    (rest : List UInt8) :
    c.carriedOut (line ++ rest) = { c with line := line.reverse ++ c.line }.carriedOut rest := by
  induction line generalizing c with
  | nil => rfl
  | cons b line ih =>
    have hb : b ≠ UInt8.ofNat '#'.toNat := fun hb => h (hb ▸ List.mem_cons_self)
    have hfirst : receive b c = (.ok [], { c with line := b :: c.line }) := if_neg hb
    rw [List.cons_append, carriedOut, hfirst]
    simp only [if_neg hb, List.nil_append]
    rw [ih _ fun hline => h (List.mem_cons_of_mem b hline), List.reverse_cons, List.append_assoc]
    rfl

/-- The bytes of a command make a chip carry out this command and no other. -/
theorem carriedOut_command (hidle : c.line = []) {m : Command} {reply : List UInt8}
    (h : c.carryOut m = .ok (reply, c')) (rest : List UInt8) :
    c.carriedOut (m.bytes ++ rest) = m :: c'.carriedOut rest := by
  rw [Command.bytes_eq_text, List.append_assoc, carriedOut_line c m.hash_notMem_text, hidle,
    List.append_nil, List.singleton_append, carriedOut, receive_hash hidle, h]
  simp only [if_true, List.reverse_reverse, parse_text]
  rfl

/-! ### Sequences of accesses -/

theorem carriedOut_accesses (hidle : c.line = []) {accesses : List Access}
    (hordinary : ∀ a ∈ accesses, a.Ordinary) :
    c.carriedOut (accesses.map (·.command.bytes)).flatten = accesses.map Access.command := by
  induction accesses generalizing c with
  | nil => rfl
  | cons a rest ih =>
    obtain ⟨ha, hrest⟩ := List.forall_mem_cons.1 hordinary
    obtain ⟨reply, hcarry⟩ := carryOut_access (c := c) ha
    rw [List.map_cons, List.flatten_cons, carriedOut_command hidle hcarry,
      ih ((line_access c a).trans hidle) hrest, List.map_cons]

/-- Nothing but the registers and the jumps of a chip changes. -/
theorem exists_foldl_access (c : Chip) (accesses : List Access) :
    ∃ registers, accesses.foldl access c =
        { c with registers, jumps := (accesses.filterMap Access.target?).reverse ++ c.jumps } ∧
      ∀ address, registers.get address =
        (lastWritten? address accesses).getD (c.registers.get address) := by
  induction accesses generalizing c with
  | nil => exact ⟨c.registers, rfl, fun _ => rfl⟩
  | cons a rest ih =>
    obtain ⟨registers, hfold, hget⟩ := ih (c.access a)
    refine ⟨registers, ?_, fun address => ?_⟩
    · rw [List.foldl_cons, hfold]
      cases a with
      | read _ => rfl
      | write _ _ => rfl
      | jump address => simp [access, Access.target?]
    · rw [hget, get_access, lastWritten_cons, Option.getD_or]

theorem answered_cons {a : Access} {accesses : List Access} {answers : List Answer}
    (h : Answered (c.access a).registers accesses answers) :
    Answered c.registers (a :: accesses) (a.answer c.registers [] :: answers) := by
  refine ⟨congrArg Nat.succ h.length_eq, ?_⟩
  intro before a' after hsplit
  cases before with
  | nil =>
    obtain ⟨rfl, -⟩ := List.cons.inj hsplit
    rfl
  | cons a₀ before =>
    obtain ⟨rfl, hrest⟩ := List.cons.inj hsplit
    rw [answer_cons]
    exact h.answer_eq before a' after hrest

/-! ## The client -/

section Clients

variable {pace : Pace} {m : Monitor} (hpatience : 0 < m.channel.patience)

theorem traces_perform (m : Monitor) (a : Access) :
    Traces (m.perform a.operation) (fun evs _ => ∃ answer, evs = [.whole a.command answer])
      fun _ _ => True := by
  cases a with
  | read address =>
    refine (m.traces_readWord address).bind (fun _ _ _ => trivial) ?_
    rintro _ _ ⟨data, -, rfl, -⟩
    exact traces_ok ⟨data, rfl⟩
  | write address value =>
    refine (m.traces_writeWord address value).bind (fun _ _ _ => trivial) ?_
    rintro _ _ rfl
    exact traces_ok ⟨[], rfl⟩
  | jump address =>
    refine (m.traces_go address).bind (fun _ _ _ => trivial) ?_
    rintro _ _ rfl
    exact traces_ok ⟨[], rfl⟩

/-- What an access sends are the bytes of its command. -/
theorem ensures_perform (m : Monitor) (a : Access) :
    Link.Ensures (m.perform a.operation) (fun ss _ => Link.sentBytes ss = a.command.bytes)
      fun _ _ => True := by
  refine Link.Ensures.mono (traces_perform m a) ?_ fun _ _ _ => trivial
  rintro ss _ ⟨evs, hevs, answer, rfl⟩
  rw [hevs.sentBytes_eq]
  exact List.append_nil _

include hpatience

theorem runs_perform (hidle : c.line = []) {a : Access} (h : a.Ordinary) :
    Runs (Wire.port receive) pace (m.perform a.operation) (onWire c [])
      fun r w => r = a.answer c.registers [] ∧ w = onWire (c.access a) [] := by
  cases a with
  | read address =>
    refine (runs_readWord hpatience hidle (readWord_of_ordinary h)).bind ?_
    rintro _ _ ⟨rfl, rfl⟩
    exact runs_ok ⟨rfl, rfl⟩
  | write address value =>
    refine (runs_writeWord hpatience hidle (writeWord_of_ordinary h)).bind ?_
    rintro _ _ rfl
    exact runs_ok ⟨rfl, rfl⟩
  | jump address =>
    refine (runs_go hpatience hidle).bind ?_
    rintro _ _ rfl
    exact runs_ok ⟨rfl, rfl⟩

theorem transmits_access (hidle : c.line = []) {a : Access} (h : a.Ordinary) :
    Transmits (Wire.port receive) pace (m.perform a.operation) (onWire c [])
      (a.answer c.registers []) a.command.bytes (onWire (c.access a) []) :=
  (runs_perform hpatience hidle h).transmits (ensures_perform m a)

/-- The induction is on the accesses: after each of them the chip is between two commands, and
nothing waits to be read. -/
theorem transmits_accesses (hidle : c.line = []) {accesses : List Access}
    (hordinary : ∀ a ∈ accesses, a.Ordinary) :
    ∃ answers, Answered c.registers accesses answers ∧
      Transmits (Wire.port receive) pace (accesses.mapM fun a => m.perform a.operation) (onWire c [])
        answers (accesses.map (·.command.bytes)).flatten (onWire (accesses.foldl access c) []) := by
  induction accesses generalizing c with
  | nil =>
    refine ⟨[], ⟨rfl, ?_⟩, transmits_ok [] _⟩
    intro before a after hsplit
    cases before <;> cases hsplit
  | cons a rest ih =>
    obtain ⟨ha, hrest⟩ := List.forall_mem_cons.1 hordinary
    obtain ⟨answers, hanswers, htransmits⟩ := ih ((line_access c a).trans hidle) hrest
    refine ⟨a.answer c.registers [] :: answers, answered_cons hanswers, ?_⟩
    rw [List.mapM_cons, List.map_cons, List.flatten_cons, List.foldl_cons]
    refine (transmits_access hpatience hidle ha).bind ?_
    rw [← List.append_nil (rest.map _).flatten]
    exact htransmits.bind (transmits_ok _ _)

end Clients

/-- A client that makes any accesses to ordinary registers, and any jumps, on a wire on which nothing
waits and nothing fails, to a chip between two commands: every access succeeds. A read is answered
with the word that was written last to its address, or else with what the register held at first.
The chip carries out the command of each access, in their order, and no other; its registers hold
then what was written last, its list of jumps has grown by theirs, the rest of it is unchanged, and
nothing waits to be read. -/
theorem memory_faithful (options : Options) (pace : Pace) {c : Chip} (hidle : c.line = [])
    {accesses : List Access} (hordinary : ∀ a ∈ accesses, a.Ordinary) (clock : Nat)
    (t : Transcript) :
    ∃ answers sent registers clock' t',
      (accesses.mapM fun a => (Monitor.mk { options }).perform a.operation).run
          (device (Wire.port receive) pace) ⟨{ device := c }, clock, t⟩ =
        (.ok answers,
          ⟨{ device :=
              { c with
                registers
                jumps := (accesses.filterMap Access.target?).reverse ++ c.jumps } },
            clock', t'⟩) ∧
      Answered c.registers accesses answers ∧
      t'.accepted = sent.flatten.reverse ++ t.accepted ∧ List.Forall₂ Access.Sends accesses sent ∧
      c.carriedOut sent.flatten = accesses.map Access.command ∧
      ∀ address, registers.get address =
        (lastWritten? address accesses).getD (c.registers.get address) := by
  obtain ⟨answers, hanswers, htransmits⟩ := transmits_accesses (m := ⟨{ options }⟩)
    (Channel.patience_pos options) hidle hordinary
  obtain ⟨registers, hfold, hget⟩ := exists_foldl_access c accesses
  obtain ⟨clock', t', hrun, haccepted⟩ := htransmits clock t
  rw [hfold] at hrun
  refine ⟨answers, accesses.map (·.command.bytes), registers, clock', t', hrun, hanswers, haccepted,
    ?_, carriedOut_accesses hidle hordinary, hget⟩
  rw [List.forall₂_map_right_iff, List.forall₂_same]
  exact fun a _ => sends_command a

/-- A word that is written and read again, between others. -/
theorem memory_of_five_accesses :
    ∃ answers registers clock' t',
      ([.write 0x20000000 0xdeadbeef, .read 0x20000000, .jump 0x00400000, .read 0x20000004,
          .write 0x20000000 10].mapM fun a : Access =>
            (Monitor.mk { options := Wire.options }).perform a.operation).run
          (device (Wire.port receive) .simulated)
          ⟨{ device := { registers := ⟨[(0x20000004, 7)]⟩ } }, 0, {}⟩ =
        (.ok answers, ⟨{ device := { registers, jumps := [0x00400000] } }, clock', t'⟩) ∧
      answers[1]? = some (.word 0xdeadbeef) ∧ answers[3]? = some (.word 7) ∧
      registers.get 0x20000000 = 10 := by
  have hfirst : Ordinary 0x20000000 :=
    ⟨by decide, by decide, by decide, by decide, by decide, by decide⟩
  have hsecond : Ordinary 0x20000004 :=
    ⟨by decide, by decide, by decide, by decide, by decide, by decide⟩
  have hordinary : ∀ a ∈ [.write 0x20000000 0xdeadbeef, .read 0x20000000, .jump 0x00400000,
      .read 0x20000004, .write 0x20000000 10], Access.Ordinary a := by
    simp only [List.forall_mem_cons, List.not_mem_nil, false_imp_iff, implies_true, and_true]
    exact ⟨hfirst, hfirst, trivial, hsecond, hfirst⟩
  obtain ⟨answers, sent, registers, clock', t', hrun, hanswers, -, -, -, hget⟩ :=
    memory_faithful Wire.options .simulated (c := { registers := ⟨[(0x20000004, 7)]⟩ }) rfl hordinary
      0 {}
  exact ⟨answers, registers, clock', t', hrun, hanswers.answer_eq [_] _ _ rfl,
    hanswers.answer_eq [_, _, _] _ _ rfl, hget 0x20000000⟩

end Chip

end BadgeLink
