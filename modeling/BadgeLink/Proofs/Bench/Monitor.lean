import BadgeLink.Bench.Chip
import BadgeLink.Monitor.Client
import BadgeLink.Proofs.Bench.Run
import BadgeLink.Proofs.Monitor.Text
import BadgeLink.Proofs.Word

/-!
# The monitor of a simulated chip

A simulated chip understands the commands that a client sends: the line that a command makes is read
back as this command, and what the chip replies is what the client receives.

* `command_eq`: a line does what the command does that it makes, and `parse_text` says which this is.
* `feeds_command`: a chip between two commands carries out the command it is sent.
* `runs_readWord`, `runs_writeWord` and `runs_enter` are the laws of a client of the monitor.
-/

namespace BadgeLink

namespace Chip

open Monitor Bench

/-! ## Lines -/

theorem feeds_line (c : Chip) {line : List UInt8} (h : UInt8.ofNat '#'.toNat ∉ line) :
    Feeds receive line c [] { c with line := line.reverse ++ c.line } := by
  induction line generalizing c with
  | nil => exact .nil c
  | cons b line ih =>
    have hb : b ≠ UInt8.ofNat '#'.toNat := fun hb => h (hb ▸ List.mem_cons_self)
    have hfirst : receive b c = (.ok [], { c with line := b :: c.line }) := if_neg hb
    have hrest := ih { c with line := b :: c.line } fun hline => h (List.mem_cons_of_mem b hline)
    rw [List.reverse_cons, List.append_assoc]
    exact .cons hfirst hrest

/-! ## Digits -/

/-- The bytes of the eight digits of a word. -/
def digitBytes (w : UInt32) : List UInt8 :=
  asciiBytes (Hex.digits 8 w.toNat)

theorem length_digitBytes (w : UInt32) : (digitBytes w).length = 8 := by
  rw [digitBytes, asciiBytes, List.length_map, Hex.length_digits]

/-- Eight digits in a line are read back as the word they were written for. -/
theorem argument_digits {before : List UInt8} (after : List UInt8) (w : UInt32) {place : Nat}
    (hplace : before.length = place) :
    argument (before ++ digitBytes w ++ after) place = .ok w := by
  subst hplace
  have hfield : ((before ++ digitBytes w ++ after).drop before.length).take 8 = digitBytes w := by
    rw [List.append_assoc, List.drop_left, List.take_left' (length_digitBytes w)]
  have hfits : ¬(before ++ digitBytes w ++ after).length < before.length + 8 := by
    simp only [List.length_append, length_digitBytes]
    omega
  have hascii : ∀ c ∈ Hex.digits 8 w.toNat, c.toNat < 128 := fun c hc =>
    (Command.plain_of_argument (.inr (Hex.mem_digits hc))).1
  -- a plus sign in place of the first digit is read as well, so none may be among the digits
  have hplus : '+' ∉ Hex.digits 8 w.toNat := by
    intro h
    obtain ⟨k, hk, heq⟩ := Hex.mem_digits h
    exact Hex.digit_ne_plus hk heq.symm
  have hvalue := Hex.value_digits_word w
  rw [argument, if_neg hfits]
  dsimp only
  rw [hfield, digitBytes, Utf8.fault_asciiBytes hascii, map_ofNat_asciiBytes hascii]
  generalize Hex.digits 8 w.toNat = ds at hplus hvalue
  dsimp only
  split
  · next n hn =>
    split at hn
    · exact absurd List.mem_cons_self hplus
    · obtain rfl := Option.some.inj (hvalue.symm.trans hn)
      exact congrArg Except.ok UInt32.ofNat_toNat
  · next hn =>
    split at hn
    · exact absurd List.mem_cons_self hplus
    · cases hvalue.symm.trans hn

theorem expectComma_eq_ok {before : List UInt8} (after : List UInt8) (h : before.length = 9) :
    expectComma (before ++ UInt8.ofNat ','.toNat :: after) = .ok () := by
  have hcomma : (before ++ UInt8.ofNat ','.toNat :: after)[9]? = some (UInt8.ofNat ','.toNat) := by
    rw [← h, List.getElem?_append_right (Nat.le_refl _), Nat.sub_self]
    rfl
  rw [expectComma, hcomma]
  rfl

/-! ## Lines as commands -/

/-- The command that a line makes. -/
def parse (line : List UInt8) : Except Crash Command :=
  match line with
  | [] => .error (.indexOutOfRange 0 0)
  | letter :: _ =>
    match Char.ofNat letter.toNat with
    | 'N' => .ok .normalMode
    | 'w' => do
      expectComma line
      return .readWord (← argument line 1)
    | 'W' => do
      expectComma line
      let address ← argument line 1
      return .writeWord address (← argument line 10)
    | 'G' => return .go (← argument line 1)
    | _ => .error (.unexpectedCommand letter)

/-- What a chip replies to a command, and the chip afterwards. -/
def carryOut (c : Chip) : Command → Except Crash (List UInt8 × Chip)
  | .normalMode => .ok (if c.bootloader then acknowledgement else [], c)
  | .readWord address => do
    let (word, c) ← c.readWord address
    return (Word.littleEndian word, c)
  | .writeWord address value => return ([], ← c.writeWord address value)
  | .go address => .ok ([], { c with jumps := address :: c.jumps })

/-- A line does what the command does that it makes. -/
theorem command_eq (c : Chip) (line : List UInt8) : c.command line = parse line >>= c.carryOut := by
  unfold command parse
  cases line with
  | nil => rfl
  | cons letter rest =>
    dsimp only
    generalize Char.ofNat letter.toNat = ch
    by_cases hN : ch = 'N'
    · subst hN
      rfl
    by_cases hw : ch = 'w'
    · subst hw
      simp only [bind_assoc, pure_bind, carryOut]
    by_cases hW : ch = 'W'
    · subst hW
      simp only [bind_assoc, pure_bind, carryOut]
    by_cases hG : ch = 'G'
    · subst hG
      simp only [bind_assoc, pure_bind, carryOut]
      rfl
    · simp only
      rfl

theorem parse_read {line rest : List UInt8} {address : UInt32}
    (hline : line = UInt8.ofNat 'w'.toNat :: rest) (hcomma : expectComma line = .ok ())
    (haddress : argument line 1 = .ok address) : parse line = .ok (.readWord address) := by
  have hparse : parse line = (do
      expectComma line
      return .readWord (← argument line 1)) := by
    subst hline
    rfl
  rw [hparse, hcomma, haddress]
  rfl

theorem parse_write {line rest : List UInt8} {address value : UInt32}
    (hline : line = UInt8.ofNat 'W'.toNat :: rest) (hcomma : expectComma line = .ok ())
    (haddress : argument line 1 = .ok address) (hvalue : argument line 10 = .ok value) :
    parse line = .ok (.writeWord address value) := by
  have hparse : parse line = (do
      expectComma line
      let address ← argument line 1
      return .writeWord address (← argument line 10)) := by
    subst hline
    rfl
  rw [hparse, hcomma, haddress]
  show (argument line 10).bind _ = _
  rw [hvalue]
  rfl

/-- The line that a command makes is read back as this command. -/
theorem parse_text (m : Command) : parse (asciiBytes m.text) = .ok m := by
  cases m with
  | normalMode => rfl
  | readWord address =>
    have hline : asciiBytes (Command.readWord address).text =
        [UInt8.ofNat 'w'.toNat] ++ digitBytes address ++ [UInt8.ofNat ','.toNat] := by
      simp only [Command.text, digitBytes, asciiBytes, List.map_cons, List.map_append,
        List.cons_append, List.nil_append, List.map_nil]
    rw [hline]
    refine parse_read rfl (expectComma_eq_ok [] ?_) (argument_digits _ _ rfl)
    rw [List.length_append, length_digitBytes]
    rfl
  | writeWord address value =>
    have hline : asciiBytes (Command.writeWord address value).text =
        [UInt8.ofNat 'W'.toNat] ++ digitBytes address ++
          UInt8.ofNat ','.toNat :: digitBytes value := by
      simp only [Command.text, digitBytes, asciiBytes, List.map_cons, List.map_append,
        List.cons_append, List.nil_append]
    have hvalue : argument ([UInt8.ofNat 'W'.toNat] ++ digitBytes address ++
        UInt8.ofNat ','.toNat :: digitBytes value) 10 = .ok value := by
      have hplace : ([UInt8.ofNat 'W'.toNat] ++ digitBytes address ++
          [UInt8.ofNat ','.toNat]).length = 10 := by
        rw [List.length_append, List.length_append, length_digitBytes]
        rfl
      have h := argument_digits [] value hplace
      rw [List.append_nil, List.append_assoc _ [UInt8.ofNat ','.toNat]] at h
      exact h
    rw [hline]
    refine parse_write rfl (expectComma_eq_ok _ ?_) (argument_digits _ _ rfl) hvalue
    rw [List.length_append, length_digitBytes]
    rfl
  | go address =>
    have hline : asciiBytes (Command.go address).text =
        [UInt8.ofNat 'G'.toNat] ++ digitBytes address ++ [] := by
      simp only [Command.text, digitBytes, asciiBytes, List.map_cons, List.cons_append,
        List.nil_append, List.append_nil]
    have haddress : argument ([UInt8.ofNat 'G'.toNat] ++ digitBytes address ++ []) 1 =
        .ok address :=
      argument_digits [] address rfl
    rw [hline]
    show (argument ([UInt8.ofNat 'G'.toNat] ++ digitBytes address ++ []) 1).bind _ = _
    rw [haddress]
    rfl

/-! ## Commands carried out -/

variable {c c' : Chip}

/-- A chip between two commands carries out the command whose hash sign arrives. -/
theorem receive_hash (hidle : c.line = []) (m : Command) :
    receive (UInt8.ofNat '#'.toNat) { c with line := (asciiBytes m.text).reverse } =
      match c.carryOut m with
      | .ok (reply, c') => (.ok reply, c')
      | .error e => (.error e, c) := by
  have hchip : ({ c with line := [] } : Chip) = c := by
    rw [← hidle]
  rw [receive, if_pos rfl]
  simp only [List.reverse_reverse, hchip, command_eq, parse_text]
  rfl

theorem feeds_command {m : Command} {reply : List UInt8} (hidle : c.line = [])
    (h : c.carryOut m = .ok (reply, c')) : Feeds receive m.bytes c reply c' := by
  have htext := feeds_line c m.hash_notMem_text
  rw [hidle, List.append_nil] at htext
  have hlast : receive (UInt8.ofNat '#'.toNat) { c with line := (asciiBytes m.text).reverse } =
      (.ok reply, c') := by
    rw [receive_hash hidle, h]
  have hwhole := htext.append (.cons hlast (.nil c'))
  rw [List.nil_append, List.append_nil] at hwhole
  rw [Command.bytes_eq_text]
  exact hwhole

section Commands

variable {address value : UInt32}

theorem carryOut_normalMode (hmonitor : c.bootloader = true) :
    c.carryOut .normalMode = .ok (acknowledgement, c) := by
  rw [carryOut, if_pos hmonitor]

theorem carryOut_readWord (h : c.readWord address = .ok (value, c')) :
    c.carryOut (.readWord address) = .ok (Word.littleEndian value, c') := by
  rw [carryOut, h]
  rfl

theorem carryOut_writeWord (h : c.writeWord address value = .ok c') :
    c.carryOut (.writeWord address value) = .ok ([], c') := by
  rw [carryOut, h]
  rfl

end Commands

/-! ## Clients -/

section Clients

variable {pace : Pace} {m : Monitor} (hpatience : 0 < m.channel.patience) (hidle : c.line = [])

include hpatience hidle

theorem runs_issue {command : Command} {reply : List UInt8}
    (h : c.carryOut command = .ok (reply, c')) :
    Runs (Wire.port receive) pace (m.issue command) (onWire c [])
      fun _ w => w = onWire c' reply :=
  runs_send hpatience (feeds_command hidle h)

theorem runs_enter (hmonitor : c.bootloader = true) :
    Runs (Wire.port receive) pace m.enter (onWire c [])
      fun entered w => entered = true ∧ w = onWire c [] := by
  have hasked : Runs (Wire.port receive) pace
      ((m.issue .normalMode).bind fun _ => m.channel.receive acknowledgement.length) (onWire c [])
      fun data w => data = acknowledgement ∧ w = onWire c [] := by
    refine (runs_issue hpatience hidle (carryOut_normalMode hmonitor)).bind ?_
    intro _ _ hpost
    subst hpost
    rw [← List.append_nil acknowledgement]
    exact runs_receive hpatience rfl (by decide)
  refine runs_note_bind (hasked.attempt.bind ?_)
  intro _ _ hpost
  obtain ⟨_, rfl, rfl, rfl⟩ := hpost
  exact runs_ok ⟨rfl, rfl⟩

theorem runs_readWord {address value : UInt32} (h : c.readWord address = .ok (value, c')) :
    Runs (Wire.port receive) pace (m.readWord address) (onWire c [])
      fun word w => word = value ∧ w = onWire c' [] := by
  refine (runs_issue hpatience hidle (carryOut_readWord h)).bind ?_
  intro _ _ hpost
  subst hpost
  have hlength : (Word.littleEndian value).length = 4 := rfl
  rw [← List.append_nil (Word.littleEndian value)]
  refine (runs_receive hpatience hlength (by decide)).bind ?_
  intro _ _ hpost
  obtain ⟨rfl, rfl⟩ := hpost
  refine runs_note_bind (runs_ok ⟨?_, rfl⟩)
  exact Word.ofLittleEndian_littleEndian value

theorem runs_writeWord {address value : UInt32} (h : c.writeWord address value = .ok c') :
    Runs (Wire.port receive) pace (m.writeWord address value) (onWire c [])
      fun _ w => w = onWire c' [] :=
  runs_note_bind (runs_issue hpatience hidle (carryOut_writeWord h))

theorem runs_go {address : UInt32} :
    Runs (Wire.port receive) pace (m.go address) (onWire c [])
      fun _ w => w = onWire { c with jumps := address :: c.jumps } [] :=
  runs_note_bind (runs_issue hpatience hidle rfl)

end Clients

end Chip

end BadgeLink
