import BadgeLink.Proofs.Monitor.Event
import BadgeLink.Proofs.Text.Hex

/-!
# The text of commands

A command is a letter, digits and commas, and a hash sign. The letters stand nowhere else, and
neither does the hash sign, so a stream of commands can be read without knowing where it was cut:
every command that is found in the bytes of a conversation is one of those that were sent.

* `Command.eq_of_begins`: no command is the beginning of another.
* `exists_place_of_found`: a command that is found in the bytes of commands is one of them.
* `exists_of_found`: the commands in a stream are those of its trace, even if some broke off.
-/

namespace BadgeLink.Monitor

/-- The characters of a command except the closing hash sign. -/
def Command.text : Command → List Char
  | normalMode => ['N']
  | readWord address => 'w' :: Hex.digits 8 address.toNat ++ [',']
  | writeWord address value => 'W' :: Hex.digits 8 address.toNat ++ ',' :: Hex.digits 8 value.toNat
  | go address => 'G' :: Hex.digits 8 address.toNat

namespace Command

theorem bytes_eq_text (m : Command) : m.bytes = asciiBytes m.text ++ [UInt8.ofNat '#'.toNat] := by
  cases m <;>
    simp only [bytes, text, asciiBytes, List.map_cons, List.map_append, List.cons_append,
      List.append_assoc, List.map_nil, List.nil_append]

/-! ## Characters -/

/-- The letters with which commands begin. -/
def letters : List Char := ['N', 'w', 'W', 'G']

theorem text_eq (m : Command) : ∃ letter rest, m.text = letter :: rest ∧ letter ∈ letters ∧
    ∀ c ∈ rest, c = ',' ∨ ∃ k < 16, c = Hex.digit k := by
  cases m with
  | normalMode => exact ⟨_, _, rfl, by decide, List.forall_mem_nil _⟩
  | readWord address =>
    refine ⟨_, _, rfl, by decide, fun c hc => ?_⟩
    rcases List.mem_append.1 hc with hc | hc
    · exact .inr (Hex.mem_digits hc)
    · exact .inl (List.mem_singleton.1 hc)
  | writeWord address value =>
    refine ⟨_, _, rfl, by decide, fun c hc => ?_⟩
    rcases List.mem_append.1 hc with hc | hc
    · exact .inr (Hex.mem_digits hc)
    · rcases List.mem_cons.1 hc with hc | hc
      · exact .inl hc
      · exact .inr (Hex.mem_digits hc)
  | go address => exact ⟨_, _, rfl, by decide, fun c hc => .inr (Hex.mem_digits hc)⟩

theorem plain_of_argument {c : Char} (h : c = ',' ∨ ∃ k < 16, c = Hex.digit k) :
    c.toNat < 128 ∧ c ≠ '#' ∧ c ∉ letters := by
  have hall : ∀ k : Fin 16, Hex.digit k ∉ letters := by decide
  rcases h with rfl | ⟨k, hk, rfl⟩
  · decide
  · exact ⟨Hex.digit_toNat_lt hk, Hex.digit_ne_hash hk, hall ⟨k, hk⟩⟩

/-- The text of a command is ASCII without a hash sign. -/
theorem text_plain (m : Command) : ∀ c ∈ m.text, c.toNat < 128 ∧ c ≠ '#' := by
  have hall : ∀ c ∈ letters, c.toNat < 128 ∧ c ≠ '#' := by simp [letters]
  obtain ⟨letter, rest, htext, hletter, hrest⟩ := m.text_eq
  rw [htext]
  refine List.forall_mem_cons.2 ⟨hall letter hletter, fun c hc => ?_⟩
  obtain ⟨hascii, hhash, -⟩ := plain_of_argument (hrest c hc)
  exact ⟨hascii, hhash⟩

theorem hash_notMem_text (m : Command) : UInt8.ofNat '#'.toNat ∉ asciiBytes m.text := by
  rw [mem_asciiBytes_iff (by decide) fun c hc => (m.text_plain c hc).1]
  exact fun h => (m.text_plain '#' h).2 rfl

/-- A command has one of the letters at its beginning and none behind it. -/
theorem bytes_eq_cons (m : Command) : ∃ b rest, m.bytes = b :: rest ∧ b ∈ asciiBytes letters ∧
    ∀ x ∈ rest, x ∉ asciiBytes letters := by
  have hascii : ∀ c ∈ letters, c.toNat < 128 := by simp [letters]
  obtain ⟨letter, rest, htext, hletter, hrest⟩ := m.text_eq
  refine ⟨UInt8.ofNat letter.toNat, asciiBytes rest ++ [UInt8.ofNat '#'.toNat], ?_, ?_, ?_⟩
  · rw [bytes_eq_text, htext]
    rfl
  · exact (mem_asciiBytes_iff (hascii letter hletter) hascii).2 hletter
  · intro x hx
    rcases List.mem_append.1 hx with hx | hx
    · obtain ⟨c, hc, rfl⟩ := List.mem_map.1 hx
      obtain ⟨hplain, -, hne⟩ := plain_of_argument (hrest c hc)
      exact fun h => hne ((mem_asciiBytes_iff hplain hascii).1 h)
    · rw [List.mem_singleton.1 hx]
      decide

/-! ## One reading -/

theorem text_inj {m m' : Command} (h : m.text = m'.text) : m = m' := by
  cases m <;> cases m' <;>
    simp only [text, List.cons_append, List.cons.injEq, Char.reduceEq, false_and, true_and] at h ⊢
  case readWord address address' =>
    rw [Hex.digits_word_inj (List.append_cancel_right h)]
  case writeWord address value address' value' =>
    obtain ⟨haddress, hrest⟩ := List.append_inj h (by simp)
    rw [Hex.digits_word_inj haddress, Hex.digits_word_inj (List.cons.inj hrest).2]
  case go address address' =>
    rw [Hex.digits_word_inj h]

theorem eq_of_bytes {m m' : Command} (h : m.bytes = m'.bytes) : m = m' := by
  have hascii : ∀ m : Command, ∀ c ∈ m.text, c.toNat < 128 := fun m c hc => (m.text_plain c hc).1
  rw [bytes_eq_text, bytes_eq_text] at h
  have hread := congrArg (List.map fun b => Char.ofNat b.toNat) (List.append_cancel_right h)
  rw [map_ofNat_asciiBytes (hascii m), map_ofNat_asciiBytes (hascii m')] at hread
  exact text_inj hread

/-- No command is the beginning of another. -/
theorem eq_of_begins {m m' : Command} (h : m.bytes <+: m'.bytes) : m = m' := by
  obtain ⟨rest, hrest⟩ := h
  rcases List.eq_nil_or_concat rest with rfl | ⟨rest, last, rfl⟩
  · rw [List.append_nil] at hrest
    exact eq_of_bytes hrest
  · -- the hash sign that closes `m` would stand in the text of the other command
    rw [List.concat_eq_append, ← List.append_assoc, bytes_eq_text m', bytes_eq_text m] at hrest
    have htext := (List.append_inj' hrest rfl).1
    have hmem : UInt8.ofNat '#'.toNat ∈ asciiBytes m'.text := by
      rw [← htext]
      simp
    exact absurd hmem m'.hash_notMem_text

/-- Bytes begin with one command only. -/
theorem eq_of_append {m m' : Command} {x y : List UInt8} (h : m.bytes ++ x = m'.bytes ++ y) :
    m = m' := by
  have hleft := List.prefix_append m.bytes x
  have hright := h ▸ List.prefix_append m'.bytes y
  rcases List.prefix_or_prefix_of_prefix hleft hright with h | h
  · exact eq_of_begins h
  · exact (eq_of_begins h).symm

theorem bytes_ne_nil (m : Command) : m.bytes ≠ [] := by
  obtain ⟨b, rest, hbytes, -⟩ := m.bytes_eq_cons
  rw [hbytes]
  exact List.cons_ne_nil _ _

/-- The bytes of commands can be read in one way. -/
theorem flatMap_bytes_inj {ms ms' : List Command}
    (h : ms.flatMap Command.bytes = ms'.flatMap Command.bytes) : ms = ms' := by
  induction ms generalizing ms' with
  | nil =>
    cases ms' with
    | nil => rfl
    | cons m' ms' => exact absurd (List.append_eq_nil_iff.1 h.symm).1 m'.bytes_ne_nil
  | cons m ms ih =>
    cases ms' with
    | nil => exact absurd (List.append_eq_nil_iff.1 h).1 m.bytes_ne_nil
    | cons m' ms' =>
      rw [List.flatMap_cons, List.flatMap_cons] at h
      obtain rfl := eq_of_append h
      rw [ih (List.append_cancel_left h)]

end Command

/-! ## Streams of commands -/

theorem Event.sent_begins {e : Event} (h : e.WF) :
    e.sent = [] ∨ ∃ m, e.command? = some m ∧ e.sent <+: m.bytes := by
  cases e with
  | whole m answer => exact .inr ⟨m, rfl, List.prefix_refl _⟩
  | broken m sent answer => exact .inr ⟨m, rfl, h.1⟩
  | told p => exact .inl rfl

/-- What was sent of a command has a letter at its beginning and none behind it. -/
theorem letter_of_begins {b : UInt8} {rest : List UInt8} {m : Command} (h : b :: rest <+: m.bytes) :
    b ∈ asciiBytes Command.letters ∧ ∀ x ∈ rest, x ∉ asciiBytes Command.letters := by
  obtain ⟨letter, others, hbytes, hletter, hothers⟩ := m.bytes_eq_cons
  rw [hbytes, List.cons_prefix_cons] at h
  obtain ⟨rfl, hrest⟩ := h
  exact ⟨hletter, fun x hx => hothers x (hrest.subset hx)⟩

theorem eq_nil_of_letter {before part : List UInt8} {b : UInt8} {m : Command}
    (h : before ++ b :: part <+: m.bytes) (hb : b ∈ asciiBytes Command.letters) : before = [] := by
  cases before with
  | nil => rfl
  | cons x before => exact absurd hb ((letter_of_begins h).2 b (by simp))

/-- A command that is found in the bytes of commands is one of them, and what is in front of it are
the bytes of those before it. -/
theorem exists_place_of_found {m : Command} {before after : List UInt8} {ms : List Command}
    (h : ms.flatMap Command.bytes = before ++ (m.bytes ++ after)) :
    ∃ lead rest, ms = lead ++ m :: rest ∧ before = lead.flatMap Command.bytes := by
  induction ms generalizing before with
  | nil => exact absurd (List.append_eq_nil_iff.1 (List.append_eq_nil_iff.1 h.symm).2).1 m.bytes_ne_nil
  | cons m' ms ih =>
    have hlater : ∀ more, ms.flatMap Command.bytes = more ++ (m.bytes ++ after) →
        ∃ lead rest, m' :: ms = lead ++ m :: rest ∧
          m'.bytes ++ more = lead.flatMap Command.bytes := by
      intro more h
      obtain ⟨lead, rest, rfl, rfl⟩ := ih h
      exact ⟨m' :: lead, rest, rfl, rfl⟩
    rw [List.flatMap_cons] at h
    rcases List.append_eq_append_iff.1 h with ⟨more, rfl, hrest⟩ | ⟨part, hbytes, hrest⟩
    · exact hlater more hrest
    · cases part with
      | nil =>
        rw [List.append_nil] at hbytes
        rw [← hbytes, ← List.append_nil m'.bytes]
        exact hlater [] hrest.symm
      | cons b part =>
        -- the letter of `m` stands in `m'`, which it can only begin
        obtain ⟨letter, others, hm, hletter, -⟩ := m.bytes_eq_cons
        have hb : b = letter := by
          rw [hm] at hrest
          exact (List.cons.inj hrest).1.symm
        have hbegins : before ++ b :: part <+: m'.bytes := hbytes ▸ List.prefix_refl _
        obtain rfl := eq_nil_of_letter hbegins (hb ▸ hletter)
        rw [List.nil_append] at hbytes
        rw [← hbytes] at hrest
        obtain rfl := Command.eq_of_append hrest
        exact ⟨[], ms, rfl, rfl⟩

theorem letter_of_stream {evs : List Event} (hwf : ∀ e ∈ evs, e.WF) {b : UInt8} {rest : List UInt8}
    (h : evs.flatMap Event.sent = b :: rest) : b ∈ asciiBytes Command.letters := by
  induction evs with
  | nil => cases h
  | cons e evs ih =>
    obtain ⟨he, hevs⟩ := List.forall_mem_cons.1 hwf
    rw [List.flatMap_cons] at h
    rcases e.sent_begins he with hnil | ⟨m, -, hbegins⟩
    · rw [hnil] at h
      exact ih hevs h
    · cases hsent : e.sent with
      | nil =>
        rw [hsent] at h
        exact ih hevs h
      | cons x xs =>
        rw [hsent] at h hbegins
        obtain ⟨rfl, -⟩ := List.cons.inj h
        exact (letter_of_begins hbegins).1

/-- A command at the beginning of a stream is the first of which something was sent. -/
theorem command_of_begins {e : Event} {evs : List Event} (he : e.WF) (hevs : ∀ e ∈ evs, e.WF)
    (hsome : e.sent ≠ []) {m : Command} (h : m.bytes <+: e.sent ++ evs.flatMap Event.sent) :
    e.command? = some m := by
  obtain ⟨m', hm', hbegins⟩ := (e.sent_begins he).resolve_left hsome
  obtain ⟨after, hafter⟩ := h
  have hsame : m = m' := by
    rcases List.append_eq_append_iff.1 hafter with ⟨more, hsent, -⟩ | ⟨more, hbytes, hstream⟩
    · exact Command.eq_of_begins ((List.prefix_append m.bytes more).trans (hsent ▸ hbegins))
    · cases more with
      | nil =>
        rw [List.append_nil] at hbytes
        exact Command.eq_of_begins (hbytes ▸ hbegins)
      | cons x more =>
        -- the next event begins with a letter, and there is none behind the first of `m`
        have hwhole : e.sent ++ x :: more <+: m.bytes := hbytes ▸ List.prefix_refl _
        exact absurd (eq_nil_of_letter hwhole (letter_of_stream hevs hstream)) hsome
  rw [hm', hsame]

/-- A command that is found in a stream is one of those that were sent. -/
theorem exists_of_found {evs : List Event} (hwf : ∀ e ∈ evs, e.WF) {m : Command}
    (h : m.bytes <:+: evs.flatMap Event.sent) : ∃ e ∈ evs, e.command? = some m := by
  obtain ⟨letter, others, hbytes, hletter, -⟩ := m.bytes_eq_cons
  induction evs with
  | nil =>
    rw [hbytes] at h
    cases List.infix_nil.1 h
  | cons e evs ih =>
    obtain ⟨he, hevs⟩ := List.forall_mem_cons.1 hwf
    have hlater : m.bytes <:+: evs.flatMap Event.sent → ∃ e' ∈ e :: evs, e'.command? = some m := by
      intro h
      obtain ⟨e', he', hm⟩ := ih hevs h
      exact ⟨e', List.mem_cons_of_mem _ he', hm⟩
    obtain ⟨before, after, hsplit⟩ := h
    rw [List.flatMap_cons, List.append_assoc] at hsplit
    rcases List.append_eq_append_iff.1 hsplit with ⟨part, hsent, hrest⟩ | ⟨part, -, hrest⟩
    · cases part with
      | nil => exact hlater ⟨[], after, hrest⟩
      | cons b part =>
        have hb : b = letter := by
          rw [hbytes] at hrest
          exact (List.cons.inj hrest).1.symm
        have hsome : e.sent ≠ [] := by
          rw [hsent]
          simp
        obtain ⟨m', -, hbegins⟩ := (e.sent_begins he).resolve_left hsome
        rw [hsent] at hbegins
        rw [eq_nil_of_letter hbegins (hb ▸ hletter), List.nil_append] at hsent
        rw [← hsent] at hrest
        exact ⟨e, List.mem_cons_self, command_of_begins he hevs hsome ⟨after, hrest⟩⟩
    · exact hlater ⟨part, after, by rw [hrest, List.append_assoc]⟩

/-- Every command that is found in what a program sent is one to which it keeps. -/
theorem Keeps.found {α : Type} {P : Command → Prop} {p : Link α} (h : Keeps P p)
    {es : List (Exchange Link.interface)} {o : Outcome LinkError α} (hplays : p.Plays es o)
    {m : Command} (hm : m.bytes <:+: Link.accepted es) : P m := by
  obtain ⟨evs, hevs, hevery⟩ := h.every hplays
  rw [hevs.accepted_eq] at hm
  obtain ⟨e, he, hcommand⟩ := exists_of_found hevs.wf hm
  exact hevery e he m hcommand

/-- What was sent whole is found in the stream. -/
theorem found_of_mem {evs : List Event} {m : Command} {answer : List UInt8}
    (h : .whole m answer ∈ evs) : m.bytes <:+: evs.flatMap Event.sent := by
  obtain ⟨before, after, rfl⟩ := List.append_of_mem h
  refine ⟨before.flatMap Event.sent, after.flatMap Event.sent, ?_⟩
  rw [List.flatMap_append, List.flatMap_cons, List.append_assoc]
  rfl

end BadgeLink.Monitor
