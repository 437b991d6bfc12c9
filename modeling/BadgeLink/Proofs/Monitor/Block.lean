import BadgeLink.Proofs.Bench.Transcript
import BadgeLink.Proofs.Monitor.Client

/-!
# Blocks that are read

A block is read word by word, each after the answer to the one before has arrived. It ends with the
bytes of the answers, as many as were asked for, or with the first word that is not read: because
the read fails, or because there is no such address, in which case nothing is sent for it.

* `WordsRead` is the conversation of the words that are read, `Halts` that of the word that is not,
  and `BlockRead` puts them together.
* `plays_readWords` and `WordsRead.plays`: the two directions for a series of words.
* `readBlock_outcome`: the conversations of a block and their ends, for every size.
-/

namespace BadgeLink.Monitor

open Dialogue Link

variable {m : Monitor} {address place : UInt32}

/-! ## Addresses -/

/-- How the address of the `k`-th word overflows: in the product if the offset does not fit, and in
the sum otherwise. -/
def overflow (k : Nat) : Crash :=
  if 4 * k < 0x100000000 then .addOverflow else .multiplyOverflow

theorem overflow_ne_stalled (k : Nat) : overflow k ≠ .stalled := by
  unfold overflow
  split <;> decide

/-- The address that is computed is the exact one, if this is a word. -/
theorem wordAddress_of_toNat {k : Nat} (h : place.toNat = address.toNat + 4 * k) :
    wordAddress address k = .ok place := by
  have hlt := place.toNat_lt
  have hplace : wordAddress address k = .ok (address + UInt32.ofNat k * 4) :=
    wordAddress_of_lt (by omega) (by omega)
  have hexact := (toNat_wordAddress (by omega) hplace).1
  rw [hplace, UInt32.toNat_inj.1 (hexact.trans h.symm)]

/-- The first word whose address does not exist is found out, be it at the product. -/
theorem wordAddress_of_beyond {k : Nat} (hk : 4 * k ≤ 0x100000000)
    (h : 0x100000000 ≤ address.toNat + 4 * k) : wordAddress address k = .error (overflow k) := by
  by_cases hlt : 4 * k < 0x100000000
  · rw [wordAddress_of_le hlt h, overflow, if_pos hlt]
  · have hmul : Word.mul (UInt32.ofNat k) 4 = .error .multiplyOverflow := by
      have hfour : (4 : UInt32).toNat = 4 := rfl
      refine if_neg ?_
      rw [UInt32.toNat_ofNat', hfour]
      omega
    rw [overflow, if_neg hlt]
    show (Word.mul (UInt32.ofNat k) 4).bind (Word.add address) = _
    rw [hmul]
    rfl

/-! ## Single words -/

/-- A word is read: the command is sent whole, and then these four bytes are the answer. -/
structure WordRead (m : Monitor) (place : UInt32) (es : List (Exchange interface))
    (data : List UInt8) : Prop where
  length_eq : data.length = 4
  plays : (m.readWord place).Plays es (.ok (Word.ofLittleEndian data))
  signals_eq : signals es = (Event.whole (.readWord place) data).signals

variable {es es' : List (Exchange interface)}

theorem exists_wordRead {value : UInt32} (h : (m.readWord place).Plays es (.ok value)) :
    ∃ data, WordRead m place es data ∧ value = Word.ofLittleEndian data := by
  obtain ⟨_, hevs, data, hdata, rfl, rfl⟩ := m.traces_readWord place es _ h
  exact ⟨data, ⟨hdata, h, hevs.signals_eq.trans (List.append_nil _)⟩, rfl⟩

theorem crash_of_readWord {c : Crash} (h : (m.readWord place).Plays es (.crash c)) :
    c = .stalled := by
  obtain ⟨_, -, hcut, -⟩ := m.traces_readWord place es _ h
  cases hcut
  rfl

/-- The `k`-th word from an address on is not read: the read stops, or the address does not exist
and nothing is said about it. -/
inductive Halts (m : Monitor) (address : UInt32) (k : Nat) :
    List (Exchange interface) → Stop → Prop where
  | unread {place : UInt32} {es : List (Exchange interface)} {s : Stop}
      (hplace : place.toNat = address.toNat + 4 * k)
      (hread : (m.readWord place).Plays es s.outcome) : Halts m address k es s
  | beyond (h : 0x100000000 ≤ address.toNat + 4 * k) : Halts m address k [] (.crash (overflow k))

/-! ## Series of words -/

/-- Words are read one after the other, from the `n`-th after an address on, with these answers. -/
inductive WordsRead (m : Monitor) (address : UInt32) :
    (n : Nat) → List (Exchange interface) → (answers : List (List UInt8)) → Prop where
  | nil (n : Nat) : WordsRead m address n [] []
  | cons {n : Nat} {place : UInt32} {es es' : List (Exchange interface)} {data : List UInt8}
      {answers : List (List UInt8)} (hplace : place.toNat = address.toNat + 4 * n)
      (hread : WordRead m place es data) (hrest : WordsRead m address (n + 1) es' answers) :
      WordsRead m address n (es ++ es') (data :: answers)

variable {n left : Nat} {answers : List (List UInt8)} {got : List UInt32}

theorem readWords_succ (h : place.toNat = address.toNat + 4 * n) :
    m.readWords address (left + 1) n got = (m.readWord place).bind fun value =>
      m.readWords address left (n + 1) (value :: got) := by
  rw [readWords, wordAddress_of_toNat h]
  rfl

theorem readWords_beyond (hn : 4 * n ≤ 0x100000000) (h : 0x100000000 ≤ address.toNat + 4 * n) :
    m.readWords address (left + 1) n got = done (.crash (overflow n)) := by
  rw [readWords, wordAddress_of_beyond hn h]
  rfl

theorem WordsRead.length_eq (h : WordsRead m address n es answers) :
    ∀ data ∈ answers, data.length = 4 := by
  induction h with
  | nil => exact List.forall_mem_nil _
  | cons _ hread _ ih => exact List.forall_mem_cons.2 ⟨hread.length_eq, ih⟩

/-- The words that were read have addresses. -/
theorem WordsRead.address_lt (h : WordsRead m address n es answers) :
    ∀ k < answers.length, address.toNat + 4 * (n + k) < 0x100000000 := by
  induction h with
  | nil => exact fun k hk => absurd hk (Nat.not_lt_zero k)
  | @cons n place es es' data answers hplace _ _ ih =>
    intro k hk
    cases k with
    | zero => exact hplace ▸ place.toNat_lt
    | succ k =>
      rw [Nat.add_comm k, ← Nat.add_assoc]
      exact ih k (Nat.lt_of_succ_lt_succ hk)

/-- So the offset of the next word is a word, or the first multiple of four that is none. That is why
the product never wraps before the sum is found to overflow. -/
theorem WordsRead.offset_le (h : WordsRead m address n es answers) (hn : 4 * n ≤ 0x100000000) :
    4 * (n + answers.length) ≤ 0x100000000 := by
  cases hlen : answers.length with
  | zero => exact hn
  | succ k =>
    have hlast := h.address_lt k (hlen ▸ Nat.lt_succ_self k)
    omega

/-- The words that were read were sent and answered in turn. -/
theorem WordsRead.signals_eq (h : WordsRead m address n es answers) :
    signals es = (wordReads address n answers).flatMap Event.signals := by
  induction h with
  | nil => rfl
  | cons hplace hread _ ih =>
    rw [wordReads, ← wordAddress_eq_ok (wordAddress_of_toNat hplace), Link.signals_append,
      hread.signals_eq, ih, List.flatMap_cons]

/-- Every conversation of a series of words. -/
theorem plays_readWords {o : Outcome LinkError (List UInt32)} (hn : 4 * n ≤ 0x100000000)
    (h : (m.readWords address left n got).Plays es o) :
    ∃ answers es₁ es₂, es = es₁ ++ es₂ ∧ WordsRead m address n es₁ answers ∧
      ((answers.length = left ∧ es₂ = [] ∧
        o = .ok (got.reverse ++ answers.map Word.ofLittleEndian)) ∨
      answers.length < left ∧ ∃ s, Halts m address (n + answers.length) es₂ s ∧ o = s.outcome) := by
  -- the words before the `n`-th have addresses, which bounds the offset of this one
  induction left generalizing n got es with
  | zero =>
    cases h
    exact ⟨[], [], [], rfl, .nil n, .inl ⟨rfl, rfl, by rw [List.map_nil, List.append_nil]⟩⟩
  | succ left ih =>
    by_cases hbeyond : 0x100000000 ≤ address.toNat + 4 * n
    · rw [readWords_beyond hn hbeyond] at h
      cases h
      exact ⟨[], [], [], rfl, .nil n, .inr ⟨Nat.succ_pos left, _, .beyond hbeyond, rfl⟩⟩
    · have hlt := Nat.not_le.1 hbeyond
      have hplace := (toNat_wordAddress (n := n) (by omega)
        (wordAddress_of_lt (by omega) hlt)).1
      rw [readWords_succ hplace] at h
      rcases plays_bind_iff_stop.1 h with ⟨value, es₁, es₂, rfl, hread, hrest⟩ | ⟨s, hread, rfl⟩
      · obtain ⟨data, hword, rfl⟩ := exists_wordRead hread
        obtain ⟨answers, es₂, es₃, rfl, hwords, hend⟩ := ih (n := n + 1) (by omega) hrest
        refine ⟨data :: answers, es₁ ++ es₂, es₃, (List.append_assoc ..).symm,
          .cons hplace hword hwords, ?_⟩
        rw [List.length_cons]
        rcases hend with ⟨hall, hnil, ho⟩ | ⟨hmore, s, hhalts, ho⟩
        · refine .inl ⟨congrArg Nat.succ hall, hnil, ?_⟩
          rw [ho, List.reverse_cons, List.append_assoc]
          rfl
        · refine .inr ⟨Nat.succ_lt_succ hmore, s, ?_, ho⟩
          rwa [Nat.add_comm answers.length, ← Nat.add_assoc]
      · exact ⟨[], [], es, rfl, .nil n, .inr ⟨Nat.succ_pos left, s,
          .unread hplace hread, rfl⟩⟩

/-- A series goes on behind the words that were read. -/
theorem WordsRead.plays {o : Outcome LinkError (List UInt32)} (h : WordsRead m address n es answers)
    (left : Nat) (got : List UInt32)
    (hrest : (m.readWords address left (n + answers.length)
      ((answers.map Word.ofLittleEndian).reverse ++ got)).Plays es' o) :
    (m.readWords address (left + answers.length) n got).Plays (es ++ es') o := by
  induction h generalizing got with
  | nil => exact hrest
  | @cons n place es₁ es₂ data answers hplace hread _ ih =>
    rw [List.length_cons, ← Nat.add_assoc, readWords_succ hplace, List.append_assoc]
    refine plays_bind_iff_stop.2 (.inl ⟨_, es₁, es₂ ++ es', rfl, hread.plays, ih _ ?_⟩)
    rw [List.length_cons, Nat.add_comm answers.length, ← Nat.add_assoc, List.map_cons,
      List.reverse_cons, List.append_assoc] at hrest
    exact hrest

/-- And it ends at a word that is not. -/
theorem Halts.plays {s : Stop} (hn : 4 * n ≤ 0x100000000) (h : Halts m address n es s) :
    (m.readWords address (left + 1) n got).Plays es s.outcome := by
  cases h with
  | unread hplace hread =>
    rw [readWords_succ hplace]
    exact plays_bind_iff_stop.2 (.inr ⟨s, hread, rfl⟩)
  | beyond h =>
    rw [readWords_beyond hn h]
    exact .done _

/-! ## Blocks -/

/-- The conversation of a block of a size. -/
inductive BlockRead (m : Monitor) (address : UInt32) (size : Nat) :
    List (Exchange interface) → Outcome LinkError (List UInt8) → Prop where
  /-- All words were read, and the block is the first bytes of their answers. -/
  | read {es : List (Exchange interface)} {answers : List (List UInt8)}
      (hwords : WordsRead m address 0 es answers) (hall : answers.length = (size + 3) / 4) :
      BlockRead m address size es (.ok (answers.flatten.take size))
  /-- The words before one of them were read, and this one is not. -/
  | halted {es es' : List (Exchange interface)} {answers : List (List UInt8)}
      {s : Stop} (hwords : WordsRead m address 0 es answers)
      (hmore : answers.length < (size + 3) / 4) (hhalts : Halts m address answers.length es' s) :
      BlockRead m address size (es ++ es') s.outcome

variable {size : Nat}

/-- A block whose buffer can be reserved is made of a series of words. -/
theorem readBlock_eq (hsize : size ≤ 0x4000000000000000) :
    m.readBlock address size = (m.readWords address ((size + 3) / 4) 0 []).bind fun values =>
      done (.ok ((values.flatMap Word.littleEndian).take size)) := by
  have hadd : Size.add size 3 = .ok (size + 3) := if_pos (by unfold Size.bound; omega)
  have hreserve : Size.reserve ((size + 3) / 4 * 4) = .ok () :=
    if_pos (by unfold Size.largestBuffer; omega)
  rw [readBlock, hadd]
  show (liftM (Size.reserve ((size + 3) / 4 * 4)) : Link Unit).bind _ = _
  rw [hreserve]
  rfl

/-- These are all conversations of a block. -/
theorem plays_readBlock_iff (hsize : size ≤ 0x4000000000000000)
    {o : Outcome LinkError (List UInt8)} :
    (m.readBlock address size).Plays es o ↔ BlockRead m address size es o := by
  rw [readBlock_eq hsize]
  constructor
  · intro h
    rcases plays_bind_iff_stop.1 h with ⟨values, es, _, rfl, hread, hdone⟩ | ⟨s, hread, rfl⟩
    · cases hdone
      obtain ⟨answers, es, _, rfl, hwords, ⟨hall, rfl, ho⟩ | ⟨-, s, -, ho⟩⟩ :=
        plays_readWords (Nat.zero_le _) hread
      · obtain rfl : values = answers.map Word.ofLittleEndian := by
          cases ho
          rfl
        rw [flatMap_littleEndian hwords.length_eq, List.append_nil, List.append_nil]
        exact .read hwords hall
      · exact absurd ho.symm (s.outcome_ne_ok values)
    · obtain ⟨answers, es, es', rfl, hwords, ⟨-, -, ho⟩ | ⟨hmore, s', hhalts, ho⟩⟩ :=
        plays_readWords (Nat.zero_le _) hread
      · exact absurd ho (s.outcome_ne_ok _)
      · rw [Stop.outcome_inj ho]
        rw [Nat.zero_add] at hhalts
        exact .halted hwords hmore hhalts
  · intro h
    cases h with
    | @read es answers hwords hall =>
      have hplays := hwords.plays 0 [] (.done _)
      rw [Nat.zero_add, hall, List.append_nil, List.append_nil, List.reverse_reverse] at hplays
      refine plays_bind_iff_stop.2 (.inl ⟨_, es, [], (List.append_nil es).symm, hplays, ?_⟩)
      rw [flatMap_littleEndian hwords.length_eq]
      exact .done _
    | @halted es es' answers s hwords hmore hhalts =>
      obtain ⟨left, hleft⟩ := Nat.exists_eq_add_of_lt hmore
      have hoffset : 4 * answers.length ≤ 0x100000000 := by
        have h := hwords.offset_le (Nat.zero_le _)
        rwa [Nat.zero_add] at h
      have hplays := hwords.plays (left + 1) []
        ((Nat.zero_add answers.length).symm ▸ hhalts.plays hoffset)
      have hcount : (size + 3) / 4 = left + 1 + answers.length := by omega
      rw [hcount]
      exact plays_bind_iff_stop.2 (.inr ⟨s, hplays, rfl⟩)

variable {o : Outcome LinkError (List UInt8)}

/-- A block that was read is the beginning of the answers, and these came in turn. -/
theorem BlockRead.of_ok {block : List UInt8} (h : BlockRead m address size es o)
    (ho : o = .ok block) :
    ∃ answers : List (List UInt8), answers.length = (size + 3) / 4 ∧
      (∀ data ∈ answers, data.length = 4) ∧
      (∀ k < answers.length, address.toNat + 4 * k < 0x100000000) ∧
      signals es = (wordReads address 0 answers).flatMap Event.signals ∧
      block = answers.flatten.take size := by
  cases h with
  | @read es answers hwords hall =>
    refine ⟨answers, hall, hwords.length_eq, fun k hk => ?_, hwords.signals_eq,
      (Outcome.ok.inj ho).symm⟩
    have hlt := hwords.address_lt k hk
    rwa [Nat.zero_add] at hlt
  | @halted _ _ _ s => exact absurd ho (s.outcome_ne_ok block)

/-- A block fails with the error of the first word that fails, and no other is tried. -/
theorem BlockRead.of_error {e : LinkError} (h : BlockRead m address size es o)
    (ho : o = .error e) :
    ∃ answers es₁ es₂ place, es = es₁ ++ es₂ ∧ WordsRead m address 0 es₁ answers ∧
      answers.length < (size + 3) / 4 ∧ place.toNat = address.toNat + 4 * answers.length ∧
      (m.readWord place).Plays es₂ (.error e) := by
  cases h with
  | read => cases ho
  | @halted es es' answers s hwords hmore hhalts =>
    obtain rfl : s = .error e := Stop.outcome_inj ho
    cases hhalts with
    | unread hplace hread => exact ⟨answers, es, es', _, rfl, hwords, hmore, hplace, hread⟩

/-- A block whose words were read up to one without an address crashes there, and no other crash
comes from arithmetic. -/
theorem crashes_readBlock_iff (hsize : size ≤ 0x4000000000000000)
    (h : (m.readBlock address size).Plays es o) :
    (∃ c, c ≠ .stalled ∧ o = .crash c) ↔
      ∃ answers, WordsRead m address 0 es answers ∧ answers.length < (size + 3) / 4 ∧
        0x100000000 ≤ address.toNat + 4 * answers.length := by
  constructor
  · rintro ⟨c, hc, rfl⟩
    generalize hcrash : Outcome.crash c = o at h
    cases (plays_readBlock_iff hsize).1 h with
    | read => cases hcrash
    | @halted es es' answers s hwords hmore hhalts =>
      obtain rfl : s = .crash c := Stop.outcome_inj hcrash.symm
      cases hhalts with
      | unread hplace hread => exact absurd (crash_of_readWord hread) hc
      | beyond hbeyond =>
        rw [List.append_nil]
        exact ⟨answers, hwords, hmore, hbeyond⟩
  · rintro ⟨answers, hwords, hmore, hbeyond⟩
    have hcrash := (plays_readBlock_iff hsize).2 (.halted hwords hmore (.beyond hbeyond))
    rw [List.append_nil] at hcrash
    exact ⟨overflow answers.length, overflow_ne_stalled _, h.unique hcrash⟩

/-- A block of up to `2 ^ 62` bytes has exactly the conversations of `BlockRead`. If it ends with a
value, every word of it was read and answered, one after the other, each of them has an address, and
the value is the beginning of the answers. If it ends with an error, that is the error of the first
word that failed, and nothing comes after it. It crashes exactly if the words before one without an
address were read, and nothing is said for this one. -/
theorem readBlock_outcome (m : Monitor) (address : UInt32) {size : Nat}
    (hsize : size ≤ 0x4000000000000000) (es : List (Exchange interface))
    (o : Outcome LinkError (List UInt8)) :
    ((m.readBlock address size).Plays es o ↔ BlockRead m address size es o) ∧
    ((m.readBlock address size).Plays es o →
      (∀ block, o = .ok block → ∃ answers : List (List UInt8), answers.length = (size + 3) / 4 ∧
        (∀ data ∈ answers, data.length = 4) ∧
        (∀ k < answers.length, address.toNat + 4 * k < 0x100000000) ∧
        signals es = (wordReads address 0 answers).flatMap Event.signals ∧
        block = answers.flatten.take size) ∧
      (∀ e, o = .error e → ∃ answers es₁ es₂ place, es = es₁ ++ es₂ ∧
        WordsRead m address 0 es₁ answers ∧ answers.length < (size + 3) / 4 ∧
        place.toNat = address.toNat + 4 * answers.length ∧
        (m.readWord place).Plays es₂ (.error e)) ∧
      ((∃ c, c ≠ .stalled ∧ o = .crash c) ↔
        ∃ answers, WordsRead m address 0 es answers ∧ answers.length < (size + 3) / 4 ∧
          0x100000000 ≤ address.toNat + 4 * answers.length)) := by
  refine ⟨plays_readBlock_iff hsize, fun h => ?_⟩
  have hread := (plays_readBlock_iff hsize).1 h
  exact ⟨fun _ => hread.of_ok, fun _ => hread.of_error, crashes_readBlock_iff hsize h⟩

/-- Of a block of two words, the second lies beyond the last address. -/
theorem block_beyond_last_address :
    8 ≤ 0x4000000000000000 ∧ ∃ es,
      ((⟨{}⟩ : Monitor).readBlock 0xfffffffc 8).Plays es (.crash .addOverflow) ∧
      ∃ answers, WordsRead ⟨{}⟩ 0xfffffffc 0 es answers ∧ answers.length < 2 ∧
        0x100000000 ≤ 0xfffffffc + 4 * answers.length := by
  have hsize : 8 ≤ 0x4000000000000000 := by decide
  obtain ⟨es, o, b, hplays, hholds⟩ := exists_plays_of_total
    (Bench.total_script (.scripted 1000)) ((⟨{}⟩ : Monitor).readBlock 0xfffffffc 8)
    ⟨{ deliveries := [.bytes [1, 2, 3, 4]] }, 0, {}⟩
  have hrun : (((⟨{}⟩ : Monitor).readBlock 0xfffffffc 8).run
      (Bench.device Script.port (.scripted 1000))
      ⟨{ deliveries := [.bytes [1, 2, 3, 4]] }, 0, {}⟩).1 = .crash .addOverflow := rfl
  obtain rfl : o = .crash .addOverflow :=
    (congrArg Prod.fst (hplays.run_eq hholds)).symm.trans hrun
  obtain ⟨-, -, hcrash⟩ := (readBlock_outcome ⟨{}⟩ 0xfffffffc hsize es _).2 hplays
  exact ⟨hsize, es, hplays, hcrash.1 ⟨_, by decide, rfl⟩⟩

end BadgeLink.Monitor
