import BadgeLink.Monitor.Client
import BadgeLink.Proofs.Link.Channel
import BadgeLink.Proofs.Monitor.Event
import BadgeLink.Proofs.Word

/-!
# Traces of the boot monitor's clients

Each operation of a client is one command, or a few of them in a fixed order. It succeeds exactly
when all of them went through, and otherwise ends with the one that broke off.
-/

namespace BadgeLink.Monitor

open Dialogue Link Channel

/-- A command broke off. -/
def Breaks (c : Command) (evs : List Event) (s : Stop) : Prop :=
  s.Cut ∧ ∃ sent answer, evs = [.broken c sent answer]

theorem over_breaks_sent {c : Command} {ss : List Signal} {s : Stop}
    (h : SentPart c.bytes ss s) : Over (Breaks c) ss s := by
  obtain ⟨hs, part, hpart, rfl⟩ := h
  refine ⟨[.broken c part []], ⟨?_, ?_⟩, hs, part, [], rfl⟩
  · simp only [List.flatMap_cons, List.flatMap_nil, Event.signals, List.map_nil, List.append_nil]
  · intro e he
    rw [List.mem_singleton.1 he]
    exact ⟨hpart, .inl rfl⟩

theorem over_breaks_got {c : Command} {ss : List Signal} {s : Stop}
    (h : GotPart c.answerLength ss s) : Over (Breaks c) (c.bytes.map .sent ++ ss) s := by
  obtain ⟨hs, part, hpart, rfl⟩ := h
  exact .single (e := .broken c c.bytes part) ⟨List.prefix_refl _, .inr ⟨rfl, hpart⟩⟩
    ⟨hs, c.bytes, part, rfl⟩

/-- A command without an answer went through, or broke off. -/
theorem traces_issue (m : Monitor) {c : Command} (hc : c.answerLength = 0) :
    Traces (m.issue c) (fun evs _ => evs = [.whole c []]) (Breaks c) := by
  refine (m.channel.ensures_send c.bytes).mono ?_ ?_
  · intro ss _ hpost
    subst hpost
    refine ⟨[.whole c []], ⟨?_, ?_⟩, rfl⟩
    · simp only [List.flatMap_cons, List.flatMap_nil, Event.signals, List.map_nil, List.append_nil]
    · intro e he
      rw [List.mem_singleton.1 he]
      exact hc.symm
  · exact fun _ _ => over_breaks_sent

/-- A command and its answer went through, or broke off. -/
theorem traces_issue_receive (m : Monitor) {c : Command} (count : Nat)
    (hc : c.answerLength = count) (hcount : count ≤ Size.largestBuffer) :
    Traces ((m.issue c).bind fun _ => m.channel.receive count)
      (fun evs data => data.length = count ∧ evs = [.whole c data]) (Breaks c) := by
  subst hc
  refine (m.channel.ensures_send c.bytes).bind (fun _ _ => over_breaks_sent) ?_
  intro ss _ hpost
  subst hpost
  refine (m.channel.ensures_receive hcount).mono ?_ ?_
  · intro ss data hpost
    obtain ⟨hdata, rfl⟩ := hpost
    exact .single (e := .whole c data) hdata ⟨hdata, rfl⟩
  · exact fun _ _ => over_breaks_got

/-- The word that is read is the one whose bytes were received. -/
theorem traces_readWord (m : Monitor) (address : UInt32) :
    Traces (m.readWord address)
      (fun evs w => ∃ data, data.length = 4 ∧ evs = [.whole (.readWord address) data] ∧
        w = Word.ofLittleEndian data)
      (Breaks (.readWord address)) := by
  unfold readWord
  simp only [bind_eq]
  rw [← bind_bind]
  refine (m.traces_issue_receive 4 rfl (by decide)).bind (fun _ _ h => h) ?_
  intro evs data hpost
  obtain ⟨hdata, rfl⟩ := hpost
  exact traces_note_bind (traces_ok ⟨data, hdata, rfl, rfl⟩)

theorem traces_writeWord (m : Monitor) (address value : UInt32) :
    Traces (m.writeWord address value) (fun evs _ => evs = [.whole (.writeWord address value) []])
      (Breaks (.writeWord address value)) :=
  traces_note_bind (m.traces_issue rfl)

theorem traces_go (m : Monitor) (address : UInt32) :
    Traces (m.go address) (fun evs _ => evs = [.whole (.go address) []]) (Breaks (.go address)) :=
  traces_note_bind (m.traces_issue rfl)

/-- The monitor counts as entered only if it sent its acknowledgement, and no other command than
the switch of modes is sent. -/
theorem traces_enter (m : Monitor) :
    Traces m.enter
      (fun evs entered =>
        if entered then evs = [.whole .normalMode acknowledgement]
        else ∃ e, evs = [e] ∧ e.command? = some .normalMode)
      fun evs _ => ∃ e, evs = [e] ∧ e.command? = some .normalMode := by
  unfold enter
  simp only [bind_eq]
  refine traces_note_bind ?_
  refine ((m.traces_issue_receive (c := .normalMode) 2 rfl (by decide)).attempt).bind ?_ ?_
  · intro ss s hpost
    obtain ⟨-, evs, hevs, -, sent, answer, rfl⟩ := hpost
    exact ⟨_, hevs, _, rfl, rfl⟩
  · intro ss r h
    cases r with
    | ok data =>
      obtain ⟨evs, hevs, -, rfl⟩ := h
      dsimp only
      split
      · next hdata =>
        subst hdata
        exact ensures_ok ⟨_, (List.append_nil ss).symm ▸ hevs, rfl⟩
      · exact ensures_note_bind
          (ensures_ok ⟨_, (List.append_nil ss).symm ▸ hevs, _, rfl, rfl⟩)
    | error e =>
      obtain ⟨evs, hevs, -, sent, answer, rfl⟩ := h
      exact ensures_note_bind
        (ensures_ok ⟨_, (List.append_nil ss).symm ▸ hevs, _, rfl, rfl⟩)

/-! ## Commands of a client -/

theorem keeps_writeWord {P : Command → Prop} (m : Monitor) {address value : UInt32}
    (h : P (.writeWord address value)) : Keeps P (m.writeWord address value) := by
  refine (m.traces_writeWord address value).mono ?_ ?_
  · rintro _ _ rfl
    exact everyCommand_whole h []
  · rintro _ _ ⟨-, sent, answer, rfl⟩
    exact everyCommand_broken h sent answer

theorem keeps_readWord {P : Command → Prop} (m : Monitor) {address : UInt32}
    (h : P (.readWord address)) : Keeps P (m.readWord address) := by
  refine (m.traces_readWord address).mono ?_ ?_
  · rintro _ _ ⟨data, -, rfl, -⟩
    exact everyCommand_whole h data
  · rintro _ _ ⟨-, sent, answer, rfl⟩
    exact everyCommand_broken h sent answer

theorem stores_writeWord (m : Monitor) (address value : UInt32) :
    Stores (fun place => place = address.toNat) (m.writeWord address value) := by
  refine (m.traces_writeWord address value).mono ?_ fun _ _ _ => trivial
  rintro evs _ rfl place rfl
  exact ⟨address, value, rfl, List.mem_singleton.2 rfl⟩

/-! ## Blocks -/

/-- The reads of consecutive words, from the `n`-th after an address on, with their answers. -/
def wordReads (address : UInt32) : (n : Nat) → (answers : List (List UInt8)) → List Event
  | _, [] => []
  | n, data :: rest => .whole (.readWord (address + UInt32.ofNat n * 4)) data ::
      wordReads address (n + 1) rest

theorem wordReads_concat (address : UInt32) (n : Nat) (answers : List (List UInt8))
    (last : List UInt8) :
    wordReads address n (answers ++ [last]) = wordReads address n answers ++
      [.whole (.readWord (address + UInt32.ofNat (n + answers.length) * 4)) last] := by
  induction answers generalizing n with
  | nil => rfl
  | cons data rest ih =>
    rw [List.length_cons, Nat.add_comm rest.length 1, ← Nat.add_assoc]
    exact congrArg (_ :: ·) (ih (n + 1))

theorem everyCommand_wordReads {P : Command → Prop} {address : UInt32}
    (h : ∀ n, P (.readWord (address + UInt32.ofNat n * 4))) (answers : List (List UInt8)) (n : Nat) :
    EveryCommand P (wordReads address n answers) := by
  induction answers generalizing n with
  | nil => exact everyCommand_nil
  | cons data rest ih =>
    exact (everyCommand_whole (h n) data).append (ih (n + 1))

/-- What happened of the reads of `words` consecutive words that did not all go through: the next
address does not exist, or the next read broke off. -/
def ReadsStop (address : UInt32) (words n : Nat) (evs : List Event) (s : Stop) : Prop :=
  ∃ answers : List (List UInt8), (∀ data ∈ answers, data.length = 4) ∧
    answers.length < words ∧
    (((∃ c, s = .crash c) ∧ evs = wordReads address n answers) ∨
      (s.Cut ∧ ∃ sent answer, evs = wordReads address n answers ++
        [.broken (.readWord (address + UInt32.ofNat (n + answers.length) * 4)) sent answer]))

theorem ReadsStop.cons {address : UInt32} {words n : Nat} {evs : List Event} {s : Stop}
    {data : List UInt8} (hdata : data.length = 4) (h : ReadsStop address words (n + 1) evs s) :
    ReadsStop address (words + 1) n
      (.whole (.readWord (address + UInt32.ofNat n * 4)) data :: evs) s := by
  obtain ⟨answers, hanswers, hlen, h⟩ := h
  refine ⟨data :: answers, List.forall_mem_cons.2 ⟨hdata, hanswers⟩, Nat.succ_lt_succ hlen, ?_⟩
  rcases h with ⟨hs, rfl⟩ | ⟨hs, sent, answer, rfl⟩
  · exact .inl ⟨hs, rfl⟩
  · refine .inr ⟨hs, sent, answer, ?_⟩
    rw [List.length_cons, Nat.add_comm answers.length 1, ← Nat.add_assoc]
    rfl

theorem wordAddress_eq_ok {address place : UInt32} {n : Nat}
    (h : wordAddress address n = .ok place) : place = address + UInt32.ofNat n * 4 := by
  unfold wordAddress at h
  cases hm : Word.mul (UInt32.ofNat n) 4 with
  | error c => rw [hm] at h; cases h
  | ok offset =>
    rw [hm] at h
    rw [(Word.add_eq_ok h).1, (Word.mul_eq_ok hm).1]

/-- The offset of the `n`-th word fits. -/
theorem mul_four_eq_ok {n : Nat} (hn : 4 * n < 0x100000000) :
    Word.mul (UInt32.ofNat n) 4 = .ok (UInt32.ofNat n * 4) ∧ (UInt32.ofNat n * 4).toNat = 4 * n := by
  have hfour : (4 : UInt32).toNat = 4 := rfl
  have hword : (UInt32.ofNat n).toNat = n := by
    rw [UInt32.toNat_ofNat']
    omega
  refine ⟨if_pos ?_, ?_⟩
  · rw [hword, hfour]
    omega
  · rw [UInt32.toNat_mul, hword, hfour]
    omega

theorem toNat_wordAddress {address place : UInt32} {n : Nat} (hn : n < 0x100000000)
    (h : wordAddress address n = .ok place) :
    place.toNat = address.toNat + 4 * n ∧ address.toNat + 4 * n < 0x100000000 := by
  unfold wordAddress at h
  cases hmul : Word.mul (UInt32.ofNat n) 4 with
  | error c => rw [hmul] at h; cases h
  | ok offset =>
    rw [hmul] at h
    obtain ⟨rfl, hfits⟩ := Word.mul_eq_ok hmul
    obtain ⟨rfl, hplace⟩ := Word.add_eq_ok h
    have hfour : (4 : UInt32).toNat = 4 := rfl
    rw [UInt32.toNat_ofNat', Nat.mod_eq_of_lt hn, hfour] at hfits
    obtain ⟨-, hoffset⟩ := mul_four_eq_ok (n := n) (by omega)
    rw [hoffset] at hplace
    rw [UInt32.toNat_add, hoffset]
    omega

theorem wordAddress_of_lt {address : UInt32} {n : Nat} (hn : 4 * n < 0x100000000)
    (h : address.toNat + 4 * n < 0x100000000) :
    wordAddress address n = .ok (address + UInt32.ofNat n * 4) := by
  obtain ⟨hmul, hoffset⟩ := mul_four_eq_ok hn
  show (Word.mul (UInt32.ofNat n) 4).bind (Word.add address) = _
  rw [hmul]
  exact if_pos (hoffset ▸ h)

theorem wordAddress_of_le {address : UInt32} {n : Nat} (hn : 4 * n < 0x100000000)
    (h : 0x100000000 ≤ address.toNat + 4 * n) :
    wordAddress address n = .error .addOverflow := by
  obtain ⟨hmul, hoffset⟩ := mul_four_eq_ok hn
  show (Word.mul (UInt32.ofNat n) 4).bind (Word.add address) = _
  rw [hmul]
  exact if_neg (Nat.not_lt.2 (hoffset ▸ h))

theorem traces_readWords (m : Monitor) (address : UInt32) (left n : Nat) (got : List UInt32) :
    Traces (m.readWords address left n got)
      (fun evs values => ∃ answers : List (List UInt8), answers.length = left ∧
        (∀ data ∈ answers, data.length = 4) ∧ evs = wordReads address n answers ∧
        values = got.reverse ++ answers.map Word.ofLittleEndian)
      (ReadsStop address left n) := by
  induction left generalizing n got with
  | zero => exact traces_ok ⟨[], rfl, List.forall_mem_nil _, rfl, (List.append_nil _).symm⟩
  | succ left ih =>
    refine traces_lift_bind (fun place hplace => ?_) fun c _ => ?_
    · rw [wordAddress_eq_ok hplace]
      refine (m.traces_readWord _).bind ?_ ?_
      · intro evs s hpost
        obtain ⟨hs, sent, answer, rfl⟩ := hpost
        exact ⟨[], List.forall_mem_nil _, Nat.succ_pos _, .inr ⟨hs, sent, answer, rfl⟩⟩
      · intro evs w hpost
        obtain ⟨data, hdata, rfl, rfl⟩ := hpost
        refine (ih (n + 1) (Word.ofLittleEndian data :: got)).mono ?_ fun _ _ => .cons hdata
        intro evs values hpost
        obtain ⟨answers, rfl, hanswers, rfl, rfl⟩ := hpost
        refine ⟨data :: answers, rfl, List.forall_mem_cons.2 ⟨hdata, hanswers⟩, rfl, ?_⟩
        rw [List.reverse_cons, List.append_assoc]
        rfl
    · exact ⟨[], List.forall_mem_nil _, Nat.succ_pos _, .inl ⟨⟨c, rfl⟩, rfl⟩⟩

theorem length_flatten_of_four {answers : List (List UInt8)}
    (h : ∀ data ∈ answers, data.length = 4) : answers.flatten.length = 4 * answers.length := by
  induction answers with
  | nil => rfl
  | cons data rest ih =>
    obtain ⟨hdata, hrest⟩ := List.forall_mem_cons.1 h
    rw [List.flatten_cons, List.length_append, hdata, ih hrest, List.length_cons]
    omega

/-- The bytes of the words that answers of four bytes make are the bytes of the answers. -/
theorem flatMap_littleEndian {answers : List (List UInt8)} (h : ∀ data ∈ answers, data.length = 4) :
    (answers.map Word.ofLittleEndian).flatMap Word.littleEndian = answers.flatten := by
  induction answers with
  | nil => rfl
  | cons data rest ih =>
    obtain ⟨hdata, hrest⟩ := List.forall_mem_cons.1 h
    rw [List.map_cons, List.flatMap_cons, List.flatten_cons, ih hrest,
      Word.littleEndian_ofLittleEndian hdata]

/-- A block is the first bytes of the answers to its reads. Before the first of them there may be a
crash. -/
theorem traces_readBlock (m : Monitor) (address : UInt32) (size : Nat) :
    Traces (m.readBlock address size)
      (fun evs block => ∃ answers : List (List UInt8), answers.length = (size + 3) / 4 ∧
        (∀ data ∈ answers, data.length = 4) ∧ evs = wordReads address 0 answers ∧
        block = answers.flatten.take size)
      fun evs s => ReadsStop address ((size + 3) / 4) 0 evs s ∨ evs = [] ∧ ∃ c, s = .crash c := by
  refine traces_lift_bind (fun padded hpadded => ?_) fun c _ => .inr ⟨rfl, c, rfl⟩
  refine traces_lift_bind (fun _ _ => ?_) fun c _ => .inr ⟨rfl, c, rfl⟩
  obtain rfl := Size.add_eq_ok hpadded
  refine (m.traces_readWords address _ 0 []).bind (fun _ _ => .inl) ?_
  intro evs values hpost
  obtain ⟨answers, hlen, hanswers, rfl, rfl⟩ := hpost
  refine traces_ok ⟨answers, hlen, hanswers, List.append_nil _, ?_⟩
  rw [List.reverse_nil, List.nil_append, flatMap_littleEndian hanswers]

end BadgeLink.Monitor
