import BadgeLink.Proofs.Flash.Spelling

/-!
# Places in a spelling

Where in the bytes of a spelling an act stands. The spelling of an act is the write that it makes, if
it makes one, and then reads, so the writes that are found in the bytes are those of the acts, in
their order, and each shows which act it belongs to.

* `PlacedAt`: some bytes end where an act begins.
* `Spells.placed`: a write that is found in the bytes of a spelling stands at the place of an act that
  makes it.
* `PlacedAt.write_eq`: there is no other write at the place of an act that makes one.
-/

namespace BadgeLink.Flash

open Monitor

variable {base : UInt32} {acts acts' : List Act} {ms ms' : List Monitor.Command} {a : Act}

/-! ## Parts of a spelling -/

theorem Spells.append (h : Spells base acts ms) (h' : Spells base acts' ms') :
    Spells base (acts ++ acts') (ms ++ ms') := by
  induction h with
  | nil => exact h'
  | report p _ ih => exact ih.report p
  | command c arg more _ ih =>
    rw [List.append_assoc]
    exact ih.command c arg more
  | store address value _ ih => exact ih.store address value
  | compare window offset words expected _ ih =>
    rw [List.append_assoc]
    exact ih.compare window offset words expected

theorem Spells.exists_cons (h : Spells base (a :: acts) ms) :
    ∃ own rest, ms = own ++ rest ∧ Spells base [a] own ∧ Spells base acts rest := by
  cases h with
  | report p h => exact ⟨[], _, rfl, Spells.nil.report p, h⟩
  | command c arg more h =>
    refine ⟨_, _, ?_, Spells.nil.command c arg more, h⟩
    rw [List.append_nil]
  | store address value h => exact ⟨[_], _, rfl, Spells.nil.store address value, h⟩
  | compare window offset words expected h =>
    refine ⟨_, _, ?_, Spells.nil.compare window offset words expected, h⟩
    rw [List.append_nil]

/-- A spelling of two lists of acts is a spelling of the first and then one of the second. -/
theorem Spells.exists_append (h : Spells base (acts ++ acts') ms) :
    ∃ lead rest, ms = lead ++ rest ∧ Spells base acts lead ∧ Spells base acts' rest := by
  induction acts generalizing ms with
  | nil => exact ⟨[], ms, rfl, .nil, h⟩
  | cons a acts ih =>
    obtain ⟨own, rest, rfl, hown, h⟩ := h.exists_cons
    obtain ⟨lead, rest, rfl, hlead, hrest⟩ := ih h
    exact ⟨own ++ lead, rest, (List.append_assoc ..).symm, hown.append hlead, hrest⟩

/-! ## Writes -/

/-- The write of a word. -/
def ofWrite (write : UInt32 × UInt32) : Monitor.Command :=
  .writeWord write.1 write.2

/-- The write that a monitor command makes, if it makes one. -/
def write? : Monitor.Command → Option (UInt32 × UInt32)
  | .writeWord address value => some (address, value)
  | .normalMode | .readWord _ | .go _ => none

/-- The write that an act makes, if it makes one. -/
def Act.write? (base : UInt32) : Act → Option (UInt32 × UInt32)
  | .command c arg => some (registerAt base .command, c.word arg)
  | .store address value => some (address, value)
  | .report _ | .compare .. => none

/-- The spelling of an act is the write that it makes, if it makes one, and then reads. -/
theorem Spells.eq_write_append {own : List Monitor.Command} (h : Spells base [a] own) :
    ∃ reads, (∀ m ∈ reads, write? m = none) ∧
      own = ((a.write? base).map ofWrite).toList ++ reads := by
  cases h with
  | report p h =>
    cases h
    exact ⟨[], List.forall_mem_nil _, rfl⟩
  | command c arg more h =>
    cases h
    refine ⟨List.replicate (more + 1) (.readWord (registerAt base .status)), ?_, ?_⟩
    · intro m hm
      rw [List.eq_of_mem_replicate hm]
      rfl
    · rw [List.append_nil, ← Command.word_eq]
      rfl
  | store address value h =>
    cases h
    exact ⟨[], List.forall_mem_nil _, rfl⟩
  | compare window offset words expected h =>
    cases h
    refine ⟨_, ?_, List.append_nil _⟩
    intro m hm
    obtain ⟨j, -, rfl⟩ := List.mem_map.1 hm
    rfl

/-- The writes among the commands that spell acts are those of the acts, in their order. -/
theorem Spells.writes (h : Spells base acts ms) :
    ms.filterMap write? = acts.filterMap (Act.write? base) := by
  induction acts generalizing ms with
  | nil =>
    cases h
    rfl
  | cons a acts ih =>
    obtain ⟨own, rest, rfl, hown, hrest⟩ := h.exists_cons
    obtain ⟨reads, hreads, rfl⟩ := hown.eq_write_append
    rw [List.filterMap_append, List.filterMap_append, List.filterMap_eq_nil_iff.2 hreads, ih hrest,
      List.append_nil, List.filterMap_cons]
    cases a.write? base <;> rfl

/-- A write among the commands that spell acts is made by one of them, and what is in front of it
spells the acts before that. -/
theorem Spells.exists_act {lead rest : List Monitor.Command} {write : UInt32 × UInt32}
    (h : Spells base acts (lead ++ ofWrite write :: rest)) :
    ∃ earlier a later, acts = earlier ++ a :: later ∧ Spells base earlier lead ∧
      a.write? base = some write := by
  induction acts generalizing lead with
  | nil =>
    generalize hms : lead ++ ofWrite write :: rest = ms at h
    cases h
    cases (List.append_eq_nil_iff.1 hms).2
  | cons a acts ih =>
    obtain ⟨own, more, hms, hown, h⟩ := h.exists_cons
    obtain ⟨reads, hreads, hsplit⟩ := hown.eq_write_append
    have hnone : ofWrite write ∉ reads := fun hmem => nomatch hreads _ hmem
    have hlater : ∀ {lead'}, lead = own ++ lead' → more = lead' ++ ofWrite write :: rest →
        ∃ earlier a' later, a :: acts = earlier ++ a' :: later ∧ Spells base earlier lead ∧
          a'.write? base = some write := by
      rintro lead' rfl rfl
      obtain ⟨earlier, a', later, rfl, hlead, ha'⟩ := ih h
      exact ⟨a :: earlier, a', later, rfl, hown.append hlead, ha'⟩
    cases ha : a.write? base with
    | none =>
      rw [ha] at hsplit
      obtain ⟨lead', hlead, hmore⟩ := eq_append_of_notMem (hsplit ▸ hnone) hms.symm
      exact hlater hlead hmore
    | some own' =>
      rw [ha] at hsplit
      subst hsplit
      cases lead with
      | nil =>
        obtain ⟨hhead, -⟩ := List.cons.inj hms
        obtain ⟨haddress, hvalue⟩ := Monitor.Command.writeWord.inj hhead
        exact ⟨[], a, acts, rfl, .nil, by rw [ha, Prod.ext haddress hvalue]⟩
      | cons m lead =>
        obtain ⟨rfl, htail⟩ := List.cons.inj hms
        obtain ⟨lead', rfl, hmore⟩ := eq_append_of_notMem hnone htail.symm
        exact hlater rfl hmore

/-! ## Places -/

/-- These bytes spell the acts before this one. -/
def PlacedAt (base : UInt32) (acts : List Act) (a : Act) (before : List UInt8) : Prop :=
  ∃ earlier later lead, acts = earlier ++ a :: later ∧ Spells base earlier lead ∧
    before = lead.flatMap Command.bytes

theorem PlacedAt.mem {before : List UInt8} (h : PlacedAt base acts a before) :
    a ∈ acts := by
  obtain ⟨earlier, later, -, rfl, -⟩ := h
  exact List.mem_append_right _ List.mem_cons_self

/-- The write that an act makes is found at a place of the act. -/
theorem Spells.exists_place (h : Spells base acts ms) (ha : a ∈ acts) {write : UInt32 × UInt32}
    (hwrite : a.write? base = some write) :
    ∃ before, PlacedAt base acts a before ∧
      before ++ (ofWrite write).bytes <+: ms.flatMap Command.bytes := by
  obtain ⟨earlier, later, rfl⟩ := List.append_of_mem ha
  obtain ⟨lead, rest, rfl, hlead, hrest⟩ := h.exists_append
  obtain ⟨own, rest, rfl, hown, -⟩ := hrest.exists_cons
  obtain ⟨reads, -, rfl⟩ := hown.eq_write_append
  refine ⟨lead.flatMap Command.bytes, ⟨earlier, later, lead, rfl, hlead, rfl⟩, ?_⟩
  rw [hwrite, List.flatMap_append]
  exact (List.prefix_append_right_inj _).2 (List.prefix_append _ _)

section Places

variable {before : List UInt8} {write : UInt32 × UInt32} (h : Spells base acts ms)
  (hfound : before ++ (ofWrite write).bytes <+: ms.flatMap Command.bytes)

include h hfound

/-- A write that is found in the bytes of a spelling stands at the place of an act that makes it. -/
theorem Spells.placed : ∃ a, PlacedAt base acts a before ∧ a.write? base = some write := by
  obtain ⟨after, hbytes⟩ := hfound
  rw [List.append_assoc] at hbytes
  obtain ⟨lead, rest, rfl, hbefore⟩ := exists_place_of_found hbytes.symm
  obtain ⟨earlier, a, later, hacts, hlead, ha⟩ := h.exists_act
  exact ⟨a, ⟨earlier, later, lead, hacts, hlead, hbefore⟩, ha⟩

/-- The write at the place of an act is the one that the act makes. -/
theorem PlacedAt.write_eq (hplace : PlacedAt base acts a before) {own : UInt32 × UInt32}
    (ha : a.write? base = some own) : own = write := by
  obtain ⟨earlier, later, lead, rfl, hlead, rfl⟩ := hplace
  obtain ⟨after, hbytes⟩ := hfound
  rw [List.append_assoc] at hbytes
  obtain ⟨lead', rest, rfl, hsame⟩ := exists_place_of_found hbytes.symm
  obtain rfl := Command.flatMap_bytes_inj hsame
  -- the spelling has as many writes before the place as the acts have
  have hwrites := h.writes
  rw [List.filterMap_append, List.filterMap_append, hlead.writes] at hwrites
  have htail := List.append_cancel_left hwrites
  rw [List.filterMap_cons_some (f := Act.write? base) ha] at htail
  exact (List.cons.inj htail).1.symm

end Places

end BadgeLink.Flash
