import BadgeLink.Proofs.Flash.Controller

/-!
# Descriptions of a flash

What a client knows of the description that it accepted: the controller delivered it after the
command that asks for it, and its entries passed every check. Until then nothing is written but
that command.

* `Descriptor.Plausible` collects the checks.
* `Described` is the trace of asking for a description and getting it.
* `traces_connect`: a controller that was connected to has a plausible description that was asked
  for in this way.
-/

namespace BadgeLink.Flash

open Dialogue Monitor

/-- The description passes every check that is made when it is read. -/
structure Descriptor.Plausible (d : Descriptor) : Prop where
  pageSize_pos : 0 < d.pageSize.toNat
  pageSize_mod : d.pageSize.toNat % 4 = 0
  planes_pos : 0 < d.planes.length
  planes_le : d.planes.length ≤ min (d.size.toNat / d.pageSize.toNat) 1024
  locks_le : d.locks.length ≤ min (d.size.toNat / d.pageSize.toNat) 1024
  pagesPerSector_eq : d.pagesPerSector = Flash.pagesPerSector

/-- The words in which a controller delivers a description. -/
def Descriptor.words (d : Descriptor) : List UInt32 :=
  [d.id, d.size, d.pageSize, UInt32.ofNat d.planes.length] ++ d.planes ++
    UInt32.ofNat d.locks.length :: d.locks

/-- Reads of the result register with their answers. -/
def results (base : UInt32) (answers : List (List UInt8)) : List Event :=
  answers.map (.whole (.readWord (registerAt base .result)))

/-- The trace of asking for a description and getting it. -/
def Described (base : UInt32) (d : Descriptor) (evs : List Event) : Prop :=
  ∃ asked answers, evs = asked ++ results base answers ∧
    Act.Done base (.command .getDescriptor 0) asked ∧ answers.map Word.ofLittleEndian = d.words

/-- A command that may be used before a description is accepted: it reads a word, or writes the
flash command that asks for the description. -/
def Asks (base : UInt32) (m : Monitor.Command) : Prop :=
  (∃ address, m = .readWord address) ∨
    m = .writeWord (registerAt base .command) (Command.getDescriptor.word 0)

theorem asks_results (base : UInt32) (answers : List (List UInt8)) :
    EveryCommand (Asks base) (results base answers) :=
  everyCommand_map (.inl ⟨_, rfl⟩) answers

theorem asks_asking {base : UInt32} {evs : List Event} {r : Option Stop}
    (h : Follows base [.command .getDescriptor 0] evs r) : EveryCommand (Asks base) evs := by
  refine h.uses.mono ?_
  rintro m ⟨a, ha, hm⟩
  rw [List.mem_singleton.1 ha] at hm
  rcases hm with rfl | rfl
  · exact .inr rfl
  · exact .inl ⟨_, rfl⟩

theorem Described.asks {base : UInt32} {d : Descriptor} {evs : List Event}
    (h : Described base d evs) : EveryCommand (Asks base) evs := by
  obtain ⟨asked, answers, rfl, hasked, -⟩ := h
  exact (asks_asking (follows_single.2 hasked)).append (asks_results base answers)

namespace Controller

variable (c : Controller)

/-! ## Reading a description -/

theorem traces_readResult :
    Traces c.readResult
      (fun evs w => ∃ data, evs = results c.base [data] ∧ w = Word.ofLittleEndian data)
      fun evs _ => EveryCommand (Asks c.base) evs := by
  refine (c.traces_readRegister .result).mono ?_ ?_
  · intro evs w hpost
    obtain ⟨data, -, rfl, rfl⟩ := hpost
    exact ⟨data, rfl, rfl⟩
  · rintro evs s (⟨-, sent, answer, rfl⟩ | ⟨rfl, -⟩)
    · exact everyCommand_broken (.inl ⟨_, rfl⟩) _ _
    · exact everyCommand_nil

theorem traces_readResults (left : Nat) (got : List UInt32) :
    Traces (c.readResults left got)
      (fun evs values => ∃ answers : List (List UInt8), answers.length = left ∧
        evs = results c.base answers ∧ values = got.reverse ++ answers.map Word.ofLittleEndian)
      fun evs _ => EveryCommand (Asks c.base) evs := by
  induction left generalizing got with
  | zero => exact traces_ok ⟨[], rfl, rfl, (List.append_nil _).symm⟩
  | succ left ih =>
    refine c.traces_readResult.bind (fun _ _ h => h) ?_
    intro evs w hpost
    obtain ⟨data, rfl, rfl⟩ := hpost
    refine (ih (Word.ofLittleEndian data :: got)).mono ?_ ?_
    · intro evs values hpost
      obtain ⟨answers, rfl, rfl, rfl⟩ := hpost
      refine ⟨data :: answers, rfl, rfl, ?_⟩
      rw [List.reverse_cons, List.append_assoc]
      rfl
    · exact fun evs _ h => (asks_results _ _).append h

theorem toNat_most (size pageSize : UInt32) :
    (min (size / pageSize) maxEntries).toNat = min (size.toNat / pageSize.toNat) 1024 := by
  have hquot : (size / pageSize).toNat = size.toNat / pageSize.toNat := UInt32.toNat_div ..
  have hmax : maxEntries.toNat = 1024 := rfl
  rw [← hquot, ← hmax]
  show (if size / pageSize ≤ maxEntries then size / pageSize else maxEntries).toNat = _
  split
  · next h => exact (Nat.min_eq_left (UInt32.le_iff_toNat_le.1 h)).symm
  · next h =>
    exact (Nat.min_eq_right (Nat.le_of_lt (UInt32.lt_iff_toNat_lt.1 (UInt32.not_le.1 h)))).symm

theorem most_lt_iff {size pageSize count : UInt32} :
    min (size / pageSize) maxEntries < count ↔
      min (size.toNat / pageSize.toNat) 1024 < count.toNat := by
  rw [UInt32.lt_iff_toNat_lt, toNat_most]

/-- A list of results has as many entries as were asked for. -/
theorem traces_readList (count : UInt32) :
    Traces (c.readResults count.toNat [])
      (fun evs values => ∃ answers : List (List UInt8), evs = results c.base answers ∧
        values = answers.map Word.ofLittleEndian ∧ values.length = count.toNat)
      fun evs _ => EveryCommand (Asks c.base) evs := by
  refine (c.traces_readResults count.toNat []).mono ?_ fun _ _ h => h
  intro evs values hpost
  obtain ⟨answers, hlength, rfl, rfl⟩ := hpost
  refine ⟨answers, rfl, rfl, ?_⟩
  rw [List.reverse_nil, List.nil_append, List.length_map, hlength]

/-- The command that asks for a description. -/
theorem traces_askDescriptor :
    Traces (discard (c.issue .getDescriptor 0))
      (fun evs _ => Follows c.base [.command .getDescriptor 0] evs none)
      fun evs _ => EveryCommand (Asks c.base) evs :=
  Traces.mono (performs_discard (c.performs_issue .getDescriptor 0)) (fun _ _ h => h)
    fun _ _ h => asks_asking h

/-- The entries of a description that passes the checks are plausible. -/
theorem plausible_of_checks {id size pageSize planeCount lockCount base : UInt32}
    {planes locks : List UInt32} (hpage : ¬(pageSize = 0 ∨ pageSize % 4 ≠ 0))
    (hplanes : ¬(planeCount = 0 ∨ min (size / pageSize) maxEntries < planeCount))
    (hlocks : ¬min (size / pageSize) maxEntries < lockCount)
    (hplaneCount : planes.length = planeCount.toNat)
    (hlockCount : locks.length = lockCount.toNat) :
    Descriptor.Plausible ⟨id, size, pageSize, pagesPerSector, planes, locks, base⟩ := by
  rw [not_or] at hpage hplanes
  have hmod := congrArg UInt32.toNat (Decidable.not_not.1 hpage.2)
  rw [UInt32.toNat_mod] at hmod
  refine ⟨UInt32.pos_iff_ne_zero.2 hpage.1, hmod, ?_, ?_, ?_, rfl⟩
  · rw [hplaneCount]
    exact UInt32.pos_iff_ne_zero.2 hplanes.1
  · rw [hplaneCount]
    exact Nat.not_lt.1 fun hlt => hplanes.2 (most_lt_iff.2 hlt)
  · rw [hlockCount]
    exact Nat.not_lt.1 fun hlt => hlocks (most_lt_iff.2 hlt)

/-- A description that is returned was delivered word for word and is plausible. -/
theorem traces_readDescriptor :
    Traces c.readDescriptor
      (fun evs d => Described c.base d evs ∧ d.Plausible ∧ d.base = c.flash.base)
      fun evs _ => EveryCommand (Asks c.base) evs := by
  have hresult : ∀ (evs : List Event) (value : UInt32),
      (∃ data, evs = results c.base [data] ∧ value = Word.ofLittleEndian data) →
        EveryCommand (Asks c.base) evs := by
    intro evs value hpost
    obtain ⟨data, rfl, -⟩ := hpost
    exact asks_results _ _
  have hlist : ∀ (count : UInt32) (evs : List Event) (values : List UInt32),
      (∃ answers : List (List UInt8), evs = results c.base answers ∧
        values = answers.map Word.ofLittleEndian ∧ values.length = count.toNat) →
        EveryCommand (Asks c.base) evs := by
    intro count evs values hpost
    obtain ⟨answers, rfl, -⟩ := hpost
    exact asks_results _ _
  unfold readDescriptor
  refine c.traces_askDescriptor.bind_every (fun _ _ h => asks_asking h) fun asked _ hasked => ?_
  refine c.traces_readResult.bind_every hresult ?_
  intro _ id hpost
  obtain ⟨idData, rfl, hid⟩ := hpost
  refine c.traces_readResult.bind_every hresult ?_
  intro _ size hpost
  obtain ⟨sizeData, rfl, hsize⟩ := hpost
  refine c.traces_readResult.bind_every hresult ?_
  intro _ pageSize hpost
  obtain ⟨pageData, rfl, hpage⟩ := hpost
  split
  · exact traces_note_bind (traces_error everyCommand_nil)
  next hpageOk =>
  refine c.traces_readResult.bind_every hresult ?_
  intro _ planeCount hpost
  obtain ⟨planeCountData, rfl, hplaneCount⟩ := hpost
  dsimp only
  split
  · exact traces_note_bind (traces_error everyCommand_nil)
  next hplanesOk =>
  refine (c.traces_readList planeCount).bind_every (hlist planeCount) ?_
  intro _ planes hpost
  obtain ⟨planesData, rfl, hplanes, hplanesLength⟩ := hpost
  refine c.traces_readResult.bind_every hresult ?_
  intro _ lockCount hpost
  obtain ⟨lockCountData, rfl, hlockCount⟩ := hpost
  split
  · exact traces_note_bind (traces_error everyCommand_nil)
  next hlocksOk =>
  refine (c.traces_readList lockCount).bind_every (hlist lockCount) ?_
  intro _ locks hpost
  obtain ⟨locksData, rfl, hlocks, hlocksLength⟩ := hpost
  refine traces_ok ⟨?_, ?_, rfl⟩
  · refine ⟨asked, [idData, sizeData, pageData, planeCountData] ++ planesData ++
      lockCountData :: locksData, ?_, follows_single.1 hasked, ?_⟩
    · simp only [results, List.map_append, List.map_cons, List.map_nil, List.cons_append,
        List.nil_append, List.append_nil]
    · rw [Descriptor.words, hplanesLength, hlocksLength, UInt32.ofNat_toNat, UInt32.ofNat_toNat,
        hid, hsize, hpage, hplaneCount, hlockCount, hplanes, hlocks]
      simp only [List.map_append, List.map_cons, List.map_nil]
  · exact plausible_of_checks hpageOk hplanesOk hlocksOk hplanesLength hlocksLength

/-- A controller that was connected to has a plausible description, which it delivered. -/
theorem traces_connect (monitor : Monitor) (base flashBase : UInt32) (pollLimit : Option UInt32) :
    Traces (connect monitor base flashBase pollLimit)
      (fun evs c => ∃ d : Descriptor, c = { monitor, base, pollLimit, flash := d } ∧
        Described base d evs ∧ d.Plausible ∧ d.base = flashBase)
      fun evs _ => EveryCommand (Asks base) evs := by
  refine (traces_readDescriptor _).bind (fun _ _ h => h) ?_
  intro evs d hpost
  obtain ⟨hd, hgeometry, hbase⟩ := hpost
  refine traces_note_bind (traces_ok ⟨d, rfl, ?_, hgeometry, hbase⟩)
  rw [List.append_nil]
  exact hd

/-- What is known of a controller that was connected to. -/
theorem plausible_of_connect {monitor : Monitor} {base flashBase : UInt32}
    {pollLimit : Option UInt32} {es : List (Exchange Link.interface)} {c : Controller}
    (h : (connect monitor base flashBase pollLimit).Plays es (.ok c)) :
    c.base = base ∧ c.flash.base = flashBase ∧ c.flash.Plausible := by
  obtain ⟨evs, -, d, rfl, -, hgeometry, hbase⟩ := traces_connect _ _ _ _ _ _ h
  exact ⟨rfl, hbase, hgeometry⟩

end Controller

end BadgeLink.Flash
