import BadgeLink.Proofs.Bench.Reading

/-!
# Installing an image on a simulated chip

The flash of a sound chip, page by page: after some pages of an image were written, these pages hold
the image, the rest of the last sector is erased, and what lies beyond it is as it was.

* `Chip.programmed` gives the bytes of the flash after some pages of an image were written.
* `does_install`: an installation of an image that fits succeeds, with verification or without, and
  leaves the flash programmed, every region unlocked and the flash selected as boot source.
-/

namespace BadgeLink.Chip

open Dialogue Monitor Bench Flash

/-- The bytes of the flash after the first sectors were erased, which held old bytes, and the first
pages of an image were written. -/
def programmed (image : List UInt8) (old : Nat → UInt8) (sectors pages i : Nat) : UInt8 :=
  if i < 512 * pages then image.getD i 0
  else if i < 8192 * sectors then 0xff
  else old i

/-- The number of sectors that the first pages lie in. -/
def sectorsOf (pages : Nat) : Nat :=
  (pages + 15) / 16

variable {image : List UInt8} {old : Nat → UInt8} {page : Nat}

theorem getD_pageOf {i : Nat} (hstart : page * 512 ≤ i) (hstop : i < page * 512 + 512) :
    (pageOf 512 image page).getD (i - page * 512) 0 = image.getD i 0 := by
  have hplace : page * 512 + (i - page * 512) = i := by omega
  rw [pageOf, getD_take _ (by omega), getD_drop, hplace]

/-- Erasing the sector that a page begins leaves one more sector erased. -/
theorem programmed_erase (hsector : page % 16 = 0) (i : Nat) :
    (if i / 8192 = page * 512 / 8192 then 0xff
      else programmed image old (sectorsOf page) page i) =
      programmed image old (sectorsOf (page + 1)) page i := by
  unfold programmed sectorsOf
  by_cases hwritten : i < 512 * page
  · rw [if_neg (by omega), if_pos hwritten, if_pos hwritten]
  · rw [if_neg hwritten, if_neg hwritten]
    by_cases hin : i < (page + 16) * 512
    · rw [if_pos (by omega), if_pos (by omega)]
    · rw [if_neg (by omega), if_neg (by omega), if_neg (by omega)]

/-- Writing a page of an erased sector leaves one more page written. -/
theorem programmed_write (i : Nat) :
    (if page * 512 ≤ i ∧ i < page * 512 + 512 then
      (pageOf 512 image page).getD (i - page * 512) 0
      else programmed image old (sectorsOf (page + 1)) page i) =
      programmed image old (sectorsOf (page + 1)) (page + 1) i := by
  unfold programmed
  by_cases hin : page * 512 ≤ i ∧ i < page * 512 + 512
  · rw [if_pos hin, getD_pageOf hin.1 hin.2, if_pos (by omega)]
  · rw [if_neg hin]
    by_cases hwritten : i < 512 * page
    · rw [if_pos hwritten, if_pos (by omega)]
    · have hlater : ¬i < 512 * (page + 1) := by omega
      rw [if_neg hwritten, if_neg hlater]

theorem getElem?_unlocked {locks : Vector Bool lockCount}
    (hlocks : locks = .replicate lockCount false) {i : Nat} (hi : i < lockCount) :
    locks[i]? = some false := by
  rw [hlocks]
  exact Vector.getElem?_replicate_of_lt hi

section Loops

variable {pace : Pace} {polls : Nat} {p : Programmer} (hdrives : Drives p.controller polls)
  {m : Memory}

include hdrives

theorem pageOffset_eq (page : Nat) : p.pageOffset page = UInt32.ofNat (page * 512) := by
  rw [Programmer.pageOffset, Programmer.flash, hdrives.flash_eq]
  rfl

/-- Writing the next page of an image in a sector that is erased. -/
theorem does_writing_bind {total : Nat} (hpage : page < 128)
    (hlocks : m.locks = .replicate lockCount false)
    (hflash : Holds m.flash (programmed image old (sectorsOf (page + 1)) page))
    {rest : Link Unit} {Q : Unit → Memory → Prop}
    (hrest : ∀ flash latch, Holds flash (programmed image old (sectorsOf (page + 1)) (page + 1)) →
      Does pace polls rest { m with flash, latch } Q) :
    Does pace polls ((Link.report ⟨.writing, page, total⟩).bind fun _ =>
      (p.controller.writePage (p.pageOffset page) (pageOf 512 image page)).bind fun _ => rest)
      m Q := by
  have hregion : region page < lockCount := by
    show page * 512 / 8192 < 8
    omega
  rw [pageOffset_eq hdrives]
  refine does_report_bind ((does_writePage hdrives hpage (length_pageOf_le _ _ _)
    (getElem?_unlocked hlocks hregion) hflash).bind ?_)
  intro _ _ hpost
  obtain ⟨flash, latch, rfl, hwritten⟩ := hpost
  exact hrest flash latch (hwritten.congr fun i _ => programmed_write i)

/-- Erasing the sector that the next page of an image begins. -/
theorem does_erasing_bind {total : Nat} (hpage : page < 128) (hsector : page % 16 = 0)
    (hlocks : m.locks = .replicate lockCount false)
    (hflash : Holds m.flash (programmed image old (sectorsOf page) page))
    {rest : Link Unit} {Q : Unit → Memory → Prop}
    (hrest : ∀ flash, Holds flash (programmed image old (sectorsOf (page + 1)) page) →
      Does pace polls rest { m with flash } Q) :
    Does pace polls ((Link.report ⟨.erasing, page, total⟩).bind fun _ =>
      (p.controller.eraseSector (p.pageOffset page)).bind fun _ => rest) m Q := by
  have hoffset := toNat_pageOffset hpage
  have hregion : page * 512 / 8192 < lockCount := by
    show page * 512 / 8192 < 8
    omega
  rw [pageOffset_eq hdrives]
  refine does_report_bind ((does_eraseSector hdrives (by omega)
    (hoffset.symm ▸ getElem?_unlocked hlocks hregion) hflash).bind ?_)
  intro _ _ hpost
  obtain ⟨flash, rfl, herased⟩ := hpost
  rw [hoffset] at herased
  exact hrest flash (herased.congr fun i _ => programmed_erase hsector i)

/-- Writing consecutive pages of an image. -/
theorem does_writePages {total count : Nat} (hcount : page + count ≤ 128)
    (hlocks : m.locks = .replicate lockCount false)
    (hflash : Holds m.flash (programmed image old (sectorsOf page) page)) :
    Does pace polls
      (p.writePages total page ((List.range count).map fun i => pageOf 512 image (page + i))) m
      fun _ m' => ∃ flash latch, m' = { m with flash, latch } ∧
        Holds flash (programmed image old (sectorsOf (page + count)) (page + count)) := by
  induction count generalizing page m with
  | zero => exact does_ok ⟨m.flash, m.latch, rfl, hflash⟩
  | succ count ih =>
    have hpage : page < 128 := by omega
    have hnext : ∀ i, page + 1 + i = page + (i + 1) := by omega
    have hsixteen : p.flash.pagesPerSector.toNat = 16 := by
      rw [Programmer.flash, hdrives.flash_eq]
      rfl
    have hrest : ∀ flash latch,
        Holds flash (programmed image old (sectorsOf (page + 1)) (page + 1)) →
        Does pace polls (p.writePages total (page + 1)
          ((List.range count).map fun i => pageOf 512 image (page + (i + 1)))) { m with flash, latch }
          fun _ m' => ∃ flash latch, m' = { m with flash, latch } ∧ Holds flash
            (programmed image old (sectorsOf (page + (count + 1))) (page + (count + 1))) := by
      intro flash latch hwritten
      have h := @ih (page + 1) { m with flash, latch } (by omega) hlocks hwritten
      simp only [hnext] at h
      refine h.mono ?_
      intro _ _ hpost
      obtain ⟨flash, latch, rfl, h⟩ := hpost
      exact ⟨flash, latch, rfl, h⟩
    rw [map_range_succ, Nat.add_zero, Programmer.writePages, hsixteen]
    split
    · next hsector =>
      refine does_erasing_bind hdrives hpage hsector hlocks hflash fun flash herased => ?_
      exact does_writing_bind (m := { m with flash }) hdrives hpage hlocks herased
        fun flash latch hwritten => hrest flash latch hwritten
    · next hsector =>
      -- inside a sector no further one is begun
      have hsame : sectorsOf (page + 1) = sectorsOf page := by
        unfold sectorsOf
        omega
      rw [← hsame] at hflash
      exact does_writing_bind hdrives hpage hlocks hflash hrest

omit hdrives in
/-- A page that was programmed begins with the bytes of the image. -/
theorem take_programmed {pages sectors : Nat} (hpage : page < pages) :
    ((List.range' (page * 512) 512).map (programmed image old sectors pages)).take
      (pageOf 512 image page).length = pageOf 512 image page := by
  refine List.ext_getElem ?_ fun i hi hi' => ?_
  · rw [List.length_take, List.length_map, List.length_range']
    exact Nat.min_eq_left (length_pageOf_le _ _ _)
  · have hlt : i < 512 := Nat.lt_of_lt_of_le hi' (length_pageOf_le _ _ _)
    have hwritten : page * 512 + i < 512 * pages := by omega
    have hplace : page * 512 + i - page * 512 = i := by omega
    have hbyte : (pageOf 512 image page).getD (page * 512 + i - page * 512) 0 =
        image.getD (page * 512 + i) 0 := getD_pageOf (by omega) (by omega)
    rw [hplace, List.getD_eq_getElem _ _ hi'] at hbyte
    rw [List.getElem_take, List.getElem_map, List.getElem_range', Nat.one_mul, programmed,
      if_pos hwritten, hbyte]

/-- Reading back pages that were programmed finds no difference. -/
theorem does_verifyPages {total pages sectors count : Nat} (hpages : pages ≤ 128)
    (hcount : page + count ≤ pages)
    (hflash : Holds m.flash (programmed image old sectors pages)) :
    Does pace polls
      (p.verifyPages total page ((List.range count).map fun i => pageOf 512 image (page + i))) m
      fun _ m' => m' = m := by
  induction count generalizing page with
  | zero => exact does_ok rfl
  | succ count ih =>
    have hnext : ∀ i, page + 1 + i = page + (i + 1) := by omega
    have hrest := @ih (page + 1) (by omega)
    simp only [hnext] at hrest
    rw [map_range_succ, Nat.add_zero, Programmer.verifyPages, pageOffset_eq hdrives]
    refine does_report_bind ((does_readPage hdrives hflash (by omega)).bind ?_)
    intro _ _ hpost
    obtain ⟨rfl, rfl⟩ := hpost
    rw [if_neg (not_not_intro (take_programmed (by omega)))]
    exact hrest

omit hdrives in
theorem pageTotal_le (hfits : image.length ≤ 65536) : pageTotal 512 image ≤ 128 := by
  unfold pageTotal
  omega

omit hdrives in
theorem pageCount_descriptor (hfits : image.length ≤ 65536) :
    descriptor.pageCount image.length = .ok (pageTotal 512 image) := by
  have hsize : image.length ≤ Size.largestBuffer := by
    unfold Size.largestBuffer
    omega
  exact Descriptor.pageCount_eq (d := descriptor) (by decide) hsize

theorem does_booting (hboot : p.target.bootBit = 1) :
    Does pace polls ((p.controller.setBit p.target.bootBit).bind fun _ => Link.note .programmed) m
      fun _ m' => m' = { m with bits := m.bits ||| 2 } := by
  have hmask : bitMask (p.target.bootBit.toNat % 65536) = .ok 2 := by
    rw [hboot]
    rfl
  refine (does_setBit hdrives.patience_pos hdrives.base_eq hdrives.awaited hmask).bind ?_
  intro _ _ hpost
  subst hpost
  exact does_note _

theorem does_install (hboot : p.target.bootBit = 1) (hfits : image.length ≤ 65536) (verify : Bool)
    (hflash : Holds m.flash old) :
    Does pace polls (p.install image verify) m fun _ m' => ∃ flash latch,
      m' = ⟨flash, .replicate lockCount false, m.bits ||| 2, latch⟩ ∧
        Holds flash (programmed image old (sectorsOf (pageTotal 512 image)) (pageTotal 512 image)) := by
  have hsize : ¬descriptor.size.toNat < image.length := Nat.not_lt.2 hfits
  have hpages : descriptor.pageSize.toNat = 512 := rfl
  have hchunks : chunks 512 image =
      (List.range (pageTotal 512 image)).map fun i => pageOf 512 image (0 + i) := by
    simp only [Nat.zero_add]
    exact chunks_eq (by decide) image
  have htotal := pageTotal_le hfits
  unfold Programmer.install Programmer.flash
  rw [hdrives.flash_eq, if_neg hsize, hpages, hchunks]
  refine does_lift_bind (pageCount_descriptor hfits) (does_note_bind ?_)
  refine (does_unlockAll hdrives).bind ?_
  intro _ _ hpost
  subst hpost
  have hold : Holds m.flash (programmed image old (sectorsOf 0) 0) :=
    hflash.congr fun i _ => rfl
  have hcount : 0 + pageTotal 512 image ≤ pageTotal 512 image := Nat.le_of_eq (Nat.zero_add _)
  refine (does_writePages (m := { m with locks := .replicate lockCount false }) hdrives
    (Nat.le_trans hcount htotal) rfl hold).bind ?_
  intro _ _ hpost
  obtain ⟨flash, latch, rfl, hwritten⟩ := hpost
  rw [Nat.zero_add] at hwritten
  refine Does.mono (Q := fun _ m' =>
    m' = ⟨flash, .replicate lockCount false, m.bits ||| 2, latch⟩) ?_ ?_
  · cases verify with
    | false => exact does_booting hdrives hboot
    | true =>
      refine (does_verifyPages hdrives htotal hcount hwritten).bind ?_
      intro _ _ hpost
      subst hpost
      exact does_booting hdrives hboot
  · intro _ _ hpost
    subst hpost
    exact ⟨flash, latch, rfl, hwritten⟩

end Loops

end BadgeLink.Chip
