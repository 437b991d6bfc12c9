import BadgeLink.Proofs.Bench.Writing

/-!
# Reading back from a simulated chip

A sound chip delivers the bytes of its flash, and nothing changes while it does.
-/

namespace BadgeLink.Chip

open Dialogue Monitor Bench Flash

variable {pace : Pace} {polls : Nat} {ctl : Controller} (hdrives : Drives ctl polls) {m : Memory}
  {f : Nat → UInt8} (hflash : Holds m.flash f)

omit hdrives in
theorem flashWord_eq_ok {c : Chip} {offset : Nat} (hfits : offset + 4 ≤ 65536)
    (hflash : Holds c.flash f) :
    c.flashWord offset = .ok (Word.ofLittleEndian ((List.range' offset 4).map f)) := by
  have hbyte : ∀ i < 4, c.flash[offset + i]?.getD 0 = f (offset + i) := by
    intro i hi
    have hlt : offset + i < flashSize := by
      show offset + i < 65536
      omega
    rw [Vector.getElem?_eq_getElem hlt, Option.getD_some, hflash]
  have hbytes : (List.range 4).map (fun i => c.flash[offset + i]?.getD 0) =
      (List.range' offset 4).map f := by
    rw [List.map_congr_left fun i hi => hbyte i (List.mem_range.1 hi)]
    rfl
  rw [flashWord, if_pos hfits, hbytes]

include hdrives hflash

/-- A word that is read from the window of the flash is made of four bytes of the flash. -/
theorem does_load {offset : Nat} (hfits : offset + 4 ≤ 65536) :
    Does pace polls (ctl.monitor.readWord (flashBase + UInt32.ofNat offset)) m
      fun word m' => m' = m ∧ Word.littleEndian word = (List.range' offset 4).map f := by
  rintro c hsound rfl
  have hwindow : windowOffset? (flashBase + UInt32.ofNat offset) = some offset :=
    windowOffset_eq (Nat.lt_of_lt_of_le (Nat.lt_add_of_pos_right (by decide)) hfits)
  have hread : c.readWord (flashBase + UInt32.ofNat offset) =
      .ok (Word.ofLittleEndian ((List.range' offset 4).map f),
        { c with windowReads := c.windowReads + 1 }) := by
    rw [readWord, hwindow]
    show (c.flashWord offset).bind _ = _
    rw [flashWord_eq_ok hfits hflash]
    rfl
  refine (runs_readWord hdrives.patience_pos hsound.line_eq hread).mono ?_
  intro _ _ hpost
  obtain ⟨rfl, rfl⟩ := hpost
  exact ⟨_, rfl, ⟨hsound.line_eq, hsound.flashError_eq, hsound.corrupt_eq, hsound.busyPolls_eq⟩,
    rfl, Word.littleEndian_ofLittleEndian rfl⟩

theorem does_readWords {page : Nat} (hpage : page < 128) {left n : Nat} (hn : n + left ≤ 128)
    (got : List UInt32) :
    Does pace polls
      (ctl.monitor.readWords (flashBase + UInt32.ofNat (page * 512)) left n got) m
      fun words m' => m' = m ∧ words.flatMap Word.littleEndian =
        got.reverse.flatMap Word.littleEndian ++
          (List.range' (page * 512 + 4 * n) (4 * left)).map f := by
  induction left generalizing n got with
  | zero => exact does_ok ⟨rfl, (List.append_nil _).symm⟩
  | succ left ih =>
    refine does_lift_bind (wordAddress_window hpage (by omega)) ?_
    refine (does_load hdrives hflash (by omega)).bind ?_
    intro word _ hpost
    obtain ⟨rfl, hword⟩ := hpost
    refine (ih (by omega) (word :: got)).mono ?_
    intro words _ hpost
    obtain ⟨rfl, hwords⟩ := hpost
    refine ⟨rfl, ?_⟩
    have hsplit : List.range' (page * 512 + 4 * n) (4 * (left + 1)) =
        List.range' (page * 512 + 4 * n) 4 ++
          List.range' (page * 512 + 4 * (n + 1)) (4 * left) := by
      have hcount : 4 * (left + 1) = 4 + 4 * left := by omega
      have hnext : page * 512 + 4 * (n + 1) = page * 512 + 4 * n + 4 := by omega
      rw [hcount, hnext, List.range'_append_1]
    rw [hwords, hsplit, List.map_append, List.reverse_cons, List.flatMap_append,
      List.flatMap_singleton, hword, List.append_assoc]

/-- A page that is read is delivered as it stands in the flash. -/
theorem does_readPage {page : Nat} (hpage : page < 128) :
    Does pace polls (ctl.readPage (UInt32.ofNat (page * 512))) m
      fun data m' => m' = m ∧ data = (List.range' (page * 512) 512).map f := by
  have hpadded : Size.add descriptor.pageSize.toNat 3 = .ok 515 := rfl
  have hreserve : Size.reserve (515 / 4 * 4) = .ok () := rfl
  unfold Controller.readPage
  rw [hdrives.flash_eq]
  refine does_lift_bind (pageWindow_eq_ok hpage) (does_lift_bind hpadded
    (does_lift_bind hreserve ?_))
  have hwords : 0 + 515 / 4 ≤ 128 := by decide
  refine (does_readWords hdrives hflash hpage hwords []).bind ?_
  intro words _ hpost
  obtain ⟨rfl, hwords⟩ := hpost
  have hcount : 4 * (515 / 4) = 512 := rfl
  have hsize : descriptor.pageSize.toNat = 512 := rfl
  have hlength : ((List.range' (page * 512) 512).map f).length = 512 := by
    rw [List.length_map, List.length_range']
  rw [List.reverse_nil, List.flatMap_nil, List.nil_append, hcount, Nat.mul_zero, Nat.add_zero] at hwords
  refine does_ok ⟨rfl, ?_⟩
  rw [hwords, hsize]
  exact List.take_of_length_le (Nat.le_of_eq hlength)

end BadgeLink.Chip
