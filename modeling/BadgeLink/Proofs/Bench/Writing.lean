import BadgeLink.Proofs.Bench.Bytes
import BadgeLink.Proofs.Bench.Memory
import BadgeLink.Proofs.Monitor.Client
import BadgeLink.Proofs.Programmer.Pages
import BadgeLink.Programmer.Run

/-!
# Writing to a simulated chip

What unlocking, writing a page and erasing a sector do to the memory of a sound chip, and that they
fail on a locked region.
-/

namespace BadgeLink.Chip

open Dialogue Monitor Bench Flash

/-- The description of the flash of a simulated chip. -/
def descriptor : Descriptor where
  id := flashId
  size := 65536
  pageSize := 512
  pagesPerSector := 16
  planes := [65536]
  locks := List.replicate lockCount 8192
  base := flashBase

/-- A client that is connected to a simulated chip, which is busy for so many polls after each
command. -/
structure Drives (ctl : Controller) (polls : Nat) : Prop where
  patience_pos : 0 < ctl.monitor.channel.patience
  base_eq : ctl.base = controllerBase
  flash_eq : ctl.flash = descriptor
  awaited : Awaited ctl.pollLimit polls

variable {pace : Pace} {polls : Nat} {ctl : Controller} (hdrives : Drives ctl polls) {m : Memory}

include hdrives

/-! ## Locks -/

theorem does_unlockFrom {left region : Nat} (hregion : region + left = lockCount) :
    Does pace polls (ctl.unlockFrom left region) m fun _ m' => ∃ locks,
      m' = { m with locks } ∧
        ∀ i (h : i < lockCount), locks[i] = if region ≤ i then false else m.locks[i] := by
  induction left generalizing region m with
  | zero =>
    refine does_ok ⟨m.locks, rfl, fun i hi => ?_⟩
    rw [if_neg (by omega)]
  | succ left ih =>
    refine (does_setLock hdrives.patience_pos hdrives.base_eq hdrives.awaited (by omega)
      false).bind ?_
    intro _ _ hpost
    subst hpost
    refine (@ih _ (region + 1) (by omega)).mono ?_
    intro _ _ hpost
    obtain ⟨locks, rfl, hlocks⟩ := hpost
    refine ⟨locks, rfl, fun i hi => ?_⟩
    rw [hlocks i hi]
    dsimp only
    rw [Vector.getElem_setIfInBounds]
    by_cases hi : region = i
    · rw [if_neg (by omega), if_pos hi, if_pos (by omega)]
    · by_cases hlt : region + 1 ≤ i
      · rw [if_pos hlt, if_pos (by omega)]
      · rw [if_neg hlt, if_neg hi, if_neg (by omega)]

/-- Afterwards no region is locked. -/
theorem does_unlockAll :
    Does pace polls ctl.unlockAll m
      fun _ m' => m' = { m with locks := .replicate lockCount false } := by
  unfold Controller.unlockAll
  rw [hdrives.flash_eq]
  refine does_note_bind ((does_unlockFrom hdrives rfl).mono ?_)
  intro _ _ hpost
  obtain ⟨locks, rfl, hlocks⟩ := hpost
  have hall : locks = .replicate lockCount false := by
    refine Vector.ext fun i hi => ?_
    rw [hlocks i hi, if_pos (Nat.zero_le i), Vector.getElem_replicate]
  rw [hall]

/-! ## Pages -/

omit hdrives in
/-- The words of a page have their addresses in the window of the flash. -/
theorem wordAddress_window {page n : Nat} (hpage : page < 128) (hn : n < 128) :
    wordAddress (flashBase + UInt32.ofNat (page * 512)) n =
      .ok (flashBase + UInt32.ofNat (page * 512 + 4 * n)) := by
  have hbase : flashBase.toNat = 0x400000 := rfl
  have hpage' : (flashBase + UInt32.ofNat (page * 512)).toNat = 0x400000 + page * 512 := by
    rw [UInt32.toNat_add, UInt32.toNat_ofNat', hbase]
    omega
  rw [wordAddress_of_lt (by omega) (by omega)]
  apply congrArg Except.ok
  apply UInt32.toNat_inj.1
  rw [UInt32.toNat_add, hpage', (mul_four_eq_ok (by omega)).2, UInt32.toNat_add,
    UInt32.toNat_ofNat', hbase]
  omega

theorem does_storeWord {page n : Nat} (hpage : page < 128) (hn : n < 128) (value : UInt32) :
    Does pace polls (ctl.monitor.writeWord (flashBase + UInt32.ofNat (page * 512 + 4 * n)) value) m
      fun _ m' =>
        m' = { m with latch := fillLatch m.latch (4 * n) (Word.littleEndian value) } := by
  have hoffset : page * 512 + 4 * n < flashSize := by
    show page * 512 + 4 * n < 65536
    omega
  have hplace : (page * 512 + 4 * n) % pageSize = 4 * n := by
    show (page * 512 + 4 * n) % 512 = 4 * n
    omega
  have hfits : 4 * n + 4 ≤ pageSize := by
    show 4 * n + 4 ≤ 512
    omega
  exact does_store hdrives.patience_pos _ hoffset hplace hfits value

omit hdrives in
/-- The first word of the data and then the rest of it stand in the latch as all of it. -/
theorem latched_succ (data : List UInt8) (g : Nat → UInt8) (left n i : Nat) :
    (if 4 * (n + 1) ≤ i ∧ i < 4 * (n + 1 + left) then (data.drop 4).getD (i - 4 * (n + 1)) 0
      else if 4 * n ≤ i ∧ i < 4 * n + 4 then
        (Word.littleEndian (Word.ofLittleEndian (data.take 4))).getD (i - 4 * n) 0
      else g i) =
      if 4 * n ≤ i ∧ i < 4 * (n + (left + 1)) then data.getD (i - 4 * n) 0 else g i := by
  by_cases hrest : 4 * (n + 1) ≤ i ∧ i < 4 * (n + 1 + left)
  · have hplace : 4 + (i - 4 * (n + 1)) = i - 4 * n := by omega
    rw [if_pos hrest, if_pos (by omega), getD_drop, hplace]
  · rw [if_neg hrest]
    by_cases hfirst : 4 * n ≤ i ∧ i < 4 * n + 4
    · rw [if_pos hfirst, if_pos (by omega), getD_littleEndian (List.length_take_le _ _),
        getD_take data (by omega)]
    · rw [if_neg hfirst, if_neg (by omega)]

/-- The latch is filled with the data, and with zeros after it. -/
theorem does_fillLatch {page : Nat} (hpage : page < 128) {left n : Nat} (hn : n + left ≤ 128)
    (data : List UInt8) {g : Nat → UInt8} (hlatch : Holds m.latch g) :
    Does pace polls (ctl.fillLatch (flashBase + UInt32.ofNat (page * 512)) left n data) m
      fun _ m' => ∃ latch, m' = { m with latch } ∧ Holds latch fun i =>
        if 4 * n ≤ i ∧ i < 4 * (n + left) then data.getD (i - 4 * n) 0 else g i := by
  -- the words before place `n` are part of `g`, which the induction leaves arbitrary
  induction left generalizing n data g m with
  | zero =>
    refine does_ok ⟨m.latch, rfl, hlatch.congr fun i _ => ?_⟩
    rw [if_neg (by omega)]
  | succ left ih =>
    refine does_lift_bind (wordAddress_window hpage (by omega)) ?_
    refine (does_storeWord hdrives hpage (by omega) _).bind ?_
    intro _ _ hpost
    subst hpost
    have hword := holds_fillLatch hlatch (4 * n)
      (Word.littleEndian (Word.ofLittleEndian (data.take 4)))
    have hrest := ih (m := { m with latch := _ }) (n := n + 1) (by omega) (data.drop 4) hword
    refine hrest.mono ?_
    intro _ _ hpost
    obtain ⟨latch, rfl, hlatch'⟩ := hpost
    refine ⟨latch, rfl, hlatch'.congr fun i _ => ?_⟩
    rw [Word.length_littleEndian]
    exact latched_succ data g left n i

omit hdrives in
theorem toNat_pageOffset {page : Nat} (hpage : page < 128) :
    (UInt32.ofNat (page * 512)).toNat = page * 512 := by
  rw [UInt32.toNat_ofNat']
  omega

omit hdrives in
theorem pageWindow_eq_ok {page : Nat} (hpage : page < 128) :
    Word.add flashBase (UInt32.ofNat (page * 512)) =
      .ok (flashBase + UInt32.ofNat (page * 512)) := by
  have hbase : flashBase.toNat = 0x400000 := rfl
  rw [Word.add, if_pos (by rw [toNat_pageOffset hpage, hbase]; omega)]

omit hdrives in
theorem pageNumber_eq_ok {page : Nat} (hpage : page < 128) :
    Word.div (UInt32.ofNat (page * 512)) descriptor.pageSize = .ok (UInt32.ofNat page) := by
  have hsize : descriptor.pageSize.toNat = 512 := rfl
  have hquotient : UInt32.ofNat (page * 512) / descriptor.pageSize = UInt32.ofNat page := by
    apply UInt32.toNat_inj.1
    rw [UInt32.toNat_div, toNat_pageOffset hpage, hsize, UInt32.toNat_ofNat']
    omega
  rw [Word.div, if_neg (by decide), hquotient]

/-- The latch holds the data of a page and zeros after it, whatever it held before. -/
theorem does_loadPage {page : Nat} (hpage : page < 128) (data : List UInt8) :
    Does pace polls (ctl.fillLatch (flashBase + UInt32.ofNat (page * 512))
        (descriptor.pageSize.toNat / 4) 0 data) m
      fun _ m' => ∃ latch, m' = { m with latch } ∧ Holds latch fun i => data.getD i 0 := by
  have hwords : 0 + descriptor.pageSize.toNat / 4 ≤ 128 := by decide
  obtain ⟨g, hlatch⟩ := exists_holds m.latch
  refine (does_fillLatch hdrives hpage hwords data hlatch).mono ?_
  intro _ _ hpost
  obtain ⟨latch, rfl, hlatch⟩ := hpost
  exact ⟨latch, rfl, hlatch.congr fun i hi => if_pos ⟨Nat.zero_le i, hi⟩⟩

/-- A page that is written holds the data, and zeros after it. -/
theorem does_writePage {page : Nat} (hpage : page < 128) {data : List UInt8}
    (hdata : data.length ≤ 512) (hlock : m.locks[region page]? = some false)
    {f : Nat → UInt8} (hflash : Holds m.flash f) :
    Does pace polls (ctl.writePage (UInt32.ofNat (page * 512)) data) m
      fun _ m' => ∃ flash latch, m' = { m with flash, latch } ∧ Holds flash fun i =>
        if page * 512 ≤ i ∧ i < page * 512 + 512 then data.getD (i - page * 512) 0 else f i := by
  have hfits : ¬descriptor.pageSize.toNat < data.length := Nat.not_lt.2 hdata
  unfold Controller.writePage
  rw [hdrives.flash_eq, if_neg hfits]
  refine does_lift_bind (pageWindow_eq_ok hpage) ?_
  refine (does_loadPage hdrives hpage data).bind ?_
  intro _ _ hpost
  obtain ⟨latch, rfl, hlatch⟩ := hpost
  refine does_lift_bind (pageNumber_eq_ok hpage) ?_
  refine (does_commit (m := { m with latch }) hdrives.patience_pos hdrives.base_eq hdrives.awaited
    hpage hlock).discard.mono ?_
  intro _ _ hpost
  subst hpost
  exact ⟨_, _, rfl, holds_commit hflash hlatch page⟩

/-- A page in a locked region is not written. -/
theorem faults_writePage {page : Nat} (hpage : page < 128) {data : List UInt8}
    (hdata : data.length ≤ 512) (hlock : m.locks[region page]? = some true) :
    Faults pace polls (ctl.writePage (UInt32.ofNat (page * 512)) data) m
      (.flashLocked (Status.ready ||| Status.locked)) fun m' => ∃ latch, m' = { m with latch } := by
  have hfits : ¬descriptor.pageSize.toNat < data.length := Nat.not_lt.2 hdata
  unfold Controller.writePage
  rw [hdrives.flash_eq, if_neg hfits]
  refine faults_lift_bind (pageWindow_eq_ok hpage) ?_
  refine (does_loadPage hdrives hpage data).bind_faults ?_
  intro _ _ hpost
  obtain ⟨latch, rfl, -⟩ := hpost
  refine faults_lift_bind (pageNumber_eq_ok hpage) ?_
  refine ((faults_commit (m := { m with latch }) hdrives.patience_pos hdrives.base_eq
    hdrives.awaited hpage hlock).bind _).mono ?_
  intro _ hpost
  subst hpost
  exact ⟨_, rfl⟩

/-! ## Sectors -/

section Sectors

variable {offset : UInt32} (hoffset : offset.toNat < 65536)

include hoffset

omit hdrives in
theorem sectorNumber_eq_ok :
    Word.div offset 8192 = .ok (UInt32.ofNat (offset.toNat / 8192)) := by
  have hsize : (8192 : UInt32).toNat = 8192 := rfl
  have hquotient : offset / 8192 = UInt32.ofNat (offset.toNat / 8192) := by
    apply UInt32.toNat_inj.1
    rw [UInt32.toNat_div, hsize, UInt32.toNat_ofNat']
    omega
  rw [Word.div, if_neg (by decide), hquotient]

omit hdrives in
theorem sectorPage_eq_ok :
    Word.mul (UInt32.ofNat (offset.toNat / 8192)) pagesPerSector =
      .ok (UInt32.ofNat (16 * (offset.toNat / 8192))) := by
  have hsixteen : pagesPerSector.toNat = 16 := rfl
  have hnumber : (UInt32.ofNat (offset.toNat / 8192)).toNat = offset.toNat / 8192 := by
    rw [UInt32.toNat_ofNat']
    omega
  have hproduct : UInt32.ofNat (offset.toNat / 8192) * pagesPerSector =
      UInt32.ofNat (16 * (offset.toNat / 8192)) := by
    apply UInt32.toNat_inj.1
    rw [UInt32.toNat_mul, hnumber, hsixteen, UInt32.toNat_ofNat']
    omega
  rw [Word.mul, if_pos (by rw [hnumber, hsixteen]; omega), hproduct]

omit hdrives hoffset in
/-- A sector is a lock region. -/
theorem region_sectorPage (sector : Nat) : region (16 * sector) = sector := by
  show 16 * sector * 512 / 8192 = sector
  omega

/-- The sector that contains an offset is erased. -/
theorem does_eraseSector (hlock : m.locks[offset.toNat / 8192]? = some false) {f : Nat → UInt8}
    (hflash : Holds m.flash f) :
    Does pace polls (ctl.eraseSector offset) m
      fun _ m' => ∃ flash, m' = { m with flash } ∧
        Holds flash fun i => if i / 8192 = offset.toNat / 8192 then 0xff else f i := by
  have hsize : descriptor.sectorSize = .ok 8192 := rfl
  unfold Controller.eraseSector
  rw [hdrives.flash_eq]
  refine does_lift_bind hsize (does_lift_bind (sectorNumber_eq_ok hoffset)
    (does_lift_bind (sectorPage_eq_ok hoffset) ?_))
  refine (does_erase hdrives.patience_pos hdrives.base_eq hdrives.awaited (by omega) (by omega)
    ((region_sectorPage _).symm ▸ hlock)).discard.mono ?_
  intro _ _ hpost
  subst hpost
  refine ⟨_, rfl, (holds_erase hflash _ _).congr fun i _ => if_congr ?_ rfl rfl⟩
  show 16 * (offset.toNat / 8192) * 512 ≤ i ∧ i < (16 * (offset.toNat / 8192) + 16) * 512 ↔ _
  omega

/-- A locked sector is not erased. -/
theorem faults_eraseSector (hlock : m.locks[offset.toNat / 8192]? = some true) :
    Faults pace polls (ctl.eraseSector offset) m (.flashLocked (Status.ready ||| Status.locked))
      fun m' => m' = m := by
  have hsize : descriptor.sectorSize = .ok 8192 := rfl
  unfold Controller.eraseSector
  rw [hdrives.flash_eq]
  refine faults_lift_bind hsize (faults_lift_bind (sectorNumber_eq_ok hoffset)
    (faults_lift_bind (sectorPage_eq_ok hoffset) ?_))
  exact (faults_erase hdrives.patience_pos hdrives.base_eq hdrives.awaited (by omega) (by omega)
    ((region_sectorPage _).symm ▸ hlock)).bind _

end Sectors

end BadgeLink.Chip
