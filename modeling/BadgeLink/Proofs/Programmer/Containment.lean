import BadgeLink.Proofs.Monitor.Text
import BadgeLink.Proofs.Programmer.Overflow

/-!
# Which addresses an installation uses

An installation reads and writes the words of whole pages, and besides these only two registers. So
it stays within the pages that the image takes. That is within the flash if the size of the flash is
a whole number of pages, or if the image leaves the rest free; but the size is not checked against
the page size, and an image that reaches into the rest is written beyond the end of the flash.

* `keeps_install`: every word is within the pages of the image, whatever is answered.
* `stored_of_plays`: an installation that succeeds has written all of these words.
* `install_contained` is both, about the bytes that the port accepts.
-/

namespace BadgeLink

open Dialogue Monitor Flash

/-- The word at an address is within so many bytes from the start of a flash on. -/
def Inside (start : UInt32) (extent : Nat) (address : UInt32) : Prop :=
  start.toNat ≤ address.toNat ∧ address.toNat + 4 ≤ start.toNat + extent

/-- A command writes to the command register, or reads the status register, or uses a word within a
part of the flash. -/
def Contained (base start : UInt32) (extent : Nat) : Monitor.Command → Prop
  | .writeWord address _ => address = registerAt base .command ∨ Inside start extent address
  | .readWord address => address = registerAt base .status ∨ Inside start extent address
  | .normalMode | .go _ => False

namespace Flash.Controller

variable {c : Controller} {extent : Nat}

theorem contained_of_uses {base start : UInt32} {command : Flash.Command} {arg : UInt32}
    {m : Monitor.Command} (h : (Act.command command arg).Uses base m) : Contained base start extent m := by
  rcases h with rfl | rfl
  · exact .inl rfl
  · exact .inl rfl

theorem keeps_fillLatch {window : UInt32} {left n : Nat} (hn : n + left ≤ 0x100000000)
    (hstart : c.flash.base.toNat ≤ window.toNat)
    (hextent : window.toNat + 4 * (n + left) ≤ c.flash.base.toNat + extent) (data : List UInt8) :
    Keeps (Contained c.base c.flash.base extent) (c.fillLatch window left n data) := by
  induction left generalizing n data with
  | zero => exact keeps_ok
  | succ left ih =>
    refine keeps_lift_bind fun place hplace => ?_
    obtain ⟨hplace, -⟩ := toNat_wordAddress (by omega) hplace
    have hinside : Inside c.flash.base extent place := ⟨by omega, by omega⟩
    exact (c.monitor.keeps_writeWord (.inr hinside)).bind fun _ => ih (by omega) (by omega) _

theorem stores_fillLatch {window : UInt32} {left n : Nat} (hn : n + left ≤ 0x100000000)
    (data : List UInt8) :
    Stores (fun place => ∃ j < left, place = window.toNat + 4 * (n + j))
      (c.fillLatch window left n data) := by
  induction left generalizing n data with
  | zero => exact stores_none fun place ⟨j, hj, _⟩ => Nat.not_lt_zero j hj
  | succ left ih =>
    refine stores_lift_bind fun place hplace => ?_
    obtain ⟨hplace, -⟩ := toNat_wordAddress (by omega) hplace
    refine ((stores_writeWord c.monitor place _).bind fun _ => ih (n := n + 1) (by omega) _).mono ?_
    rintro _ ⟨j, hj, rfl⟩
    cases j with
    | zero => exact .inl hplace.symm
    | succ j => exact .inr ⟨j, by omega, by omega⟩

theorem stores_writePage (offset : UInt32) (data : List UInt8) :
    Stores (fun place => ∃ j < c.flash.pageSize.toNat / 4,
        place = c.flash.base.toNat + offset.toNat + 4 * j) (c.writePage offset data) := by
  unfold writePage
  dsimp only
  split
  · exact stores_error
  · refine stores_lift_bind fun window hwindow => ?_
    obtain ⟨rfl, hexists⟩ := Word.add_eq_ok hwindow
    have hpage := c.flash.pageSize.toNat_lt
    have hlatch : Stores _
        (c.fillLatch (c.flash.base + offset) (c.flash.pageSize.toNat / 4) 0 data) :=
      stores_fillLatch (by omega) data
    rw [UInt32.toNat_add, Nat.mod_eq_of_lt hexists] at hlatch
    refine (hlatch.bind_keeps fun _ => keeps_lift_bind fun number _ =>
      (c.performs_issue .writePage number).keeps_any.discard).mono ?_
    rintro _ ⟨j, hj, rfl⟩
    exact ⟨j, hj, by rw [Nat.zero_add]⟩

theorem keeps_readWords {address : UInt32} {left n : Nat} (hn : n + left ≤ 0x100000000)
    (hstart : c.flash.base.toNat ≤ address.toNat)
    (hextent : address.toNat + 4 * (n + left) ≤ c.flash.base.toNat + extent) (got : List UInt32) :
    Keeps (Contained c.base c.flash.base extent) (c.monitor.readWords address left n got) := by
  induction left generalizing n got with
  | zero => exact keeps_ok
  | succ left ih =>
    refine keeps_lift_bind fun place hplace => ?_
    obtain ⟨hplace, -⟩ := toNat_wordAddress (by omega) hplace
    have hinside : Inside c.flash.base extent place := ⟨by omega, by omega⟩
    exact (c.monitor.keeps_readWord (.inr hinside)).bind fun _ => ih (by omega) (by omega) _

section Pages

variable {offset : UInt32} (hoffset : offset.toNat + c.flash.pageSize.toNat ≤ extent)

include hoffset

theorem keeps_writePage (data : List UInt8) :
    Keeps (Contained c.base c.flash.base extent) (c.writePage offset data) := by
  unfold writePage
  dsimp only
  split
  · exact keeps_error
  · refine keeps_lift_bind fun window hwindow => ?_
    obtain ⟨rfl, hexists⟩ := Word.add_eq_ok hwindow
    have hwindow : (c.flash.base + offset).toNat = c.flash.base.toNat + offset.toNat := by
      rw [UInt32.toNat_add, Nat.mod_eq_of_lt hexists]
    have hpage := c.flash.pageSize.toNat_lt
    have hlatch : Keeps (Contained c.base c.flash.base extent)
        (c.fillLatch (c.flash.base + offset) (c.flash.pageSize.toNat / 4) 0 data) :=
      keeps_fillLatch (by omega) (by omega) (by omega) data
    refine hlatch.bind fun _ => keeps_lift_bind fun number _ => Keeps.discard ?_
    exact (c.performs_issue .writePage number).keeps (by simpa using fun _ => contained_of_uses)

theorem keeps_readPage (hgeometry : c.flash.Plausible) :
    Keeps (Contained c.base c.flash.base extent) (c.readPage offset) := by
  refine keeps_lift_bind fun address haddress => ?_
  obtain ⟨rfl, hexists⟩ := Word.add_eq_ok haddress
  have haddress : (c.flash.base + offset).toNat = c.flash.base.toNat + offset.toNat := by
    rw [UInt32.toNat_add, Nat.mod_eq_of_lt hexists]
  have hpage := c.flash.pageSize.toNat_lt
  have hmod := hgeometry.pageSize_mod
  refine keeps_lift_bind fun padded hpadded => keeps_lift_bind fun _ _ => ?_
  obtain rfl := Size.add_eq_ok hpadded
  have hread : Keeps (Contained c.base c.flash.base extent)
      (c.monitor.readWords (c.flash.base + offset) ((c.flash.pageSize.toNat + 3) / 4) 0 []) :=
    keeps_readWords (by omega) (by omega) (by omega) []
  exact hread.bind fun _ => keeps_ok

end Pages

end Flash.Controller

namespace Programmer

variable {p : Programmer} {image : List UInt8}

/-- The bytes of the pages that an image takes. -/
def extent (p : Programmer) (image : List UInt8) : Nat :=
  p.total image * p.pageSize

section Loops

variable (hflash : p.flash.Plausible) (hfits : image.length ≤ p.flash.size.toNat)

include hflash hfits

theorem pageOffset_add_le {page : Nat} (hpage : page < p.total image) :
    (p.pageOffset page).toNat + p.flash.pageSize.toNat ≤ p.extent image := by
  have hnext : (page + 1) * p.pageSize ≤ p.total image * p.pageSize :=
    Nat.mul_le_mul_right _ hpage
  rw [toNat_pageOffset hfits (page_mul_lt hflash.pageSize_pos hpage)]
  rw [Nat.add_mul, Nat.one_mul] at hnext
  exact hnext

theorem keeps_writePages {total page : Nat} {pages : List (List UInt8)}
    (hpages : page + pages.length ≤ p.total image) :
    Keeps (Contained p.controller.base p.flash.base (p.extent image))
      (p.writePages total page pages) := by
  induction pages generalizing page with
  | nil => exact keeps_ok
  | cons chunk pages ih =>
    rw [List.length_cons] at hpages
    have hwrite : Keeps (Contained p.controller.base p.flash.base (p.extent image))
        (p.controller.writePage (p.pageOffset page) chunk) :=
      Controller.keeps_writePage (pageOffset_add_le hflash hfits (by omega)) chunk
    have hrest : Keeps (Contained p.controller.base p.flash.base (p.extent image)) (do
        Link.report ⟨.writing, page, total⟩
        p.controller.writePage (p.pageOffset page) chunk
        p.writePages total (page + 1) pages) :=
      keeps_report_bind (hwrite.bind fun _ => ih (by omega))
    unfold writePages
    split
    · refine keeps_report_bind (Keeps.bind ?_ fun _ => hrest)
      exact (p.controller.performs_eraseSector _).keeps
        (by simpa using fun _ => Controller.contained_of_uses)
    · exact hrest

theorem stores_writePages {total page : Nat} {pages : List (List UInt8)}
    (hpages : page + pages.length ≤ p.total image) :
    Stores (fun place => ∃ k < pages.length, ∃ j < p.pageSize / 4,
        place = p.flash.base.toNat + (page + k) * p.pageSize + 4 * j)
      (p.writePages total page pages) := by
  induction pages generalizing page with
  | nil => exact stores_none fun place ⟨k, hk, _⟩ => Nat.not_lt_zero k hk
  | cons chunk pages ih =>
    rw [List.length_cons] at hpages
    have hoffset := toNat_pageOffset hfits
      (page_mul_lt hflash.pageSize_pos (show page < p.total image by omega))
    have hwrite := p.controller.stores_writePage (p.pageOffset page) chunk
    rw [hoffset] at hwrite
    have hnext : Stores _ (p.writePages total (page + 1) pages) := ih (by omega)
    have hrest : Stores (fun place => ∃ k < (chunk :: pages).length, ∃ j < p.pageSize / 4,
        place = p.flash.base.toNat + (page + k) * p.pageSize + 4 * j) (do
          Link.report ⟨.writing, page, total⟩
          p.controller.writePage (p.pageOffset page) chunk
          p.writePages total (page + 1) pages) := by
      refine stores_report_bind ((hwrite.bind fun _ => hnext).mono ?_)
      rintro _ ⟨k, hk, j, hj, rfl⟩
      cases k with
      | zero => exact .inl ⟨j, hj, rfl⟩
      | succ k =>
        refine .inr ⟨k, Nat.lt_of_succ_lt_succ hk, j, hj, ?_⟩
        rw [Nat.add_assoc page 1 k, Nat.add_comm 1 k]
    unfold writePages
    split
    · exact stores_report_bind
        ((p.controller.performs_eraseSector _).keeps_any.bind_stores fun _ => hrest)
    · exact hrest

theorem keeps_verifyPages {total page : Nat} {pages : List (List UInt8)}
    (hpages : page + pages.length ≤ p.total image) :
    Keeps (Contained p.controller.base p.flash.base (p.extent image))
      (p.verifyPages total page pages) := by
  induction pages generalizing page with
  | nil => exact keeps_ok
  | cons chunk pages ih =>
    rw [List.length_cons] at hpages
    have hread : Keeps (Contained p.controller.base p.flash.base (p.extent image))
        (p.controller.readPage (p.pageOffset page)) :=
      Controller.keeps_readPage (pageOffset_add_le hflash hfits (by omega)) hflash
    refine keeps_report_bind (hread.bind fun data => ?_)
    split
    · exact keeps_lift_bind fun address _ => keeps_note_bind keeps_error
    · exact ih (by omega)

end Loops

theorem length_pages_le (hflash : p.flash.Plausible) (image : List UInt8) :
    0 + (chunks p.flash.pageSize.toNat image).length ≤ p.total image := by
  rw [Nat.zero_add]
  exact Nat.le_of_eq (pages_eq image hflash).1

theorem keeps_boot {extent : Nat} :
    Keeps (Contained p.controller.base p.flash.base extent)
      ((p.controller.setBit p.target.bootBit).bind fun _ => Link.note .programmed) :=
  ((p.controller.performs_setBit _).keeps (by simpa using fun _ => Controller.contained_of_uses)).bind
    fun _ => keeps_note _

theorem keeps_install (hflash : p.flash.Plausible) (image : List UInt8) (verify : Bool) :
    Keeps (Contained p.controller.base p.flash.base (p.extent image)) (p.install image verify) := by
  unfold install
  by_cases hlarge : p.flash.size.toNat < image.length
  · rw [if_pos hlarge]
    exact keeps_note_bind keeps_error
  · rw [if_neg hlarge]
    have hfits : image.length ≤ p.flash.size.toNat := Nat.not_lt.1 hlarge
    have hpages := length_pages_le hflash image
    have hunlock : Keeps (Contained p.controller.base p.flash.base (p.extent image))
        p.controller.unlockAll := by
      refine (p.controller.performs_unlockAll).keeps ?_
      intro a ha m hm
      obtain ⟨i, -, rfl⟩ := List.mem_map.1 ha
      exact Controller.contained_of_uses hm
    refine keeps_lift_bind fun total _ => keeps_note_bind (hunlock.bind fun _ => ?_)
    refine (keeps_writePages hflash hfits hpages).bind fun _ => ?_
    cases verify with
    | false => exact keeps_boot
    | true => exact (keeps_verifyPages hflash hfits hpages).bind fun _ => keeps_boot

theorem stores_install (hflash : p.flash.Plausible) (image : List UInt8) (verify : Bool) :
    Stores (fun place => ∃ page < p.total image, ∃ j < p.pageSize / 4,
        place = p.flash.base.toNat + page * p.pageSize + 4 * j) (p.install image verify) := by
  unfold install
  by_cases hlarge : p.flash.size.toNat < image.length
  · rw [if_pos hlarge]
    exact stores_note_bind stores_error
  · rw [if_neg hlarge]
    have hfits : image.length ≤ p.flash.size.toNat := Nat.not_lt.1 hlarge
    have hpages := length_pages_le hflash image
    refine stores_lift_bind fun total _ => stores_note_bind
      (p.controller.performs_unlockAll.keeps_any.bind_stores fun _ => ?_)
    have hwrite : Stores _ (p.writePages total 0 (chunks p.flash.pageSize.toNat image)) :=
      stores_writePages hflash hfits hpages
    refine (hwrite.bind_keeps (P := Contained p.controller.base p.flash.base (p.extent image))
      fun _ => ?_).mono ?_
    · cases verify with
      | false => exact keeps_boot
      | true => exact (keeps_verifyPages hflash hfits hpages).bind fun _ => keeps_boot
    · rintro _ ⟨page, hpage, j, hj, rfl⟩
      rw [(pages_eq image hflash).1]
      exact ⟨page, hpage, j, hj, by rw [Nat.zero_add]⟩

/-! ## Installations -/

theorem contained_mono {base start : UInt32} {extent extent' : Nat} (h : extent ≤ extent')
    {m : Monitor.Command} (hm : Contained base start extent m) : Contained base start extent' m := by
  cases m with
  | normalMode => exact hm
  | go address => exact hm
  | readWord address =>
    exact hm.imp_right fun hinside => ⟨hinside.1, Nat.le_trans hinside.2 (Nat.add_le_add_left h _)⟩
  | writeWord address value =>
    exact hm.imp_right fun hinside => ⟨hinside.1, Nat.le_trans hinside.2 (Nat.add_le_add_left h _)⟩

/-- An image that fits into the whole pages of the flash has pages that fit into the flash. -/
theorem extent_le_size (hflash : p.flash.Plausible)
    (hwhole : image.length ≤ p.flash.size.toNat / p.pageSize * p.pageSize) :
    p.extent image ≤ p.flash.size.toNat := by
  have hpos : 0 < p.pageSize := hflash.pageSize_pos
  have htotal : p.total image ≤ p.flash.size.toNat / p.pageSize := by
    refine Nat.le_of_lt_succ (Nat.div_lt_of_lt_mul ?_)
    rw [Nat.mul_succ, Nat.mul_comm p.pageSize]
    omega
  exact Nat.le_trans (Nat.mul_le_mul_right _ htotal) (Nat.div_mul_le_self _ _)

theorem stored_of_plays (hflash : p.flash.Plausible) {verify : Bool}
    {es : List (Exchange Link.interface)} (h : (p.install image verify).Plays es (.ok ()))
    {offset : Nat} (hoffset : offset < p.extent image) (haligned : offset % 4 = 0) :
    ∃ address value, address.toNat = p.flash.base.toNat + offset ∧
      (Monitor.Command.writeWord address value).bytes <:+: Link.accepted es := by
  have hpos : 0 < p.pageSize := hflash.pageSize_pos
  have hmod : p.pageSize % 4 = 0 := hflash.pageSize_mod
  have hin : offset % p.pageSize < p.pageSize := Nat.mod_lt _ hpos
  have hrest : offset % p.pageSize % 4 = 0 := by
    rw [Nat.mod_mod_of_dvd _ (Nat.dvd_of_mod_eq_zero hmod), haligned]
  have hpage : offset / p.pageSize < p.total image := by
    refine Nat.div_lt_of_lt_mul ?_
    rw [Nat.mul_comm]
    exact hoffset
  have hplace : p.flash.base.toNat + offset = p.flash.base.toNat +
      offset / p.pageSize * p.pageSize + 4 * (offset % p.pageSize / 4) := by
    have hsplit := Nat.div_add_mod' offset p.pageSize
    omega
  obtain ⟨evs, hevs, hstored⟩ := stores_install hflash image verify es (.ok ()) h
  obtain ⟨address, value, haddress, hmem⟩ := hstored _ ⟨_, hpage, _, by omega, hplace⟩
  refine ⟨address, value, haddress, ?_⟩
  rw [hevs.accepted_eq]
  exact found_of_mem hmem

/-- Whatever is answered, an installation uses no word beyond the pages that the image takes, except
for the two registers, and if it succeeds, it has written every word of these pages. So it stays
within the flash if the image fits into the whole pages of the flash. -/
theorem install_contained {monitor : Monitor} {base flashBase : UInt32} {pollLimit : Option UInt32}
    {opening : List (Exchange Link.interface)} {c : Controller}
    (hopen : (Controller.connect monitor base flashBase pollLimit).Plays opening (.ok c))
    (target : Target) (image : List UInt8) (verify : Bool)
    {es : List (Exchange Link.interface)} {o : Outcome LinkError Unit}
    (h : ((⟨target, c⟩ : Programmer).install image verify).Plays es o) :
    (∀ m : Monitor.Command, m.bytes <:+: Link.accepted es →
      Contained base flashBase (extent ⟨target, c⟩ image) m) ∧
    (image.length ≤ c.flash.size.toNat / c.flash.pageSize.toNat * c.flash.pageSize.toNat →
      ∀ m : Monitor.Command, m.bytes <:+: Link.accepted es →
        Contained base flashBase c.flash.size.toNat m) ∧
    (o = .ok () → ∀ offset < extent ⟨target, c⟩ image, offset % 4 = 0 →
      ∃ address value, address.toNat = flashBase.toNat + offset ∧
        (Monitor.Command.writeWord address value).bytes <:+: Link.accepted es) := by
  obtain ⟨rfl, rfl, hflash⟩ := Controller.plausible_of_connect hopen
  have hcontained : ∀ m : Monitor.Command, m.bytes <:+: Link.accepted es →
      Contained c.base c.flash.base (extent ⟨target, c⟩ image) m := fun m hm =>
    (keeps_install (p := ⟨target, c⟩) hflash image verify).found h hm
  refine ⟨hcontained, fun hwhole m hm => ?_, ?_⟩
  · exact contained_mono (extent_le_size (p := ⟨target, c⟩) hflash hwhole) (hcontained m hm)
  · rintro rfl offset hoffset haligned
    exact stored_of_plays (p := ⟨target, c⟩) hflash h hoffset haligned

/-- On a flash of 128 pages, an installation of three bytes keeps to the flash. -/
theorem three_bytes_contained :
    ∃ (c : Controller) (opening es : List (Exchange Link.interface)),
      (Controller.connect ⟨{}⟩ Target.badge.controllerBase Target.badge.flashBase none).Plays opening
        (.ok c) ∧
      ((⟨.badge, c⟩ : Programmer).install [0xde, 0xad, 0xbe] false).Plays es (.ok ()) ∧
      (∀ m : Monitor.Command, m.bytes <:+: Link.accepted es →
        Contained Target.badge.controllerBase Target.badge.flashBase 65536 m) ∧
      ∃ address value, address.toNat = Target.badge.flashBase.toNat + 508 ∧
        (Monitor.Command.writeWord address value).bytes <:+: Link.accepted es := by
  obtain ⟨opening, hopen⟩ := Controller.yields_connect ⟨{}⟩ (by decide)
    addressable_badge none plausible_chip
  have hinstall : Yields ((⟨.badge, ⟨⟨{}⟩, Target.badge.controllerBase, none, Chip.descriptor⟩⟩ :
      Programmer).install [0xde, 0xad, 0xbe] false) () :=
    yields_install plausible_chip addressable_badge (by decide) (by decide) (by decide) (by decide)
  obtain ⟨es, hes⟩ := hinstall
  obtain ⟨-, hcontained, hwritten⟩ := install_contained hopen .badge _ false hes
  exact ⟨_, opening, es, hopen, hes, hcontained (by decide), hwritten rfl 508 (by decide) rfl⟩

/-- A description of a flash that is no whole number of pages. -/
def unevenFlash : Descriptor where
  id := 0x00150200
  size := 6
  pageSize := 4
  pagesPerSector := 16
  planes := [6]
  base := Target.badge.flashBase

theorem plausible_unevenFlash : unevenFlash.Plausible :=
  ⟨by decide, by decide, by decide, by decide, by decide, rfl⟩

/-- It is accepted, and so is an image as large as the flash, of which the last word is written over
the end of the flash. -/
theorem word_beyond_uneven_flash :
    ∃ (c : Controller) (opening es : List (Exchange Link.interface)),
      (Controller.connect ⟨{}⟩ Target.badge.controllerBase Target.badge.flashBase none).Plays opening
        (.ok c) ∧
      c.flash = unevenFlash ∧ [1, 2, 3, 4, 5, 6].length ≤ c.flash.size.toNat ∧
      ((⟨.badge, c⟩ : Programmer).install [1, 2, 3, 4, 5, 6] false).Plays es (.ok ()) ∧
      ∃ address value, (Monitor.Command.writeWord address value).bytes <:+: Link.accepted es ∧
        address ≠ registerAt c.base .command ∧
        c.flash.base.toNat + c.flash.size.toNat < address.toNat + 4 := by
  obtain ⟨opening, hopen⟩ := Controller.yields_connect ⟨{}⟩ (by decide)
    addressable_badge none plausible_unevenFlash
  have hinstall : Yields ((⟨.badge, ⟨⟨{}⟩, Target.badge.controllerBase, none, unevenFlash⟩⟩ :
      Programmer).install [1, 2, 3, 4, 5, 6] false) () :=
    yields_install plausible_unevenFlash addressable_badge (by decide) (by decide) (by decide)
      (by decide)
  obtain ⟨es, hes⟩ := hinstall
  obtain ⟨address, value, haddress, hfound⟩ :=
    stored_of_plays (p := ⟨.badge, ⟨⟨{}⟩, Target.badge.controllerBase, none, unevenFlash⟩⟩)
      plausible_unevenFlash hes (show 4 < _ by decide) rfl
  have haddress : address.toNat = 0x400004 := haddress
  refine ⟨_, opening, es, hopen, rfl, by decide, hes, address, value, hfound, ?_, ?_⟩
  · rintro rfl
    exact absurd haddress (by decide)
  · rw [haddress]
    decide

end Programmer

end BadgeLink
