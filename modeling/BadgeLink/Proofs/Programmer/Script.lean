import BadgeLink.Proofs.Flash.Descriptor
import BadgeLink.Proofs.Programmer.Pages

/-!
# The script of an installation

Installing an image works through one list of acts that depends on nothing that the device answers:
unlock every region; write page after page, each sector erased before its first page; if asked to,
compare page after page; and select the flash as boot source.

* `Programmer.script` is that list.
* `performs_install`: an installation of an image that fits works through its script.
-/

namespace BadgeLink.Programmer

open Dialogue Monitor Flash

variable (p : Programmer) (image : List UInt8)

def pageSize : Nat := p.flash.pageSize.toNat

def total : Nat := pageTotal p.pageSize image

def pageAddress (page : Nat) : UInt32 :=
  p.flash.base + p.pageOffset page

/-- The acts that write a page: at the start of a sector the sector is erased, then the words of the
page, padded with zeros, are stored, and then the page is committed. -/
def writing (page : Nat) : List Act :=
  (if page % 16 = 0 then
    [.report ⟨.erasing, page, p.total image⟩,
      .command .erasePages (UInt32.ofNat page ||| Command.sixteenPages)]
  else []) ++
  [.report ⟨.writing, page, p.total image⟩] ++
  (List.range (p.pageSize / 4)).map (fun j => .store (p.pageAddress page + UInt32.ofNat j * 4)
    (Word.ofLittleEndian (((padded p.pageSize (pageOf p.pageSize image page)).drop (4 * j)).take 4)))
  ++ [.command .writePage (UInt32.ofNat page)]

/-- The acts that compare a page. -/
def comparing (page : Nat) : List Act :=
  [.report ⟨.verifying, page, p.total image⟩,
    .compare p.flash.base (p.pageOffset page) (p.pageSize / 4) (pageOf p.pageSize image page)]

/-- The acts that put the image into the flash. -/
def written : List Act :=
  Controller.unlocking p.flash.locks.length 0 ++
    (List.range (p.total image)).flatMap (p.writing image)

/-- The acts that compare the flash with the image. -/
def compared : List Act :=
  (List.range (p.total image)).flatMap (p.comparing image)

/-- The act that selects the flash as boot source. -/
def booting : Act :=
  .command .setBit p.target.bootBit

/-- The acts of an installation. An image that does not fit is not begun. -/
def script (verify : Bool) : List Act :=
  if p.flash.size.toNat < image.length then []
  else p.written image ++ (if verify then p.compared image else []) ++ [p.booting]

/-! ## Addresses and numbers of pages -/

section Pages

variable {p image} (hflash : p.flash.Plausible) (hfits : image.length ≤ p.flash.size.toNat)

include hfits in
theorem toNat_pageOffset {page : Nat} (hpage : page * p.pageSize < image.length) :
    (p.pageOffset page).toNat = page * p.pageSize := by
  have hsize := p.flash.size.toNat_lt
  rw [pageOffset, UInt32.toNat_ofNat', Nat.mod_eq_of_lt]
  · rfl
  · exact Nat.lt_of_lt_of_le hpage (Nat.le_of_lt (Nat.lt_of_le_of_lt hfits hsize))

include hflash hfits in
theorem firstPage_pageOffset {page : Nat} (hpage : page * p.pageSize < image.length)
    (hsector : page % 16 = 0) :
    Controller.firstPage p.flash (p.pageOffset page) = page := by
  have hpos : 0 < p.pageSize := hflash.pageSize_pos
  have hsixteen : p.flash.pagesPerSector.toNat = 16 := by
    rw [hflash.pagesPerSector_eq]
    rfl
  rw [Controller.firstPage, toNat_pageOffset hfits hpage, hsixteen]
  show page * p.pageSize / (p.pageSize * 16) * 16 = page
  rw [Nat.mul_comm page, Nat.mul_div_mul_left _ _ hpos]
  exact Nat.div_mul_cancel (Nat.dvd_of_mod_eq_zero hsector)

include hflash hfits in
theorem pageOffset_div {page : Nat} (hpage : page * p.pageSize < image.length) :
    p.pageOffset page / p.flash.pageSize = UInt32.ofNat page := by
  have hpos : 0 < p.pageSize := hflash.pageSize_pos
  have hle : page ≤ page * p.pageSize := Nat.le_mul_of_pos_right page hpos
  have hsize := p.flash.size.toNat_lt
  apply UInt32.toNat_inj.1
  rw [UInt32.toNat_div, toNat_pageOffset hfits hpage, UInt32.toNat_ofNat', Nat.mod_eq_of_lt (by omega)]
  exact Nat.mul_div_cancel _ hpos

end Pages

/-- Zeros behind the data change no word of it. -/
theorem ofLittleEndian_padded (size : Nat) (data : List UInt8) (k : Nat) :
    Word.ofLittleEndian (((padded size data).drop k).take 4) =
      Word.ofLittleEndian ((data.drop k).take 4) := by
  rw [padded, List.drop_append, List.take_append, List.drop_replicate, List.take_replicate,
    Word.ofLittleEndian_append_zeros]

variable {p image}

/-! ## The loops -/

section Loops

variable (hflash : p.flash.Plausible) (hfits : image.length ≤ p.flash.size.toNat)

include hflash hfits in
theorem performs_writePage {page : Nat} (hpage : page < p.total image) :
    Performs p.controller.base (p.controller.writePage (p.pageOffset page)
        (pageOf p.pageSize image page))
      ((List.range (p.pageSize / 4)).map (fun j => .store (p.pageAddress page + UInt32.ofNat j * 4)
        (Word.ofLittleEndian (((padded p.pageSize (pageOf p.pageSize image page)).drop (4 * j)).take
          4))) ++ [.command .writePage (UInt32.ofNat page)]) := by
  have hlt := page_mul_lt hflash.pageSize_pos hpage
  have h := p.controller.performs_writePage (p.pageOffset page)
    (length_pageOf_le p.pageSize image page)
  rw [Controller.writingPage, Controller.storing] at h
  simp only [ofLittleEndian_padded]
  rw [← pageOffset_div hflash hfits hlt]
  simp only [Nat.zero_add] at h
  exact h

include hflash hfits in
theorem performs_writePages (count page : Nat) (hcount : page + count ≤ p.total image) :
    Performs p.controller.base
      (p.writePages (p.total image) page
        ((List.range count).map fun i => pageOf p.pageSize image (page + i)))
      ((List.range count).flatMap fun i => p.writing image (page + i)) := by
  induction count generalizing page with
  | zero => exact performs_ok
  | succ count ih =>
    have hpage : page < p.total image := by omega
    have hlt := page_mul_lt hflash.pageSize_pos hpage
    have hrest := ih (page + 1) (by omega)
    have hnext : ∀ i, page + 1 + i = page + (i + 1) := by omega
    simp only [hnext] at hrest
    have hsixteen : p.flash.pagesPerSector.toNat = 16 := by
      rw [hflash.pagesPerSector_eq]
      rfl
    have hwrite := (performs_report p.controller.base ⟨.writing, page, p.total image⟩).bind fun _ =>
      (performs_writePage hflash hfits hpage).bind fun _ => hrest
    rw [map_range_succ, flatMap_range_succ, Nat.add_zero, writePages, hsixteen, writing]
    split
    · next hsector =>
      have herase := p.controller.performs_eraseSector (p.pageOffset page)
      have hfirst : Controller.firstPage p.controller.flash (p.pageOffset page) = page :=
        firstPage_pageOffset hflash hfits hlt hsector
      rw [hfirst] at herase
      have h := (performs_report p.controller.base ⟨.erasing, page, p.total image⟩).bind fun _ =>
        herase.bind fun _ => hwrite
      simpa only [bind_eq, List.append_assoc, List.cons_append, List.nil_append] using h
    · simpa only [bind_eq, List.append_assoc, List.cons_append, List.nil_append] using hwrite

include hflash in
/-- A page that was read back is compared with the image, and a difference ends the work. -/
theorem performs_comparePage (page : Nat) {next : Link Unit} {acts : List Act}
    (hnext : Performs p.controller.base next acts) :
    Performs p.controller.base
      ((p.controller.readPage (p.pageOffset page)).bind fun data =>
        if data.take (pageOf p.pageSize image page).length ≠ pageOf p.pageSize image page then do
          let address ← Word.add p.flash.base (p.pageOffset page)
          Link.note (.verificationFailed address)
          throw (.verification address)
        else next)
      (.compare p.flash.base (p.pageOffset page) (p.pageSize / 4) (pageOf p.pageSize image page) ::
        acts) := by
  refine (p.controller.traces_readPage (p.pageOffset page) hflash.pageSize_mod).bind ?_ ?_
  · rintro evs s (h | ⟨rfl, x, rfl⟩)
    · exact .stopped acts (.unread _ h)
    · exact .crash _ x
  · intro evs data hpost
    obtain ⟨answers, hexists, hlen, hdata, rfl, rfl⟩ := hpost
    have haddress : Word.add p.flash.base (p.pageOffset page) = .ok (p.pageAddress page) :=
      if_pos hexists
    split
    · next hne =>
      rw [haddress]
      refine traces_note_bind (traces_error ?_)
      rw [List.append_nil]
      exact .stopped acts (.differs hexists hlen hdata hne)
    · next heq =>
      have heq := Decidable.not_not.1 heq
      exact Traces.mono hnext (fun _ _ h => .done (.compare hexists hlen hdata heq) h)
        fun _ _ h => .done (.compare hexists hlen hdata heq) h

include hflash in
theorem performs_verifyPages (count page : Nat) :
    Performs p.controller.base
      (p.verifyPages (p.total image) page
        ((List.range count).map fun i => pageOf p.pageSize image (page + i)))
      ((List.range count).flatMap fun i => p.comparing image (page + i)) := by
  induction count generalizing page with
  | zero => exact performs_ok
  | succ count ih =>
    have hrest := ih (page + 1)
    have hnext : ∀ i, page + 1 + i = page + (i + 1) := by omega
    simp only [hnext] at hrest
    rw [map_range_succ, flatMap_range_succ, Nat.add_zero, verifyPages, comparing]
    exact (performs_report _ _).bind fun _ => performs_comparePage hflash page hrest

include hflash in
/-- The number of pages that is computed for an image is the number of its pages. -/
theorem pageCount_eq_ok {total : Nat} (h : p.flash.pageCount image.length = .ok total) :
    total = p.total image := by
  have hne : p.flash.pageSize ≠ 0 := by
    intro hzero
    have hpos := hflash.pageSize_pos
    rw [hzero] at hpos
    exact Nat.lt_irrefl 0 hpos
  rw [Descriptor.pageCount, if_neg hne] at h
  cases hadd : Size.add image.length p.flash.pageSize.toNat with
  | error c =>
    rw [hadd] at h
    cases h
  | ok sum =>
    rw [hadd] at h
    rw [← Except.ok.inj h, Size.add_eq_ok hadd]
    rfl

include hflash hfits in
/-- An installation of an image that fits works through its script. -/
theorem performs_install (verify : Bool) :
    Performs p.controller.base (p.install image verify) (p.script image verify) := by
  unfold install script
  rw [if_neg (Nat.not_lt.2 hfits), if_neg (Nat.not_lt.2 hfits)]
  refine performs_lift_bind fun total htotal => performs_note_bind ?_
  rw [pageCount_eq_ok hflash htotal]
  have hchunks : chunks p.flash.pageSize.toNat image =
      (List.range (p.total image)).map fun i => pageOf p.pageSize image (0 + i) := by
    simp only [Nat.zero_add]
    exact chunks_eq hflash.pageSize_pos image
  have hwrite := performs_writePages hflash hfits (p.total image) 0 (by omega)
  have hcompare := @performs_verifyPages p image hflash (p.total image) 0
  rw [← hchunks] at hwrite hcompare
  have hboot : Performs p.controller.base
      ((p.controller.setBit p.target.bootBit).bind fun _ => Link.note .programmed) [p.booting] :=
    (p.controller.performs_setBit _).bind fun _ => performs_note _
  have hunlock := p.controller.performs_unlockAll
  simp only [Nat.zero_add] at hwrite hcompare
  rw [List.append_assoc]
  rw [written, List.append_assoc]
  refine hunlock.bind fun _ => hwrite.bind fun _ => ?_
  cases verify with
  | false => exact hboot
  | true => exact hcompare.bind fun _ => hboot

/-- An image that does not fit is refused before anything is said or told. -/
theorem install_tooLarge (p : Programmer) {image : List UInt8}
    (hlarge : p.flash.size.toNat < image.length) {verify : Bool}
    {es : List (Exchange Link.interface)} {o : Outcome LinkError Unit}
    (h : (p.install image verify).Plays es o) :
    Link.signals es = [] ∧ o = .error (.imageTooLarge image.length p.flash.size.toNat) := by
  unfold install at h
  rw [if_pos hlarge] at h
  cases h with
  | ask h =>
    cases h
    exact ⟨rfl, rfl⟩

end Loops

end BadgeLink.Programmer
