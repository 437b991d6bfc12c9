import BadgeLink.Proofs.Flash.Places
import BadgeLink.Proofs.Programmer.Overflow
import BadgeLink.Proofs.Programmer.Wire

/-!
# Which page a command is for

A flash command names its page in sixteen bits of its word. The number of a page is computed in 32
bits, and the description of the flash does not bound how many pages there are, so what the command
names is the number modulo 2^16. Up to 65536 pages that is the page that was asked for; beyond, pages
share their commands.

All of this is said of the bytes that the port accepted, in which a command is found wherever it was
sent. A word that is written to the command register issues a command, unless the register stands in
the window of the flash and the word is one of a page.

* `accepted_writePage`, `accepted_eraseSector`: the one command that writes a page or erases a sector.
* `commands_name_pages`: its argument, and that of every such command of an installation.
-/

namespace BadgeLink

open Dialogue Monitor

namespace Flash

variable {base : UInt32}

/-- The monitor commands that issue a command by its word, and then poll the status. -/
def issuance (base w : UInt32) (more : Nat) : List Monitor.Command :=
  .writeWord (registerAt base .command) w ::
    List.replicate (more + 1) (.readWord (registerAt base .status))

/-- Behind these bytes, the port accepted the write of a word to the command register. -/
def WrittenBehind (base : UInt32) (es : List (Exchange Link.interface)) (before : List UInt8)
    (w : UInt32) : Prop :=
  before ++ (Monitor.Command.writeWord (registerAt base .command) w).bytes <+: Link.accepted es

theorem WrittenBehind.found {es : List (Exchange Link.interface)} {before : List UInt8} {w : UInt32}
    {ms : List Monitor.Command} (h : WrittenBehind base es before w)
    (haccepted : Link.accepted es <+: ms.flatMap Command.bytes) :
    before ++ (ofWrite (registerAt base .command, w)).bytes <+: ms.flatMap Command.bytes :=
  List.IsPrefix.trans h haccepted

theorem Spells.eq_issuance {c : Command} {arg : UInt32} {ms : List Monitor.Command}
    (h : Spells base [.command c arg] ms) : ∃ more, ms = issuance base (c.word arg) more := by
  cases h with
  | command _ _ more h =>
    cases h
    rw [List.append_nil, ← Command.word_eq]
    exact ⟨more, rfl⟩

/-- Stores are spelled by writes, one for each. -/
theorem Spells.eq_map_of_stores {α : Type} {xs : List α} {address value : α → UInt32}
    {ms : List Monitor.Command} (h : Spells base (xs.map fun x => .store (address x) (value x)) ms) :
    ms = xs.map fun x => .writeWord (address x) (value x) := by
  induction xs generalizing ms with
  | nil =>
    cases h
    rfl
  | cons x xs ih =>
    cases h with
    | store _ _ h => exact congrArg (_ :: ·) (ih h)

theorem Command.eq_of_code {c c' : Command} (h : c.code = c'.code) : c = c' := by
  have hall : ∀ c ∈ all, ∀ c' ∈ all, c.code = c'.code → c = c' := by decide
  have hmem : ∀ c : Command, c ∈ all := fun c => by cases c <;> decide
  exact hall c (hmem c) c' (hmem c') h

namespace Controller

variable {ctl : Controller} {offset : UInt32} {es : List (Exchange Link.interface)}
  {o : Outcome LinkError Unit}

/-- The writes that fill the latch with a page. -/
def latchWrites (d : Descriptor) (offset : UInt32) (data : List UInt8) : List Monitor.Command :=
  (List.range (d.pageSize.toNat / 4)).map fun j =>
    .writeWord (d.base + offset + UInt32.ofNat j * 4)
      (Word.ofLittleEndian ((data.drop (4 * j)).take 4))

/-- Writing a page fills the latch and then commits it by the number of the page. -/
theorem accepted_writePage {data : List UInt8} (h : (ctl.writePage offset data).Plays es o) :
    ∃ more, let ms := latchWrites ctl.flash offset data ++
        issuance ctl.base (Command.writePage.word (offset / ctl.flash.pageSize)) more
      Link.accepted es <+: ms.flatMap Command.bytes ∧
        (o = .ok () → Link.accepted es = ms.flatMap Command.bytes) := by
  by_cases hdata : data.length ≤ ctl.flash.pageSize.toNat
  · obtain ⟨ms, hms, haccepted⟩ := (ctl.performs_writePage offset hdata).spelled h
    obtain ⟨latch, rest, rfl, hlatch, hrest⟩ := hms.exists_append
    rw [storing] at hlatch
    simp only [Nat.zero_add] at hlatch
    obtain rfl := hlatch.eq_map_of_stores
    obtain ⟨more, rfl⟩ := hrest.eq_issuance
    exact ⟨more, haccepted⟩
  · unfold writePage at h
    rw [if_pos (Nat.not_le.1 hdata)] at h
    cases h
    refine ⟨0, List.nil_prefix, fun ho => ?_⟩
    cases ho

/-- Erasing a sector is one command, with the number of its first page. -/
theorem accepted_eraseSector (h : (ctl.eraseSector offset).Plays es o) :
    ∃ more, let ms := issuance ctl.base (Command.erasePages.word
        (UInt32.ofNat (firstPage ctl.flash offset) ||| Command.sixteenPages)) more
      Link.accepted es <+: ms.flatMap Command.bytes ∧
        (o = .ok () → Link.accepted es = ms.flatMap Command.bytes) := by
  obtain ⟨ms, hms, haccepted⟩ := (ctl.performs_eraseSector offset).spelled h
  obtain ⟨more, rfl⟩ := hms.eq_issuance
  exact ⟨more, haccepted⟩

theorem argument_writePage (offset pageSize : UInt32) :
    Command.argument (Command.writePage.word (offset / pageSize)) =
      offset.toNat / pageSize.toNat % 0x10000 := by
  rw [Command.argument_word, UInt32.toNat_div]

theorem argument_erasePages {page : Nat} (hpage : page < 0x100000000) :
    Command.argument (Command.erasePages.word (UInt32.ofNat page ||| Command.sixteenPages)) =
      (page ||| 2) % 0x10000 := by
  have htwo : Command.sixteenPages.toNat = 2 := rfl
  rw [Command.argument_word, UInt32.toNat_or, UInt32.toNat_ofNat', Nat.mod_eq_of_lt hpage, htwo]

/-- Sixteen pages are asked for, from the first page of the sector on. -/
theorem argument_eraseSector (hgeometry : ctl.flash.Plausible) (offset : UInt32) :
    Command.argument (Command.erasePages.word
        (UInt32.ofNat (firstPage ctl.flash offset) ||| Command.sixteenPages)) =
      (offset.toNat / ctl.flash.pageSize.toNat / 16 * 16 ||| 2) % 0x10000 := by
  have hfirst : firstPage ctl.flash offset =
      offset.toNat / ctl.flash.pageSize.toNat / 16 * 16 := by
    rw [firstPage, toNat_pagesPerSector hgeometry, ← Nat.div_div_eq_div_mul]
    rfl
  have hle : offset.toNat / ctl.flash.pageSize.toNat ≤ offset.toNat := Nat.div_le_self _ _
  have hlt := offset.toNat_lt
  rw [argument_erasePages (by omega), hfirst]

end Controller

end Flash

namespace Programmer

open Flash

variable {p : Programmer} {image : List UInt8} {verify : Bool} {arg : UInt32}

/-! ## The commands of a script -/

theorem fits_of_mem_script {a : Act} (h : a ∈ p.script image verify) :
    image.length ≤ p.flash.size.toNat := by
  unfold script at h
  split at h
  · cases h
  · next hsmall => exact Nat.not_lt.1 hsmall

/-- Apart from unlocking and from selecting the boot source, the commands of a script are those that
write its pages. -/
theorem mem_writing_of_mem_script {c : Flash.Command} (hlock : c ≠ .clearLock) (hboot : c ≠ .setBit)
    (h : .command c arg ∈ p.script image verify) :
    ∃ page < p.total image, .command c arg ∈ p.writing image page := by
  rw [script, if_neg (Nat.not_lt.2 (fits_of_mem_script h)), List.mem_append, List.mem_append] at h
  rcases h with (h | h) | h
  · rcases List.mem_append.1 h with h | h
    · obtain ⟨region, -, hact⟩ := List.mem_map.1 h
      injection hact with hc
      exact absurd hc.symm hlock
    · obtain ⟨page, hpage, h⟩ := List.mem_flatMap.1 h
      exact ⟨page, List.mem_range.1 hpage, h⟩
  · split at h
    · obtain ⟨page, -, h⟩ := List.mem_flatMap.1 h
      simp [comparing] at h
    · cases h
  · injection List.mem_singleton.1 h with hc
    exact absurd hc hboot

theorem eq_of_writePage_mem (h : .command .writePage arg ∈ p.script image verify) :
    ∃ page < p.total image, arg = UInt32.ofNat page := by
  obtain ⟨page, hpage, h⟩ := mem_writing_of_mem_script (by decide) (by decide) h
  refine ⟨page, hpage, ?_⟩
  unfold writing at h
  split at h <;> simpa using h

theorem eq_of_erasePages_mem (h : .command .erasePages arg ∈ p.script image verify) :
    ∃ page < p.total image, page % 16 = 0 ∧ arg = UInt32.ofNat page ||| Command.sixteenPages := by
  obtain ⟨page, hpage, h⟩ := mem_writing_of_mem_script (by decide) (by decide) h
  unfold writing at h
  split at h
  · next hsector => exact ⟨page, hpage, hsector, by simpa using h⟩
  · simp at h

theorem page_lt (hflash : p.flash.Plausible) (hfits : image.length ≤ p.flash.size.toNat) {page : Nat}
    (hpage : page < p.total image) : page < 0x100000000 := by
  have hlt := page_mul_lt hflash.pageSize_pos hpage
  have hle : page ≤ page * p.pageSize := Nat.le_mul_of_pos_right page hflash.pageSize_pos
  have hsize := p.flash.size.toNat_lt
  exact Nat.lt_of_le_of_lt hle (Nat.lt_of_lt_of_le hlt (by omega))

/-! ## Pages that are committed -/

/-- A page of an image was committed, and through this word: the port accepted all that comes before
the commit of the page, and then the write of the word to the command register. -/
def Committed (p : Programmer) (image : List UInt8) (verify : Bool)
    (es : List (Exchange Link.interface)) (page : Nat) (w : UInt32) : Prop :=
  page < p.total image ∧ ∃ before,
    PlacedAt p.controller.base (p.script image verify) (.command .writePage (UInt32.ofNat page))
      before ∧
    WrittenBehind p.controller.base es before w

theorem word_writePage_eq_iff {page page' : Nat} :
    Command.writePage.word (UInt32.ofNat page) = Command.writePage.word (UInt32.ofNat page') ↔
      page % 0x10000 = page' % 0x10000 := by
  rw [Command.word_eq_iff, UInt32.toNat_ofNat', UInt32.toNat_ofNat']
  omega

section Installation

variable (hflash : p.flash.Plausible) {es : List (Exchange Link.interface)}
  {o : Outcome LinkError Unit} (h : (p.install image verify).Plays es o)

include hflash h

/-- A word that was written to the command register is that of a command of the script, or the
script stores it there. -/
theorem placed_of_writtenBehind {before : List UInt8} {w : UInt32}
    (hfound : WrittenBehind p.controller.base es before w) :
    PlacedAt p.controller.base (p.script image verify)
        (.store (registerAt p.controller.base .command) w) before ∨
      ∃ c arg, w = c.word arg ∧
        PlacedAt p.controller.base (p.script image verify) (.command c arg) before := by
  obtain ⟨ms, hms, haccepted, -⟩ := spelled_of_plays hflash h
  obtain ⟨a, hplace, hwrite⟩ := hms.placed (hfound.found haccepted)
  cases a with
  | report => cases hwrite
  | compare => cases hwrite
  | store address value =>
    obtain ⟨rfl, rfl⟩ := Prod.mk.inj (Option.some.inj hwrite)
    exact .inl hplace
  | command c arg =>
    obtain ⟨-, rfl⟩ := Prod.mk.inj (Option.some.inj hwrite)
    exact .inr ⟨c, arg, rfl, hplace⟩

theorem Committed.eq_word {page : Nat} {w : UInt32} (hcommitted : p.Committed image verify es page w) :
    w = Command.writePage.word (UInt32.ofNat page) := by
  obtain ⟨-, before, hplace, hfound⟩ := hcommitted
  obtain ⟨ms, hms, haccepted, -⟩ := spelled_of_plays hflash h
  have hwrite := hplace.write_eq hms (hfound.found haccepted) rfl
  exact (Prod.mk.inj hwrite).2.symm

/-- A successful installation commits all its pages. -/
theorem exists_committed (ho : o = .ok ()) {page : Nat} (hpage : page < p.total image) :
    ∃ w, p.Committed image verify es page w := by
  subst ho
  by_cases hlarge : p.flash.size.toNat < image.length
  · cases (install_tooLarge p hlarge h).2
  · obtain ⟨ms, hms, -, haccepted⟩ := spelled_of_plays hflash h
    have hmem : .command .writePage (UInt32.ofNat page) ∈ p.script image verify := by
      have hwriting : .command .writePage (UInt32.ofNat page) ∈ p.writing image page :=
        List.mem_append_right _ List.mem_cons_self
      have hwritten : .command .writePage (UInt32.ofNat page) ∈ p.written image :=
        List.mem_append_right _ (List.mem_flatMap.2 ⟨page, List.mem_range.2 hpage, hwriting⟩)
      rw [script, if_neg hlarge]
      exact List.mem_append_left _ (List.mem_append_left _ hwritten)
    obtain ⟨before, hplace, hfound⟩ := hms.exists_place hmem rfl
    exact ⟨_, hpage, before, hplace, by rw [WrittenBehind, haccepted rfl]; exact hfound⟩

end Installation

/-- With any description that is accepted, writing a page sends one command, which names the page by
its number modulo 2^16, and erasing a sector sends one, which names the first page of the sector and
asks for sixteen pages. In an installation every word that is written to the command register and is
a command for writing or for erasing stands at the place of a page, whose number it names modulo
2^16, or of a word that the image puts into the register. Two pages are committed through one word
exactly if their numbers are the same modulo 2^16, so that there are none among the first 65536. -/
theorem commands_name_pages {monitor : Monitor} {base flashBase : UInt32}
    {pollLimit : Option UInt32} {opening : List (Exchange Link.interface)} {c : Controller}
    (hopen : (Controller.connect monitor base flashBase pollLimit).Plays opening (.ok c)) :
    (∀ offset data es o, (c.writePage offset data).Plays es o →
      ∃ w more, w.toUInt8 = Command.writePage.code ∧
        Command.argument w = offset.toNat / c.flash.pageSize.toNat % 0x10000 ∧
        let ms := Controller.latchWrites c.flash offset data ++ issuance base w more
        Link.accepted es <+: ms.flatMap Command.bytes ∧
          (o = .ok () → Link.accepted es = ms.flatMap Command.bytes)) ∧
    (∀ offset es o, (c.eraseSector offset).Plays es o →
      ∃ w more, w.toUInt8 = Command.erasePages.code ∧
        Command.argument w = (offset.toNat / c.flash.pageSize.toNat / 16 * 16 ||| 2) % 0x10000 ∧
        Link.accepted es <+: (issuance base w more).flatMap Command.bytes ∧
          (o = .ok () → Link.accepted es = (issuance base w more).flatMap Command.bytes)) ∧
    ∀ target image verify es o, ((⟨target, c⟩ : Programmer).install image verify).Plays es o →
      let p : Programmer := ⟨target, c⟩
      let acts := p.script image verify
      (∀ before w, WrittenBehind base es before w →
        PlacedAt base acts (.store (registerAt base .command) w) before ∨
          (w.toUInt8 = Command.writePage.code →
            ∃ page < p.total image, Command.argument w = page % 0x10000 ∧
              PlacedAt base acts (.command .writePage (UInt32.ofNat page)) before) ∧
          (w.toUInt8 = Command.erasePages.code →
            ∃ page < p.total image, page % 16 = 0 ∧ Command.argument w = (page ||| 2) % 0x10000 ∧
              PlacedAt base acts (.command .erasePages (UInt32.ofNat page ||| Command.sixteenPages))
                before)) ∧
      (∀ page page' w w', p.Committed image verify es page w →
        p.Committed image verify es page' w' → (w = w' ↔ page % 0x10000 = page' % 0x10000)) ∧
      (o = .ok () → ∀ page < p.total image, ∃ w, p.Committed image verify es page w) := by
  obtain ⟨rfl, -, hflash⟩ := Controller.plausible_of_connect hopen
  refine ⟨fun offset data es o h => ?_, fun offset es o h => ?_, fun target image verify es o h => ?_⟩
  · obtain ⟨more, haccepted⟩ := Controller.accepted_writePage h
    exact ⟨_, more, Chip.word_toUInt8 _ _, Controller.argument_writePage _ _, haccepted⟩
  · obtain ⟨more, haccepted⟩ := Controller.accepted_eraseSector h
    exact ⟨_, more, Chip.word_toUInt8 _ _, Controller.argument_eraseSector hflash offset, haccepted⟩
  · intro p acts
    have hgeometry : p.flash.Plausible := hflash
    refine ⟨fun before w hfound => ?_, fun page page' w w' hpage hpage' => ?_, fun ho page hpage => ?_⟩
    · rcases placed_of_writtenBehind hgeometry h hfound with hstore | ⟨cmd, arg, rfl, hplace⟩
      · exact .inl hstore
      · have hfits := fits_of_mem_script hplace.mem
        refine .inr ⟨fun hcode => ?_, fun hcode => ?_⟩
        · obtain rfl := Command.eq_of_code ((Chip.word_toUInt8 cmd arg).symm.trans hcode)
          obtain ⟨page, hpage, rfl⟩ := eq_of_writePage_mem hplace.mem
          refine ⟨page, hpage, ?_, hplace⟩
          rw [Command.argument_word, UInt32.toNat_ofNat']
          omega
        · obtain rfl := Command.eq_of_code ((Chip.word_toUInt8 cmd arg).symm.trans hcode)
          obtain ⟨page, hpage, hsector, rfl⟩ := eq_of_erasePages_mem hplace.mem
          have hlt := page_lt hgeometry hfits hpage
          exact ⟨page, hpage, hsector, Controller.argument_erasePages hlt, hplace⟩
    · rw [hpage.eq_word hgeometry h, hpage'.eq_word hgeometry h]
      exact word_writePage_eq_iff
    · exact exists_committed hgeometry h ho hpage

/-- The third page of a flash with pages of 512 bytes is committed by the number 2. -/
theorem third_page_named : ∃ (c : Controller) (opening es : List (Exchange Link.interface)),
    (Controller.connect ⟨{}⟩ Target.badge.controllerBase Target.badge.flashBase none).Plays opening
      (.ok c) ∧
    c.flash.pageSize = 512 ∧ (c.writePage 1024 [1, 2, 3]).Plays es (.ok ()) ∧
    ∃ w more, w.toUInt8 = Command.writePage.code ∧ Command.argument w = 2 ∧
      Link.accepted es = (Controller.latchWrites c.flash 1024 [1, 2, 3] ++
        issuance Target.badge.controllerBase w more).flatMap Command.bytes := by
  obtain ⟨opening, hopen⟩ := Controller.yields_connect ⟨{}⟩ (by decide)
    addressable_badge none plausible_chip
  have hwritten : Yields (Controller.writePage
      ⟨⟨{}⟩, Target.badge.controllerBase, none, Chip.descriptor⟩ 1024 [1, 2, 3]) () :=
    Controller.yields_writePage (by decide) addressable_badge plausible_chip (by decide) (by decide)
  obtain ⟨es, hes⟩ := hwritten
  obtain ⟨w, more, hcode, hargument, -, haccepted⟩ := (commands_name_pages hopen).1 _ _ _ _ hes
  exact ⟨_, opening, es, hopen, rfl, hes, w, more, hcode, hargument, haccepted rfl⟩

/-- A description of one page more than the argument of a command can name. -/
def manyPages : Descriptor where
  id := 0x00150200
  size := 0x40004
  pageSize := 4
  pagesPerSector := 16
  planes := [0x40004]
  base := Target.badge.flashBase

theorem plausible_manyPages : manyPages.Plausible :=
  ⟨by decide, by decide, by decide, by decide, by decide, rfl⟩

/-- It is accepted, and then its last page is committed by the number of the first. -/
theorem last_page_misnamed : ∃ (c : Controller) (opening es : List (Exchange Link.interface)),
    (Controller.connect ⟨{}⟩ Target.badge.controllerBase Target.badge.flashBase (some 100000)).Plays
      opening (.ok c) ∧
    c.flash = manyPages ∧ (c.writePage 0x40000 [0xaa, 0xbb, 0xcc, 0xdd]).Plays es (.ok ()) ∧
    ∃ w more, w.toUInt8 = Command.writePage.code ∧ Command.argument w = 0 ∧
      (0x40000 : UInt32).toNat / c.flash.pageSize.toNat = 0x10000 ∧
      Link.accepted es = (Controller.latchWrites c.flash 0x40000 [0xaa, 0xbb, 0xcc, 0xdd] ++
        issuance c.base w more).flatMap Command.bytes := by
  obtain ⟨opening, hopen⟩ := Controller.yields_connect ⟨{}⟩ (by decide)
    addressable_badge (some 100000) plausible_manyPages
  have hwritten : Yields (Controller.writePage
      ⟨⟨{}⟩, Target.badge.controllerBase, some 100000, manyPages⟩ 0x40000
      [0xaa, 0xbb, 0xcc, 0xdd]) () :=
    Controller.yields_writePage (by decide) addressable_badge plausible_manyPages (by decide)
      (by decide)
  obtain ⟨es, hes⟩ := hwritten
  obtain ⟨more, -, haccepted⟩ := Controller.accepted_writePage hes
  exact ⟨_, opening, es, hopen, rfl, hes, _, more, Chip.word_toUInt8 _ _,
    Controller.argument_writePage _ _, rfl, haccepted rfl⟩

end Programmer

end BadgeLink
