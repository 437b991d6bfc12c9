import BadgeLink.Proofs.Bench.Writing
import BadgeLink.Proofs.Flash.Willing
import BadgeLink.Proofs.Programmer.Script

/-!
# When an installation overflows

The arithmetic of an installation is on words that the device reported, of which only some relations
are checked. Two bounds are enough for all of it: the size of a sector fits in a word, and the pages
of the image end where the addresses end or before. Neither is checked, and where one fails, there
is a device with which the installation crashes.

* `steady_install`: within the bounds an installation is steady, and by `yields_install` a willing
  device lets it succeed.
* `crashes_install_of_sector`, `crashes_install_of_window`: outside of them a willing device makes it
  crash.
* `install_overflows_iff` is both, for every description that a connection accepts.
-/

namespace BadgeLink.Programmer

open Dialogue Monitor Flash

/-! ## Connections -/

/-- What is known of a programmer that was connected. -/
structure Connected (channel : Channel) (t : Target) (p : Programmer) : Prop where
  target_eq : p.target = t
  channel_eq : p.controller.monitor.channel = channel
  base_eq : p.controller.base = t.controllerBase
  pollLimit_eq : p.controller.pollLimit = t.pollLimit
  geometry : p.flash.Plausible
  flashBase_eq : p.flash.base = t.flashBase

theorem returns_connect (channel : Channel) (t : Target) :
    Returns (connect channel t) (Connected channel t) := by
  unfold connect
  simp only [bind_eq]
  refine returns_bind fun entered => ?_
  cases entered with
  | false => exact returns_bind fun _ => returns_error _ _
  | true =>
    refine returns_bind fun id => returns_bind fun _ => ?_
    obtain ⟨cidr, exid⟩ := id
    dsimp only
    split
    · exact returns_bind fun _ => returns_error _ _
    · have hattached : Returns
          (Controller.connect ⟨channel⟩ t.controllerBase t.flashBase t.pollLimit)
          fun c => Connected channel t ⟨t, c⟩ := by
        intro es c hplays
        obtain ⟨_, -, d, rfl, -, hgeometry, hflash⟩ := Controller.traces_connect _ _ _ _ _ _ hplays
        exact ⟨rfl, rfl, rfl, rfl, hgeometry, hflash⟩
      exact hattached.bind fun c hc => returns_ok hc

/-- Every plausible description can be the one that a connection accepts. -/
theorem yields_connect (channel : Channel) (hpatience : 0 < channel.patience) {t : Target}
    (hregisters : Addressable t.controllerBase) {d : Descriptor} (hgeometry : d.Plausible)
    (hflash : d.base = t.flashBase) :
    Yields (connect channel t)
      ⟨t, { monitor := ⟨channel⟩, base := t.controllerBase, pollLimit := t.pollLimit, flash := d }⟩ := by
  have hattached := Controller.yields_connect ⟨channel⟩ hpatience hregisters
    t.pollLimit hgeometry
  rw [hflash] at hattached
  refine (Monitor.yields_enter (m := ⟨channel⟩) hpatience).bind ?_
  refine (Monitor.yields_readChipId (m := ⟨channel⟩) hpatience _ _ t.cidr t.exid).bind ?_
  refine yields_note_bind ?_
  dsimp only
  rw [if_neg (by simp)]
  exact hattached.bind (yields_ok _)

/-! ## Bounds -/

variable (p : Programmer) (image : List UInt8)

def SectorFits : Prop :=
  16 * p.pageSize < 0x100000000

/-- The pages of an image end where the addresses end, or before. -/
def WindowFits : Prop :=
  p.flash.base.toNat + p.total image * p.pageSize ≤ 0x100000000

instance : Decidable p.SectorFits :=
  inferInstanceAs (Decidable (_ < _))

instance : Decidable (p.WindowFits image) :=
  inferInstanceAs (Decidable (_ ≤ _))

variable {p image}

theorem toNat_pageOffset_of_lt {page : Nat} (h : page * p.pageSize < 0x100000000) :
    (p.pageOffset page).toNat = page * p.pageSize := by
  rw [pageOffset, UInt32.toNat_ofNat']
  exact Nat.mod_eq_of_lt h

theorem pages_eq (image : List UInt8) (hgeometry : p.flash.Plausible) :
    (chunks p.flash.pageSize.toNat image).length = p.total image ∧
      ∀ chunk ∈ chunks p.flash.pageSize.toNat image, chunk.length ≤ p.pageSize := by
  rw [chunks_eq hgeometry.pageSize_pos image]
  refine ⟨by rw [List.length_map, List.length_range]; rfl, fun chunk hchunk => ?_⟩
  obtain ⟨page, -, rfl⟩ := List.mem_map.1 hchunk
  exact length_pageOf_le _ image page

theorem pageCount_of_fits (hgeometry : p.flash.Plausible)
    (hfits : image.length ≤ p.flash.size.toNat) :
    p.flash.pageCount image.length = .ok (p.total image) := by
  have hsize := p.flash.size.toNat_lt
  exact Descriptor.pageCount_eq hgeometry.pageSize_pos (by unfold Size.largestBuffer; omega)

/-! ## Within the bounds -/

section Within

variable (hgeometry : p.flash.Plausible)

include hgeometry

theorem window_of_lt {page stop : Nat} (hpage : page < stop)
    (hwindow : p.flash.base.toNat + stop * p.pageSize ≤ 0x100000000) :
    p.flash.base.toNat + (p.pageOffset page).toNat + p.flash.pageSize.toNat ≤ 0x100000000 := by
  have hpos : 0 < p.pageSize := hgeometry.pageSize_pos
  have hnext : (page + 1) * p.pageSize ≤ stop * p.pageSize := Nat.mul_le_mul_right _ hpage
  rw [Nat.add_mul, Nat.one_mul] at hnext
  rw [toNat_pageOffset_of_lt (by omega)]
  show _ + p.pageSize ≤ _
  omega

theorem steady_verifyPages {total stop page : Nat} {pages : List (List UInt8)}
    (hpage : page + pages.length ≤ stop)
    (hwindow : p.flash.base.toNat + stop * p.pageSize ≤ 0x100000000) :
    Steady (p.verifyPages total page pages) := by
  induction pages generalizing page with
  | nil => exact steady_ok _
  | cons chunk pages ih =>
    rw [List.length_cons] at hpage
    have hfits := window_of_lt hgeometry (show page < stop by omega) hwindow
    have haddress : Word.add p.flash.base (p.pageOffset page) =
        .ok (p.flash.base + p.pageOffset page) := by
      have hpos := hgeometry.pageSize_pos
      exact if_pos (by omega)
    refine steady_report_bind ((Controller.steady_readPage hgeometry hfits).bind fun data => ?_)
    split
    · exact steady_lift_bind haddress (steady_note_bind (steady_error _))
    · exact ih (by omega)

variable (hregisters : Addressable p.controller.base) {limit : UInt32}
  (hlimit : p.controller.pollLimit = some limit)

include hregisters hlimit

theorem steady_writePages {total stop page : Nat} {pages : List (List UInt8)}
    (hsector : pages ≠ [] → p.SectorFits) (hpages : ∀ chunk ∈ pages, chunk.length ≤ p.pageSize)
    (hpage : page + pages.length ≤ stop)
    (hwindow : p.flash.base.toNat + stop * p.pageSize ≤ 0x100000000) :
    Steady (p.writePages total page pages) := by
  induction pages generalizing page with
  | nil => exact steady_ok _
  | cons chunk pages ih =>
    obtain ⟨hchunk, hpages⟩ := List.forall_mem_cons.1 hpages
    have hsector : p.SectorFits := hsector (List.cons_ne_nil _ _)
    rw [List.length_cons] at hpage
    have hfits := window_of_lt hgeometry (show page < stop by omega) hwindow
    have hrest : Steady (Dialogue.bind (Link.report ⟨.writing, page, total⟩) fun _ =>
        (p.controller.writePage (p.pageOffset page) chunk).bind fun _ =>
          p.writePages total (page + 1) pages) :=
      steady_report_bind ((Controller.steady_writePage hregisters hlimit hgeometry hfits
        hchunk).bind fun _ => ih (fun _ => hsector) hpages (by omega))
    unfold writePages
    split
    · exact steady_report_bind ((Controller.steady_eraseSector hregisters hlimit hgeometry hsector
        _).bind fun _ => hrest)
    · exact hrest

theorem steady_install (hfits : image.length ≤ p.flash.size.toNat)
    (hsector : image ≠ [] → p.SectorFits) (hwindow : p.WindowFits image) (verify : Bool) :
    Steady (p.install image verify) := by
  obtain ⟨hlength, hpages⟩ := pages_eq image hgeometry
  have hpage : 0 + (chunks p.flash.pageSize.toNat image).length ≤ p.total image := by omega
  have hsector : chunks p.flash.pageSize.toNat image ≠ [] → p.SectorFits := by
    refine fun hne => hsector fun hnil => hne ?_
    rw [hnil, chunks]
  unfold install
  rw [if_neg (Nat.not_lt.2 hfits)]
  refine steady_lift_bind (pageCount_of_fits hgeometry hfits) (steady_note_bind ?_)
  refine (Controller.steady_unlockAll hregisters hlimit).bind fun _ => ?_
  refine (steady_writePages hgeometry hregisters hlimit hsector hpages hpage hwindow).bind
    fun _ => ?_
  have hboot : Steady (Dialogue.bind (p.controller.setBit p.target.bootBit) fun _ =>
      Link.note .programmed) :=
    (Controller.steady_setBit hregisters hlimit _).bind fun _ => steady_note _
  cases verify with
  | false => exact hboot
  | true => exact (steady_verifyPages hgeometry hpage hwindow).bind fun _ => hboot

end Within

/-! ## Beyond the bounds -/

section Beyond

variable (hgeometry : p.flash.Plausible) (hregisters : Addressable p.controller.base)
  (hpatience : 0 < p.controller.monitor.channel.patience)

include hgeometry hregisters hpatience

/-- The first page that reaches beyond the last address is not written. -/
theorem crashes_writePages (hsector : p.SectorFits) (hbase : p.flash.base.toNat % 4 = 0)
    (hpos : 0 < p.flash.base.toNat) {total page : Nat} {pages : List (List UInt8)}
    (hpages : ∀ chunk ∈ pages, chunk.length ≤ p.pageSize)
    (hstart : p.flash.base.toNat + page * p.pageSize ≤ 0x100000000)
    (hwindow : 0x100000000 < p.flash.base.toNat + (page + pages.length) * p.pageSize) :
    Crashes (p.writePages total page pages) .addOverflow := by
  induction pages generalizing page with
  | nil =>
    rw [List.length_nil, Nat.add_zero] at hwindow
    omega
  | cons chunk pages ih =>
    obtain ⟨hchunk, hpages⟩ := List.forall_mem_cons.1 hpages
    have hoffset : (p.pageOffset page).toNat = page * p.pageSize :=
      toNat_pageOffset_of_lt (by omega)
    have hrest : Crashes (Dialogue.bind (Link.report ⟨.writing, page, total⟩) fun _ =>
        (p.controller.writePage (p.pageOffset page) chunk).bind fun _ =>
          p.writePages total (page + 1) pages) .addOverflow := by
      refine (yields_report _).bind_crashes ?_
      by_cases hends : p.flash.base.toNat + (page + 1) * p.pageSize ≤ 0x100000000
      · refine (Controller.yields_writePage hpatience hregisters hgeometry hchunk
          (window_of_lt hgeometry (Nat.lt_succ_self page) hends)).bind_crashes (ih hpages hends ?_)
        rw [List.length_cons] at hwindow
        rw [Nat.add_assoc, Nat.add_comm 1]
        exact hwindow
      · refine (Controller.crashes_writePage hpatience hgeometry hchunk hbase ?_ ?_).bind _
        · rw [hoffset, Nat.mul_mod]
          show page % 4 * (p.flash.pageSize.toNat % 4) % 4 = 0
          rw [hgeometry.pageSize_mod, Nat.mul_zero]
        · rw [hoffset]
          rw [Nat.add_mul, Nat.one_mul] at hends
          show 0x100000000 < p.flash.base.toNat + page * p.pageSize + p.pageSize
          omega
    unfold writePages
    split
    · exact (yields_report _).bind_crashes
        ((Controller.yields_eraseSector hpatience hregisters hgeometry hsector _).bind_crashes hrest)
    · exact hrest

theorem crashes_install_of_writePages (hfits : image.length ≤ p.flash.size.toNat) {c : Crash}
    (h : Crashes (p.writePages (p.total image) 0 (chunks p.flash.pageSize.toNat image)) c)
    (verify : Bool) : Crashes (p.install image verify) c := by
  unfold install
  rw [if_neg (Nat.not_lt.2 hfits), pageCount_of_fits hgeometry hfits]
  refine (yields_note _).bind_crashes ?_
  exact (Controller.yields_unlockAll hpatience hregisters).bind_crashes (h.bind _)

theorem crashes_install_of_sector (hfits : image.length ≤ p.flash.size.toNat) (hsome : image ≠ [])
    (hsector : ¬p.SectorFits) (verify : Bool) :
    Crashes (p.install image verify) .multiplyOverflow := by
  refine crashes_install_of_writePages hgeometry hregisters hpatience hfits ?_ verify
  obtain ⟨b, rest, rfl⟩ := List.exists_cons_of_ne_nil hsome
  have herase : p.controller.eraseSector (p.pageOffset 0) = done (.crash .multiplyOverflow) :=
    Controller.eraseSector_eq_crash hgeometry (Nat.not_lt.1 hsector) _
  rw [chunks, writePages, if_pos (Nat.zero_mod _), herase]
  exact (yields_report _).bind_crashes (crashes_crash _)

theorem crashes_install_of_window (hfits : image.length ≤ p.flash.size.toNat)
    (hbase : p.flash.base.toNat % 4 = 0) (hpos : 0 < p.flash.base.toNat)
    (hsector : p.SectorFits) (hwindow : ¬p.WindowFits image) (verify : Bool) :
    Crashes (p.install image verify) .addOverflow := by
  obtain ⟨hlength, hpages⟩ := pages_eq image hgeometry
  have hlt := p.flash.base.toNat_lt
  refine crashes_install_of_writePages hgeometry hregisters hpatience hfits ?_ verify
  refine crashes_writePages hgeometry hregisters hpatience hsector hbase hpos hpages (by omega) ?_
  rw [Nat.zero_add, hlength]
  exact Nat.not_le.1 hwindow

/-! ## With a willing device -/

theorem yields_writePages (hsector : p.SectorFits) {total page : Nat} {pages : List (List UInt8)}
    (hpages : ∀ chunk ∈ pages, chunk.length ≤ p.pageSize)
    (hwindow : p.flash.base.toNat + (page + pages.length) * p.pageSize ≤ 0x100000000) :
    Yields (p.writePages total page pages) () := by
  induction pages generalizing page with
  | nil => exact yields_ok ()
  | cons chunk pages ih =>
    obtain ⟨hchunk, hpages⟩ := List.forall_mem_cons.1 hpages
    rw [List.length_cons, Nat.add_comm pages.length 1, ← Nat.add_assoc] at hwindow
    have hwrite := Controller.yields_writePage hpatience hregisters hgeometry hchunk
      (window_of_lt hgeometry (Nat.lt_of_lt_of_le (Nat.lt_succ_self page) (Nat.le_add_right _ _))
        hwindow)
    have hrest : Yields (Dialogue.bind (Link.report ⟨.writing, page, total⟩) fun _ =>
        (p.controller.writePage (p.pageOffset page) chunk).bind fun _ =>
          p.writePages total (page + 1) pages) () :=
      (yields_report _).bind (hwrite.bind (ih hpages hwindow))
    unfold writePages
    split
    · exact (yields_report _).bind
        ((Controller.yields_eraseSector hpatience hregisters hgeometry hsector _).bind hrest)
    · exact hrest

theorem yields_install (hfits : image.length ≤ p.flash.size.toNat) (hsector : p.SectorFits)
    (hwindow : p.WindowFits image) : Yields (p.install image false) () := by
  obtain ⟨hlength, hpages⟩ := pages_eq image hgeometry
  unfold install
  rw [if_neg (Nat.not_lt.2 hfits), pageCount_of_fits hgeometry hfits]
  refine (yields_note _).bind ((Controller.yields_unlockAll hpatience hregisters).bind ?_)
  refine (yields_writePages hgeometry hregisters hpatience hsector hpages ?_).bind ?_
  · rw [Nat.zero_add, hlength]
    exact hwindow
  · exact (Controller.yields_issue hpatience hregisters _ _).discard.bind (yields_note _)

end Beyond

/-! ## Accepted descriptions -/

theorem plausible_chip : Chip.descriptor.Plausible :=
  ⟨by decide, by decide, by decide, by decide, by decide, rfl⟩

theorem toNat_flashBase_badge : Target.badge.flashBase.toNat = 0x400000 := rfl

/-- After a connection to the chip of the badge, some device makes an installation crash exactly if
the image is not empty and a sector has 2^32 bytes or more or the pages of the image reach beyond
the last address. -/
theorem install_overflows_iff {channel : Channel} (hpatience : 0 < channel.patience)
    {opening : List (Exchange Link.interface)} {p : Programmer}
    (hopen : (connect channel .badge).Plays opening (.ok p)) {image : List UInt8}
    (hfits : image.length ≤ p.flash.size.toNat) (verify : Bool) :
    (∃ es c, (p.install image verify).Plays es (.crash c) ∧ c ≠ .stalled) ↔
      image ≠ [] ∧ (0x100000000 ≤ 16 * p.pageSize ∨
        0x100000000 < 0x400000 + p.total image * p.pageSize) := by
  obtain ⟨-, hchannel, hbase, hlimit, hgeometry, hflashBase⟩ := returns_connect _ _ _ _ hopen
  have hregisters : Addressable p.controller.base := hbase ▸ addressable_badge
  have hstart : p.flash.base.toNat = 0x400000 := hflashBase ▸ toNat_flashBase_badge
  constructor
  · rintro ⟨es, c, hplays, hc⟩
    refine Decidable.byContradiction fun hbounds => ?_
    refine hc (steady_install hgeometry hregisters hlimit hfits ?_ ?_ verify es c hplays)
    · exact fun hsome => Nat.not_le.1 fun hsector => hbounds ⟨hsome, .inl hsector⟩
    · unfold WindowFits
      rw [hstart]
      refine Nat.not_lt.1 fun hwindow => hbounds ⟨?_, .inr hwindow⟩
      rintro rfl
      have hnone : p.total [] = 0 := pageTotal_nil hgeometry.pageSize_pos
      rw [hnone, Nat.zero_mul] at hwindow
      exact absurd hwindow (by decide)
  · rintro ⟨hsome, hbounds⟩
    have hpatience : 0 < p.controller.monitor.channel.patience := hchannel ▸ hpatience
    by_cases hsector : p.SectorFits
    · have hwindow : ¬p.WindowFits image := by
        unfold SectorFits at hsector
        unfold WindowFits
        omega
      obtain ⟨es, hes⟩ := crashes_install_of_window hgeometry hregisters hpatience hfits
        (by rw [hstart]) (by rw [hstart]; decide) hsector hwindow verify
      exact ⟨es, _, hes, by decide⟩
    · obtain ⟨es, hes⟩ := crashes_install_of_sector hgeometry hregisters hpatience hfits hsome hsector
        verify
      exact ⟨es, _, hes, by decide⟩

/-- No device makes an installation of three bytes overflow that describes pages of 512 bytes. -/
theorem not_overflows_of_narrow_pages :
    ∃ (p : Programmer) (opening : List (Exchange Link.interface)),
      (connect {} .badge).Plays opening (.ok p) ∧ p.flash.pageSize = 512 ∧
      ¬∃ es c, (p.install [0xde, 0xad, 0xbe] true).Plays es (.crash c) ∧ c ≠ .stalled := by
  obtain ⟨opening, hopen⟩ :=
    yields_connect {} (t := .badge) (by decide) addressable_badge plausible_chip rfl
  refine ⟨_, opening, hopen, rfl, fun hover => ?_⟩
  obtain ⟨-, hsector | hwindow⟩ :=
    (install_overflows_iff (by decide) hopen (by decide) true).1 hover
  · exact absurd hsector (by decide)
  · exact absurd hwindow (by decide)

/-- A description of a single page, sixteen of which do not fit in a word. -/
def widePage : Descriptor where
  id := 0x00150200
  size := 0x10000000
  pageSize := 0x10000000
  pagesPerSector := 16
  planes := [0x10000000]
  base := Target.badge.flashBase

theorem plausible_widePage : widePage.Plausible :=
  ⟨by decide, by decide, by decide, by decide, by decide, rfl⟩

/-- It is accepted, and then the installation of a single byte overflows. -/
theorem overflows_of_wide_page :
    ∃ (p : Programmer) (opening es : List (Exchange Link.interface)),
      (connect {} .badge).Plays opening (.ok p) ∧ p.flash = widePage ∧
      [0].length ≤ p.flash.size.toNat ∧ (p.install [0] false).Plays es (.crash .multiplyOverflow) := by
  obtain ⟨opening, hopen⟩ :=
    yields_connect {} (t := .badge) (by decide) addressable_badge plausible_widePage rfl
  have hconnected := returns_connect _ _ _ _ hopen
  obtain ⟨es, hes⟩ := crashes_install_of_sector hconnected.geometry addressable_badge
    (by decide) (by decide) (List.cons_ne_nil 0 []) (by decide) false
  exact ⟨_, opening, es, hopen, rfl, by decide, hes⟩

end BadgeLink.Programmer
