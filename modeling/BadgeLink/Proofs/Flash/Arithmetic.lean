import BadgeLink.Programmer.Run
import BadgeLink.Proofs.Flash.Descriptor
import BadgeLink.Proofs.Link.Steady

/-!
# Arithmetic on the geometry of a flash

The words that a controller's client computes from a plausible description. All of them fit if a
sector does and the pages end where the addresses end or before. Then an operation is the commands
that it issues, and no device makes it crash.

* `addressable_of_connect`: the registers of a connected controller have addresses.
* `eraseSector_eq`, `writePage_eq`: an operation without its arithmetic.
* `steady_eraseSector`, `steady_writePage`, `steady_readPage`: it is steady.
-/

namespace BadgeLink.Flash

open Dialogue Monitor

/-- Every register of the controller has an address. -/
def Addressable (base : UInt32) : Prop :=
  ∀ r : Register, base.toNat + r.offset.toNat < 0x100000000

theorem addressable_badge : Addressable Target.badge.controllerBase := by
  intro r
  cases r <;> decide

namespace Controller

variable {c : Controller}

/-- A register that was read has an address. -/
theorem returns_readRegister (r : Register) :
    Returns (c.readRegister r) fun _ => c.base.toNat + r.offset.toNat < 0x100000000 := by
  intro es value hplays
  by_cases hfits : c.base.toNat + r.offset.toNat < 0x100000000
  · exact hfits
  · have hadd : Word.add c.base r.offset = .error .addOverflow := if_neg hfits
    unfold readRegister at hplays
    rw [hadd] at hplays
    cases hplays

/-- A description was read from registers that all have addresses: the result register is the last
of them. -/
theorem addressable_of_readDescriptor {es : List (Exchange Link.interface)} {d : Descriptor}
    (h : c.readDescriptor.Plays es (.ok d)) : Addressable c.base := by
  have hread : Returns c.readDescriptor fun _ => Addressable c.base := by
    refine returns_bind fun _ => (returns_readRegister .result).bind fun _ hfits es d _ => ?_
    intro r
    have hlast : r.offset.toNat ≤ Register.result.offset.toNat := by cases r <;> decide
    exact Nat.lt_of_le_of_lt (Nat.add_le_add_left hlast _) hfits
  exact hread es d h

/-- The registers of a controller that was connected to all have addresses. -/
theorem addressable_of_connect {monitor : Monitor} {base flashBase : UInt32}
    {pollLimit : Option UInt32} {es : List (Exchange Link.interface)} {c : Controller}
    (h : (connect monitor base flashBase pollLimit).Plays es (.ok c)) : Addressable c.base := by
  rw [(plausible_of_connect h).1]
  unfold connect at h
  rcases plays_bind_iff.1 h with ⟨d, es₁, es₂, -, h₁, -⟩ | ⟨e, -, he⟩ | ⟨x, -, hx⟩
  · exact addressable_of_readDescriptor h₁
  · cases he
  · cases hx

/-! ## Operations without their arithmetic -/

section Geometry

variable (hgeometry : c.flash.Plausible)

include hgeometry

theorem toNat_pagesPerSector : c.flash.pagesPerSector.toNat = 16 := by
  rw [hgeometry.pagesPerSector_eq]
  rfl

theorem eraseSector_eq (hsector : 16 * c.flash.pageSize.toNat < 0x100000000) (offset : UInt32) :
    c.eraseSector offset = discard (c.issue .erasePages
      (UInt32.ofNat (firstPage c.flash offset) ||| Command.sixteenPages)) := by
  have hsixteen := toNat_pagesPerSector hgeometry
  have hfits : c.flash.pageSize.toNat * c.flash.pagesPerSector.toNat < 0x100000000 := by
    rw [hsixteen]
    omega
  have hsize : c.flash.sectorSize = .ok (c.flash.pageSize * c.flash.pagesPerSector) := if_pos hfits
  have hpos : 0 < c.flash.pageSize.toNat * 16 := by
    have hpage := hgeometry.pageSize_pos
    omega
  have hdiv : Word.div offset (c.flash.pageSize * c.flash.pagesPerSector) =
      .ok (offset / (c.flash.pageSize * c.flash.pagesPerSector)) := by
    refine if_neg fun hzero => ?_
    have htoNat := congrArg UInt32.toNat hzero
    rw [toNat_sectorSize hfits, hsixteen] at htoNat
    exact absurd htoNat (Nat.ne_of_gt hpos)
  have hmul : Word.mul (offset / (c.flash.pageSize * c.flash.pagesPerSector)) pagesPerSector =
      .ok (UInt32.ofNat (firstPage c.flash offset)) := by
    rw [← firstPage_eq hfits]
    refine if_pos ?_
    rw [UInt32.toNat_div, toNat_sectorSize hfits, hsixteen]
    have hpages : offset.toNat / (c.flash.pageSize.toNat * 16) * 16 ≤
        offset.toNat / (c.flash.pageSize.toNat * 16) * (c.flash.pageSize.toNat * 16) :=
      Nat.mul_le_mul_left _ (Nat.le_mul_of_pos_left 16 hgeometry.pageSize_pos)
    have hoffset := offset.toNat_lt
    exact Nat.lt_of_le_of_lt (Nat.le_trans hpages (Nat.div_mul_le_self _ _)) hoffset
  unfold eraseSector
  rw [hsize]
  show Dialogue.bind (liftM (Word.div offset (c.flash.pageSize * c.flash.pagesPerSector))) _ = _
  rw [hdiv]
  show Dialogue.bind (liftM (Word.mul _ pagesPerSector)) _ = _
  rw [hmul]
  rfl

/-- An erasure ends where the size of a sector does not fit. -/
theorem eraseSector_eq_crash (hsector : 0x100000000 ≤ 16 * c.flash.pageSize.toNat)
    (offset : UInt32) : c.eraseSector offset = done (.crash .multiplyOverflow) := by
  have hsize : c.flash.sectorSize = .error .multiplyOverflow := by
    refine if_neg ?_
    rw [toNat_pagesPerSector hgeometry]
    omega
  unfold eraseSector
  rw [hsize]
  rfl

theorem writePage_eq {offset : UInt32} {data : List UInt8}
    (hdata : data.length ≤ c.flash.pageSize.toNat)
    (hwindow : c.flash.base.toNat + offset.toNat < 0x100000000) :
    c.writePage offset data =
      (c.fillLatch (c.flash.base + offset) (c.flash.pageSize.toNat / 4) 0 data).bind fun _ =>
        discard (c.issue .writePage (offset / c.flash.pageSize)) := by
  have hadd : Word.add c.flash.base offset = .ok (c.flash.base + offset) := if_pos hwindow
  have hdiv : Word.div offset c.flash.pageSize = .ok (offset / c.flash.pageSize) := by
    refine if_neg fun hzero => ?_
    exact absurd (congrArg UInt32.toNat hzero) (Nat.ne_of_gt hgeometry.pageSize_pos)
  unfold writePage
  rw [if_neg (Nat.not_lt.2 hdata), hadd, hdiv]
  rfl

end Geometry

/-! ## Steady operations -/

section Commands

variable (hbase : Addressable c.base)

include hbase

theorem add_register (r : Register) : Word.add c.base r.offset = .ok (registerAt c.base r) :=
  if_pos (hbase r)

theorem steady_readRegister (r : Register) : Steady (c.readRegister r) :=
  steady_lift_bind (add_register hbase r) (c.monitor.steady_readWord _)

variable {limit : UInt32} (hlimit : c.pollLimit = some limit)

include hlimit

theorem steady_pollReady {headroom busy : Nat} (hleft : 0 < headroom)
    (hbound : limit.toNat ≤ busy + headroom) : Steady (c.pollReady headroom busy) := by
  induction headroom generalizing busy with
  | zero => exact absurd hleft (Nat.lt_irrefl 0)
  | succ headroom ih =>
    unfold pollReady
    refine (steady_readRegister hbase .status).bind fun status => ?_
    split
    · exact steady_ok _
    · dsimp only
      rw [hlimit]
      split
      · exact steady_note_bind (steady_error _)
      · next hmore =>
        have hmore : ¬limit.toNat ≤ busy + 1 := by simpa using hmore
        exact ih (by omega) (by omega)

theorem steady_issue (command : Command) (arg : UInt32) : Steady (c.issue command arg) := by
  have hlt := limit.toNat_lt
  refine steady_note_bind (steady_lift_bind (add_register hbase .command) ?_)
  refine (c.monitor.steady_writeWord _ _).bind fun _ => ?_
  refine (steady_pollReady hbase hlimit (by decide) (by omega)).bind fun status => ?_
  exact (steady_ofExcept _).bind fun _ => steady_ok _

theorem steady_unlockFrom (left region : Nat) : Steady (c.unlockFrom left region) := by
  induction left generalizing region with
  | zero => exact steady_ok _
  | succ left ih => exact (steady_issue hbase hlimit _ _).discard.bind fun _ => ih (region + 1)

theorem steady_unlockAll : Steady c.unlockAll :=
  steady_note_bind (steady_unlockFrom hbase hlimit _ _)

theorem steady_setBit (bit : UInt32) : Steady (c.setBit bit) :=
  (steady_issue hbase hlimit _ _).discard

theorem steady_eraseSector (hgeometry : c.flash.Plausible)
    (hsector : 16 * c.flash.pageSize.toNat < 0x100000000) (offset : UInt32) :
    Steady (c.eraseSector offset) := by
  rw [eraseSector_eq hgeometry hsector]
  exact (steady_issue hbase hlimit _ _).discard

omit hbase hlimit in
theorem steady_fillLatch {window : UInt32} {left n : Nat} (hn : 4 * (n + left) ≤ 0x100000000)
    (h : window.toNat + 4 * (n + left) ≤ 0x100000000) (data : List UInt8) :
    Steady (c.fillLatch window left n data) := by
  induction left generalizing n data with
  | zero => exact steady_ok _
  | succ left ih =>
    refine steady_lift_bind (wordAddress_of_lt (by omega) (by omega)) ?_
    exact (c.monitor.steady_writeWord _ _).bind fun _ => ih (by omega) (by omega) _

variable (hgeometry : c.flash.Plausible) {offset : UInt32}
  (hwindow : c.flash.base.toNat + offset.toNat + c.flash.pageSize.toNat ≤ 0x100000000)

include hgeometry hwindow

omit hbase hlimit in
theorem toNat_window : (c.flash.base + offset).toNat = c.flash.base.toNat + offset.toNat := by
  have hpos := hgeometry.pageSize_pos
  rw [UInt32.toNat_add, Nat.mod_eq_of_lt (by omega)]

theorem steady_writePage {data : List UInt8} (hdata : data.length ≤ c.flash.pageSize.toNat) :
    Steady (c.writePage offset data) := by
  have hpos := hgeometry.pageSize_pos
  have hwords := hgeometry.pageSize_mod
  rw [writePage_eq hgeometry hdata (by omega)]
  refine (steady_fillLatch (by omega) ?_ data).bind fun _ => (steady_issue hbase hlimit _ _).discard
  rw [toNat_window hgeometry hwindow]
  omega

omit hbase hlimit in
theorem steady_readPage : Steady (c.readPage offset) := by
  have hpos := hgeometry.pageSize_pos
  have hwords := hgeometry.pageSize_mod
  have hadd : Word.add c.flash.base offset = .ok (c.flash.base + offset) := if_pos (by omega)
  have hsize : Size.add c.flash.pageSize.toNat 3 = .ok (c.flash.pageSize.toNat + 3) :=
    if_pos (by unfold Size.bound; omega)
  have hreserve : Size.reserve ((c.flash.pageSize.toNat + 3) / 4 * 4) = .ok () :=
    if_pos (by unfold Size.largestBuffer; omega)
  refine steady_lift_bind hadd (steady_lift_bind hsize (steady_lift_bind hreserve ?_))
  refine (c.monitor.steady_readWords (by omega) ?_ []).bind fun _ => steady_ok _
  rw [toNat_window hgeometry hwindow]
  omega

end Commands

end Controller

end BadgeLink.Flash
