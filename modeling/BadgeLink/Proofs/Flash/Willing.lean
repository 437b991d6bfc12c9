import BadgeLink.Proofs.Flash.Arithmetic
import BadgeLink.Proofs.Monitor.Willing

/-!
# Willing flash controllers

What a client reaches with a flash controller that is ready at once and reports no error. Such a
controller can have any plausible description, and every operation on it goes through whose
addresses exist. Where they do not, the client crashes.
-/

namespace BadgeLink.Flash.Controller

open Dialogue Monitor

variable {c : Controller} (hpatience : 0 < c.monitor.channel.patience) (hbase : Addressable c.base)

include hpatience hbase

theorem yields_readRegister (r : Register) (value : UInt32) : Yields (c.readRegister r) value :=
  yields_lift_bind (add_register hbase r) (yields_readWord hpatience _ value)

theorem yields_issue (command : Command) (arg : UInt32) :
    Yields (c.issue command arg) Status.ready := by
  have hready : Yields c.awaitReady Status.ready := by
    unfold awaitReady pollReady
    exact (yields_readRegister hpatience hbase .status Status.ready).bind (yields_ok _)
  refine yields_note_bind (yields_lift_bind (add_register hbase .command) ?_)
  exact (yields_writeWord hpatience _ _).bind (hready.bind (yields_ok Status.ready))

/-! ## Descriptions -/

theorem yields_readResults (values got : List UInt32) :
    Yields (c.readResults values.length got) (got.reverse ++ values) := by
  induction values generalizing got with
  | nil =>
    rw [List.append_nil]
    exact yields_ok _
  | cons value values ih =>
    refine (yields_readRegister hpatience hbase .result value).bind ?_
    have hrest := ih (value :: got)
    rw [List.reverse_cons, List.append_assoc] at hrest
    exact hrest

theorem yields_readList {count : UInt32} {values : List UInt32}
    (hcount : count.toNat = values.length) : Yields (c.readResults count.toNat []) values := by
  rw [hcount]
  exact yields_readResults hpatience hbase values []

omit hpatience hbase in
theorem toNat_count {n : Nat} {d : Descriptor} (h : n ≤ min (d.size.toNat / d.pageSize.toNat) 1024) :
    (UInt32.ofNat n).toNat = n := by
  rw [UInt32.toNat_ofNat']
  omega

/-- Every plausible description can be the one that is read. -/
theorem yields_readDescriptor {d : Descriptor} (hgeometry : d.Plausible)
    (hflash : d.base = c.flash.base) : Yields c.readDescriptor d := by
  have hasked := (yields_issue hpatience hbase .getDescriptor 0).discard
  have hresult := yields_readRegister hpatience hbase .result
  have hpage : ¬(d.pageSize = 0 ∨ d.pageSize % 4 ≠ 0) := by
    rintro (hzero | hmod)
    · exact absurd (congrArg UInt32.toNat hzero) (Nat.ne_of_gt hgeometry.pageSize_pos)
    · refine hmod (UInt32.toNat_inj.1 ?_)
      rw [UInt32.toNat_mod]
      exact hgeometry.pageSize_mod
  have hplaneCount := toNat_count hgeometry.planes_le
  have hlockCount := toNat_count hgeometry.locks_le
  have hplanes : ¬(UInt32.ofNat d.planes.length = 0 ∨
      min (d.size / d.pageSize) maxEntries < UInt32.ofNat d.planes.length) := by
    rintro (hzero | hmany)
    · have hnone := congrArg UInt32.toNat hzero
      rw [hplaneCount] at hnone
      exact absurd hnone (Nat.ne_of_gt hgeometry.planes_pos)
    · rw [most_lt_iff, hplaneCount] at hmany
      exact absurd hmany (Nat.not_lt.2 hgeometry.planes_le)
  have hlocks : ¬min (d.size / d.pageSize) maxEntries < UInt32.ofNat d.locks.length := by
    rw [most_lt_iff, hlockCount]
    exact Nat.not_lt.2 hgeometry.locks_le
  unfold readDescriptor
  refine hasked.bind ((hresult d.id).bind ((hresult d.size).bind ((hresult d.pageSize).bind ?_)))
  rw [if_neg hpage]
  refine (hresult (UInt32.ofNat d.planes.length)).bind ?_
  dsimp only
  rw [if_neg hplanes]
  refine (yields_readList hpatience hbase hplaneCount).bind ?_
  refine (hresult (UInt32.ofNat d.locks.length)).bind ?_
  rw [if_neg hlocks]
  refine (yields_readList hpatience hbase hlockCount).bind ?_
  rw [← hflash, ← hgeometry.pagesPerSector_eq]
  exact yields_ok d

omit hpatience hbase in
theorem yields_connect (monitor : Monitor) (hpatience : 0 < monitor.channel.patience)
    {base : UInt32} (hbase : Addressable base) (pollLimit : Option UInt32) {d : Descriptor}
    (hgeometry : d.Plausible) :
    Yields (connect monitor base d.base pollLimit) { monitor, base, pollLimit, flash := d } :=
  (yields_readDescriptor (c := { monitor, base, pollLimit, flash := { base := d.base } }) hpatience
    hbase hgeometry rfl).bind (yields_note_bind (yields_ok _))

/-! ## Operations -/

theorem yields_unlockFrom (left region : Nat) : Yields (c.unlockFrom left region) () := by
  induction left generalizing region with
  | zero => exact yields_ok ()
  | succ left ih =>
    exact (yields_issue hpatience hbase _ _).discard.bind (ih (region + 1))

theorem yields_unlockAll : Yields c.unlockAll () :=
  yields_note_bind (yields_unlockFrom hpatience hbase _ _)

section Geometry

variable (hgeometry : c.flash.Plausible)

include hgeometry

theorem yields_eraseSector (hsector : 16 * c.flash.pageSize.toNat < 0x100000000)
    (offset : UInt32) : Yields (c.eraseSector offset) () := by
  rw [eraseSector_eq hgeometry hsector]
  exact (yields_issue hpatience hbase _ _).discard

omit hbase hgeometry in
theorem yields_fillLatch {window : UInt32} {left n : Nat} (hn : 4 * (n + left) ≤ 0x100000000)
    (h : window.toNat + 4 * (n + left) ≤ 0x100000000) (data : List UInt8) :
    Yields (c.fillLatch window left n data) () := by
  induction left generalizing n data with
  | zero => exact yields_ok ()
  | succ left ih =>
    refine yields_lift_bind (wordAddress_of_lt (by omega) (by omega)) ?_
    exact (yields_writeWord hpatience _ _).bind (ih (by omega) (by omega) _)

omit hbase hgeometry in
/-- The latch is not filled with words whose addresses do not all exist. -/
theorem crashes_fillLatch {window : UInt32} {left n : Nat} (hn : 4 * (n + left) < 0x100000000)
    (h : 0x100000000 ≤ window.toNat + 4 * (n + left)) (data : List UInt8) :
    Crashes (c.fillLatch window (left + 1) n data) .addOverflow := by
  induction left generalizing n data with
  | zero =>
    rw [Nat.add_zero] at hn h
    unfold fillLatch
    rw [wordAddress_of_le hn h]
    exact crashes_crash _
  | succ left ih =>
    unfold fillLatch
    by_cases hplace : window.toNat + 4 * n < 0x100000000
    · rw [wordAddress_of_lt (by omega) hplace]
      exact (yields_writeWord hpatience _ _).bind_crashes (ih (by omega) (by omega) _)
    · rw [wordAddress_of_le (by omega) (Nat.not_lt.1 hplace)]
      exact crashes_crash _

variable {offset : UInt32} {data : List UInt8} (hdata : data.length ≤ c.flash.pageSize.toNat)

include hdata

theorem yields_writePage
    (hwindow : c.flash.base.toNat + offset.toNat + c.flash.pageSize.toNat ≤ 0x100000000) :
    Yields (c.writePage offset data) () := by
  have hpos := hgeometry.pageSize_pos
  rw [writePage_eq hgeometry hdata (by omega)]
  refine (yields_fillLatch hpatience (by omega) ?_ data).bind
    (yields_issue hpatience hbase _ _).discard
  rw [toNat_window hgeometry hwindow]
  omega

omit hbase in
/-- A page is not written of which a part lies beyond the last address. -/
theorem crashes_writePage (hbase : c.flash.base.toNat % 4 = 0) (hoffset : offset.toNat % 4 = 0)
    (hwindow : 0x100000000 < c.flash.base.toNat + offset.toNat + c.flash.pageSize.toNat) :
    Crashes (c.writePage offset data) .addOverflow := by
  have hpage := c.flash.pageSize.toNat_lt
  have hmod := hgeometry.pageSize_mod
  have hpos := hgeometry.pageSize_pos
  by_cases hstart : c.flash.base.toNat + offset.toNat < 0x100000000
  · obtain ⟨words, hwords⟩ := Nat.exists_eq_succ_of_ne_zero
      (show c.flash.pageSize.toNat / 4 ≠ 0 by omega)
    rw [writePage_eq hgeometry hdata hstart, hwords]
    refine (crashes_fillLatch hpatience (by omega) ?_ data).bind _
    rw [UInt32.toNat_add, Nat.mod_eq_of_lt hstart]
    omega
  · have hadd : Word.add c.flash.base offset = .error .addOverflow := if_neg hstart
    unfold writePage
    rw [if_neg (Nat.not_lt.2 hdata), hadd]
    exact crashes_crash _

end Geometry

end BadgeLink.Flash.Controller
