import BadgeLink.Proofs.Bench.Connection
import BadgeLink.Proofs.Bench.Installation

/-!
# Programming a simulated chip from end to end

Whatever an idle simulated chip holds, connecting to it and installing an image that fits succeeds,
and leaves the image in the flash.

* `Chip.Idle` describes the chips that can be programmed, `Chip.Programmed` what they are then.
* `programmed_of_idle`: every idle chip is programmed.
-/

namespace BadgeLink.Chip

open Dialogue Bench Flash

/-- A simulated chip of the kind that is on the badge, between two commands of its monitor. Its
flash works, and it is not busy for longer than a client waits. -/
structure Idle (pollLimit : Option UInt32) (c : Chip) : Prop where
  line_eq : c.line = []
  bootloader_eq : c.bootloader = true
  cidr_eq : c.cidr = Target.badge.cidr
  exid_eq : c.exid = Target.badge.exid
  flashError_eq : c.flashError = false
  corrupt_eq : c.corrupt = none
  awaited : Awaited pollLimit c.busyPolls

/-- What programming an image makes of a chip. The flash begins with the image, followed by zeros
up to the end of its last page and by erased bytes up to the end of its last sector; the rest of
the flash is left alone. Every region is unlocked, and the flash is the boot source. -/
structure Programmed (image : List UInt8) (before after : Chip) : Prop where
  image_eq : ∀ i (h : i < flashSize) (_ : i < image.length), after.flash[i] = image[i]
  padding : ∀ i (h : i < flashSize), image.length ≤ i → i < 512 * ((image.length + 511) / 512) →
    after.flash[i] = 0
  erased : ∀ i (h : i < flashSize), 512 * ((image.length + 511) / 512) ≤ i →
    i < 8192 * ((image.length + 8191) / 8192) → after.flash[i] = 0xff
  unchanged : ∀ i (h : i < flashSize), 8192 * ((image.length + 8191) / 8192) ≤ i →
    after.flash[i] = before.flash[i]
  unlocked : ∀ i (h : i < lockCount), after.locks[i] = false
  bits_eq : after.bits = before.bits ||| 2

/-- The memory that an installation leaves is that of a programmed chip. -/
theorem programmed_of_memory {image : List UInt8} {before after : Chip} {old : Nat → UInt8}
    (hold : Holds before.flash old)
    (hflash : Holds after.flash
      (programmed image old (sectorsOf (pageTotal 512 image)) (pageTotal 512 image)))
    (hlocks : after.locks = .replicate lockCount false) (hbits : after.bits = before.bits ||| 2) :
    Programmed image before after := by
  have hpages : pageTotal 512 image = (image.length + 511) / 512 := rfl
  have hsectors : sectorsOf (pageTotal 512 image) = (image.length + 8191) / 8192 := by
    rw [sectorsOf, hpages]
    omega
  rw [hsectors, hpages] at hflash
  refine ⟨fun i h hi => ?_, fun i h hi hpad => ?_, fun i h hi herased => ?_, fun i h hi => ?_,
    fun i h => ?_, hbits⟩
  · rw [hflash i h, programmed, if_pos (by omega), List.getD_eq_getElem _ _ hi]
  · rw [hflash i h, programmed, if_pos hpad, List.getD_eq_default _ _ hi]
  · rw [hflash i h, programmed, if_neg (Nat.not_lt.2 hi), if_pos herased]
  · rw [hflash i h, programmed, if_neg (by omega), if_neg (Nat.not_lt.2 hi), hold i h]
  · rw [getElem_congr_coll hlocks, Vector.getElem_replicate]

/-- Connecting to an idle chip and installing an image. -/
theorem runs_program (pace : Pace) (channel : Channel) (hpatience : 0 < channel.patience)
    {pollLimit : Option UInt32} {c : Chip} (hidle : c.Idle pollLimit) {image : List UInt8}
    (hfits : image.length ≤ flashSize) (verify : Bool) :
    Runs (Wire.port receive) pace
      ((Programmer.connect channel { Target.badge with pollLimit }).bind fun p =>
        p.install image verify) (onWire c [])
      fun _ w => ∃ c', w = onWire c' [] ∧ Programmed image c c' := by
  have hsound : c.Sound c.busyPolls :=
    ⟨hidle.line_eq, hidle.flashError_eq, hidle.corrupt_eq, rfl⟩
  obtain ⟨old, hold⟩ := exists_holds c.flash
  refine (runs_connect hidle.awaited hsound hpatience hidle.bootloader_eq hidle.cidr_eq
    hidle.exid_eq).bind ?_
  intro p _ hpost
  obtain ⟨hboot, hdrives, c₁, rfl, -, hsound₁, hmemory⟩ := hpost
  refine (does_install hdrives hboot hfits verify hold c₁ hsound₁ hmemory).mono ?_
  intro _ _ hpost
  obtain ⟨c', rfl, -, flash, latch, hmemory', hflash⟩ := hpost
  obtain ⟨hflash', hlocks', hbits', -⟩ := Memory.mk.inj hmemory'
  exact ⟨c', rfl, programmed_of_memory hold (hflash' ▸ hflash) hlocks' hbits'⟩

/-- Every idle chip is programmed with every image that fits, with verification or without. -/
theorem programmed_of_idle (pace : Pace) (options : Options) (clock : Nat) (t : Transcript)
    {pollLimit : Option UInt32} {c : Chip} (hidle : c.Idle pollLimit) {image : List UInt8}
    (hfits : image.length ≤ flashSize) (verify : Bool) :
    ∃ c' clock' t', (do
        let p ← Programmer.connect { options } { Target.badge with pollLimit }
        p.install image verify : Link Unit).run (Bench.device (Wire.port receive) pace)
          ⟨{ device := c }, clock, t⟩ = (.ok (), ⟨{ device := c' }, clock', t'⟩) ∧
      Programmed image c c' := by
  obtain ⟨_, _, clock', t', hrun, c', rfl, hprogrammed⟩ :=
    runs_program pace { options } (Channel.patience_pos options) hidle hfits verify clock t
  exact ⟨c', clock', t', hrun, hprogrammed⟩

/-- A chip that is locked, and busy for three polls after each command, is programmed with three
bytes. -/
theorem programmed_of_locked : ∃ c' clock' t', (do
        let p ← Programmer.connect { options := Wire.options } Target.badge
        p.install [0xde, 0xad, 0xbe] true : Link Unit).run
          (Bench.device (Wire.port receive) .simulated)
          ⟨{ device := { busyPolls := 3, bits := 4 } }, 0, {}⟩ =
        (.ok (), ⟨{ device := c' }, clock', t'⟩) ∧
      Programmed [0xde, 0xad, 0xbe] { busyPolls := 3, bits := 4 } c' := by
  have hawaited : Awaited (some 100000) 3 := by
    show 3 < (100000 : UInt32).toNat
    decide
  have hidle : Idle (some 100000) { busyPolls := 3, bits := 4 } :=
    ⟨rfl, rfl, rfl, rfl, rfl, rfl, hawaited⟩
  exact programmed_of_idle .simulated Wire.options 0 {} hidle (by decide) true

end BadgeLink.Chip
