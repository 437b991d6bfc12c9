import BadgeLink.Programmer.Run
import BadgeLink.Proofs.Bench.Writing

/-!
# Connecting to a simulated chip

A simulated chip that is idle lets a programmer in: it acknowledges, it identifies itself, and it
describes its flash. Its memory stays as it is.

* `Chip.Delivering` describes a chip that has results to deliver.
* `runs_connect`: a connection to an idle chip of the expected kind is established.
-/

namespace BadgeLink.Chip

open Dialogue Monitor Bench Flash

variable {pace : Pace} {polls : Nat} {m : Memory}

/-- A sound chip with this memory has these results to deliver. -/
def Delivering (polls : Nat) (m : Memory) (results : List UInt32) (w : Wire Chip) : Prop :=
  ∃ c : Chip, w = onWire c [] ∧ c.results = results ∧ c.Sound polls ∧ c.memory = m

section Controllers

variable {ctl : Controller} (hpatience : 0 < ctl.monitor.channel.patience)
  (hbase : ctl.base = controllerBase) {w : Wire Chip}

include hpatience hbase

theorem runs_readResult {word : UInt32} {rest : List UInt32}
    (h : Delivering polls m (word :: rest) w) :
    Runs (Wire.port receive) pace ctl.readResult w
      fun r w' => r = word ∧ Delivering polls m rest w' := by
  obtain ⟨c, rfl, hresults, hsound, hm⟩ := h
  refine (runs_readRegister hpatience hbase hsound.line_eq (readWord_result hresults)).mono ?_
  intro _ _ hpost
  obtain ⟨rfl, rfl⟩ := hpost
  exact ⟨rfl, _, rfl, rfl,
    ⟨hsound.line_eq, hsound.flashError_eq, hsound.corrupt_eq, hsound.busyPolls_eq⟩, hm⟩

/-- Results are delivered in order. -/
theorem runs_readResults {words rest : List UInt32} (got : List UInt32)
    (h : Delivering polls m (words ++ rest) w) :
    Runs (Wire.port receive) pace (ctl.readResults words.length got) w
      fun r w' => r = got.reverse ++ words ∧ Delivering polls m rest w' := by
  induction words generalizing w got with
  | nil => exact runs_ok ⟨(List.append_nil _).symm, h⟩
  | cons word words ih =>
    refine (runs_readResult hpatience hbase h).bind ?_
    intro _ w' hpost
    obtain ⟨rfl, h'⟩ := hpost
    refine (ih (_ :: got) h').mono ?_
    intro _ _ hpost
    obtain ⟨rfl, h''⟩ := hpost
    rw [List.reverse_cons, List.append_assoc]
    exact ⟨rfl, h''⟩

variable {c : Chip} (hawaited : Awaited ctl.pollLimit polls) (hsound : c.Sound polls)

include hawaited hsound

/-- A chip that is asked for the description of its flash has it to deliver. -/
theorem runs_askDescriptor :
    Runs (Wire.port receive) pace (discard (ctl.issue .getDescriptor 0)) (onWire c [])
      fun _ w' => Delivering polls c.memory descriptorWords w' := by
  have hexecute : c.execute Command.getDescriptor.code ((0 : UInt32).toNat % 65536) =
      .ok { c.begun .getDescriptor 0 with results := descriptorWords } := rfl
  have hbusy : Awaited ctl.pollLimit c.busyPolls := hsound.busyPolls_eq.symm ▸ hawaited
  refine (runs_command hpatience hbase hsound.line_eq hexecute hsound.line_eq rfl hbusy).discard.mono
    ?_
  intro _ _ hpost
  obtain ⟨_, rfl⟩ := hpost
  exact ⟨_, rfl, rfl,
    ⟨hsound.line_eq, hsound.flashError_eq, hsound.corrupt_eq, hsound.busyPolls_eq⟩, rfl⟩

/-- The description of the flash is that of a simulated chip. -/
theorem runs_readDescriptor (hflash : ctl.flash.base = flashBase) :
    Runs (Wire.port receive) pace ctl.readDescriptor (onWire c [])
      fun d w' => d = descriptor ∧ Delivering polls c.memory [] w' := by
  have hwords : descriptorWords =
    flashId :: 65536 :: 512 :: 1 :: ([65536] ++ 8 :: (List.replicate 8 8192 ++ [])) := rfl
  refine (runs_askDescriptor hpatience hbase hawaited hsound).bind ?_
  rintro _ w hw
  rw [hwords] at hw
  refine (runs_readResult hpatience hbase hw).bind ?_
  intro _ w hpost
  obtain ⟨rfl, hw⟩ := hpost
  refine (runs_readResult hpatience hbase hw).bind ?_
  intro _ w hpost
  obtain ⟨rfl, hw⟩ := hpost
  refine (runs_readResult hpatience hbase hw).bind ?_
  intro _ w hpost
  obtain ⟨rfl, hw⟩ := hpost
  rw [if_neg (by decide)]
  refine (runs_readResult hpatience hbase hw).bind ?_
  intro _ w hpost
  obtain ⟨rfl, hw⟩ := hpost
  rw [if_neg (by decide)]
  refine (runs_readResults hpatience hbase [] hw).bind ?_
  intro _ w hpost
  obtain ⟨rfl, hw⟩ := hpost
  refine (runs_readResult hpatience hbase hw).bind ?_
  intro _ w hpost
  obtain ⟨rfl, hw⟩ := hpost
  rw [if_neg (by decide)]
  refine (runs_readResults hpatience hbase [] hw).bind ?_
  intro _ w hpost
  obtain ⟨rfl, hw⟩ := hpost
  refine runs_ok ⟨?_, hw⟩
  rw [hflash]
  rfl

end Controllers

section Connections

variable {c : Chip} {pollLimit : Option UInt32} (hawaited : Awaited pollLimit polls)
  (hsound : c.Sound polls)

include hawaited hsound

/-- The flash controller of a sound chip can be attached to. -/
theorem runs_attach {monitor : Monitor} (hpatience : 0 < monitor.channel.patience) :
    Runs (Wire.port receive) pace
      (Controller.connect monitor controllerBase flashBase pollLimit) (onWire c [])
      fun ctl w => Drives ctl polls ∧ Delivering polls c.memory [] w := by
  refine (runs_readDescriptor hpatience rfl hawaited hsound rfl).bind ?_
  intro _ w hpost
  obtain ⟨rfl, hw⟩ := hpost
  exact runs_note_bind (runs_ok ⟨⟨hpatience, rfl, rfl, hawaited⟩, hw⟩)

/-- A connection to an idle chip of the kind that is on the badge is established. -/
theorem runs_connect {channel : Channel} (hpatience : 0 < channel.patience)
    (hmonitor : c.bootloader = true) (hcidr : c.cidr = Target.badge.cidr)
    (hexid : c.exid = Target.badge.exid) :
    Runs (Wire.port receive) pace
      (Programmer.connect channel { Target.badge with pollLimit }) (onWire c [])
      fun p w => p.target.bootBit = 1 ∧ Drives p.controller polls ∧
        Delivering polls c.memory [] w := by
  have hidle := hsound.line_eq
  have hid : Runs (Wire.port receive) pace
      (Monitor.readChipId ⟨channel⟩ cidrAddress exidAddress) (onWire c [])
      fun id w => id = (Target.badge.cidr, Target.badge.exid) ∧ w = onWire c [] := by
    refine (runs_readWord hpatience hidle (readWord_cidr c)).bind ?_
    intro _ _ hpost
    obtain ⟨rfl, rfl⟩ := hpost
    refine (runs_readWord hpatience hidle (readWord_exid c)).bind ?_
    intro _ _ hpost
    obtain ⟨rfl, rfl⟩ := hpost
    exact runs_ok ⟨by rw [hcidr, hexid], rfl⟩
  unfold Programmer.connect
  simp only [bind_eq]
  refine (runs_enter hpatience hidle hmonitor).bind ?_
  intro _ _ hpost
  obtain ⟨rfl, rfl⟩ := hpost
  refine hid.bind ?_
  intro _ _ hpost
  obtain ⟨rfl, rfl⟩ := hpost
  refine runs_note_bind ?_
  dsimp only
  rw [if_neg (by decide)]
  refine (runs_attach hawaited hsound hpatience).bind ?_
  intro ctl w hpost
  obtain ⟨hdrives, hw⟩ := hpost
  exact runs_ok ⟨rfl, hdrives, hw⟩

end Connections

end BadgeLink.Chip
