import BadgeLink.Proofs.Bench.Conversation
import BadgeLink.Proofs.Flash.Spelling
import BadgeLink.Proofs.Programmer.Script

/-!
# What an installation sends

The bytes that a port accepts during an installation are those of one fixed list of monitor
commands, up to the place where the installation ends. Only how often a status is polled is left to
the chip: no answer, no silence and no failure makes the programmer say anything else, or say
anything more once it has failed.

* `accepted_prefix_of_script`: what was accepted begins a spelling of the script, and is all of it
  when the installation succeeds.
-/

namespace BadgeLink.Programmer

open Dialogue Monitor Flash

/-- What an installation sends begins a spelling of its script, also if the image does not fit and
nothing is sent. -/
theorem spelled_of_plays {p : Programmer} (hflash : p.flash.Plausible) {image : List UInt8}
    {verify : Bool} {es : List (Exchange Link.interface)} {o : Outcome LinkError Unit}
    (h : (p.install image verify).Plays es o) :
    ∃ ms, Spells p.controller.base (p.script image verify) ms ∧
      Link.accepted es <+: ms.flatMap Command.bytes ∧
      (o = .ok () → Link.accepted es = ms.flatMap Command.bytes) := by
  by_cases hlarge : p.flash.size.toNat < image.length
  · obtain ⟨hsignals, rfl⟩ := install_tooLarge p hlarge h
    have haccepted : Link.accepted es = [] := by
      rw [Link.accepted_eq, hsignals]
      rfl
    refine ⟨[], ?_, ?_, fun ho => nomatch ho⟩
    · rw [script, if_pos hlarge]
      exact .nil
    · rw [haccepted]
      exact List.prefix_refl _
  · exact (performs_install hflash (Nat.not_lt.1 hlarge) verify).spelled h

/-- Whatever is answered, and however an installation ends, the bytes that the port accepted are
the beginning of a spelling of the script, and all of it if the installation succeeded. -/
theorem accepted_prefix_of_script {monitor : Monitor} {base flashBase : UInt32}
    {pollLimit : Option UInt32} {opening : List (Exchange Link.interface)} {c : Controller}
    (hopen : (Controller.connect monitor base flashBase pollLimit).Plays opening (.ok c))
    (target : Target) (image : List UInt8) (verify : Bool)
    {es : List (Exchange Link.interface)} {o : Outcome LinkError Unit}
    (h : ((⟨target, c⟩ : Programmer).install image verify).Plays es o) :
    ∃ ms, Spells base ((⟨target, c⟩ : Programmer).script image verify) ms ∧
      Link.accepted es <+: ms.flatMap Command.bytes ∧
      (o = .ok () → Link.accepted es = ms.flatMap Command.bytes) := by
  obtain ⟨rfl, -, hflash⟩ := Controller.plausible_of_connect hopen
  exact spelled_of_plays (p := ⟨target, c⟩) hflash h

/-- The installation of three bytes on a simulated chip is spelled out. -/
theorem accepted_of_three_bytes :
    ∃ (c : Controller) (opening es : List (Exchange Link.interface)),
      (Controller.connect ⟨{}⟩ Chip.controllerBase Chip.flashBase none).Plays opening (.ok c) ∧
      ((⟨.badge, c⟩ : Programmer).install [0xde, 0xad, 0xbe] true).Plays es (.ok ()) ∧
      ∃ ms, Spells Chip.controllerBase
          ((⟨.badge, c⟩ : Programmer).script [0xde, 0xad, 0xbe] true) ms ∧
        Link.accepted es = ms.flatMap Command.bytes := by
  obtain ⟨c, opening, es, hopen, hinstall⟩ := Chip.exists_installation ⟨{}⟩
    (Channel.patience_pos {}) [0xde, 0xad, 0xbe] (by decide) true
  obtain ⟨ms, hms, -, hall⟩ := accepted_prefix_of_script hopen .badge _ true hinstall
  exact ⟨c, opening, es, hopen, hinstall, ms, hms, hall rfl⟩

end BadgeLink.Programmer
