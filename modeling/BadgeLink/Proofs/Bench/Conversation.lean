import BadgeLink.Proofs.Bench.Connection
import BadgeLink.Proofs.Bench.Installation
import BadgeLink.Proofs.Console.Port

/-!
# Conversations with a simulated chip

A run of a client on a bench is one of the conversations it can have, and one that the client can
have behind the console as well, for a wire without failures gives no transient faults. So the
simulated chip shows that everything a client can achieve is within reach.

* `exists_session`: a connection, an installation and a jump that succeed one after the other.
* `exists_installation`: the same for a programmer that is attached to a flash controller.
-/

namespace BadgeLink

namespace Bench

open Dialogue Console

variable {α δ : Type} {receive : Responder δ} {pace : Pace}

/-- Nothing is going to fail on the wire. -/
def Clean (b : Bench (Wire δ)) : Prop :=
  b.port.readFaults = 0 ∧ b.port.writeFaults = 0

/-- A clean wire gives only answers that need not be settled, and stays clean. -/
theorem clean_respond (b : Bench (Wire δ)) (q : Link.Request) (a : Link.Answer q)
    (b' : Bench (Wire δ)) (hclean : Clean b)
    (h : (device (Wire.port receive) pace).respond b q = (.ok a, b')) :
    Clean b' ∧ Settled ⟨q, a⟩ := by
  obtain ⟨⟨d, queue, readFaults, writeFaults⟩, clock, t⟩ := b
  obtain ⟨rfl, rfl⟩ : readFaults = 0 ∧ writeFaults = 0 := hclean
  cases q with
  | read =>
    cases queue with
    | nil =>
      cases h
      exact ⟨⟨rfl, rfl⟩, rfl⟩
    | cons b queue =>
      cases h
      exact ⟨⟨rfl, rfl⟩, rfl⟩
  | write b =>
    rcases hreply : receive b d with ⟨e | reply, d'⟩
    · simp only [device, Wire.port, hreply] at h
      cases h
    · simp only [device, Wire.port, hreply] at h
      cases h
      exact ⟨⟨rfl, rfl⟩, rfl⟩
  | flush =>
    cases h
    exact ⟨⟨rfl, rfl⟩, rfl⟩
  | pause ms =>
    cases h
    exact ⟨⟨rfl, rfl⟩, trivial⟩
  | now =>
    cases h
    exact ⟨⟨rfl, rfl⟩, trivial⟩
  | note r =>
    cases h
    exact ⟨⟨rfl, rfl⟩, trivial⟩
  | report p =>
    cases h
    exact ⟨⟨rfl, rfl⟩, trivial⟩

/-- A run that ends with a value is a conversation in which nothing has to be settled. -/
theorem Runs.exists_plays {p : Link α} {d : δ} {queue : List UInt8} {Q : α → Wire δ → Prop}
    (h : Runs (Wire.port receive) .simulated p (onWire d queue) Q) :
    ∃ a w es, Q a w ∧ p.Plays es (.ok a) ∧ ∀ e ∈ es, Settled e := by
  obtain ⟨a, w, clock, t, hrun, ha⟩ := h 0 {}
  obtain ⟨es, hes, hsettled⟩ := exists_plays_of_run clean_respond ⟨rfl, rfl⟩ hrun
  exact ⟨a, w, es, ha, hes, hsettled⟩

end Bench

namespace Chip

open Dialogue Bench Console Flash

/-- There are conversations in which an image that fits is installed and then run. -/
theorem exists_session (channel : Channel) (hpatience : 0 < channel.patience) (image : List UInt8)
    (hfits : image.length ≤ flashSize) (verify : Bool) :
    ∃ (p : Programmer) (es₁ es₂ es₃ : List (Exchange Link.interface)),
      (Programmer.connect channel .badge).Plays es₁ (.ok p) ∧
      (p.install image verify).Plays es₂ (.ok ()) ∧ p.launch.Plays es₃ (.ok ()) ∧
      p.flash.size.toNat = flashSize ∧ ∀ e ∈ es₁ ++ es₂ ++ es₃, Settled e := by
  have hawaited : Awaited Target.badge.pollLimit 0 := by
    show 0 < (100000 : UInt32).toNat
    decide
  have hsound : Sound 0 {} := ⟨rfl, rfl, rfl, rfl⟩
  obtain ⟨p, _, es₁, ⟨hboot, hdrives, c, rfl, -, hsound, -⟩, hconnect, hes₁⟩ :=
    (runs_connect hawaited hsound hpatience rfl rfl rfl).exists_plays
  obtain ⟨old, hold⟩ := exists_holds c.flash
  obtain ⟨_, _, es₂, ⟨c', rfl, hsound', -⟩, hinstall, hes₂⟩ :=
    (does_install hdrives hboot hfits verify hold c hsound rfl).exists_plays
  obtain ⟨_, _, es₃, -, hlaunch, hes₃⟩ :=
    (runs_go hdrives.patience_pos hsound'.line_eq).exists_plays
  refine ⟨p, es₁, es₂, es₃, hconnect, hinstall, hlaunch, ?_, ?_⟩
  · rw [Programmer.flash, hdrives.flash_eq]
    rfl
  · rw [List.append_assoc]
    exact List.forall_mem_append.2 ⟨hes₁, List.forall_mem_append.2 ⟨hes₂, hes₃⟩⟩

/-- There are conversations in which the flash controller is attached to and an image is installed
that fits. -/
theorem exists_installation (monitor : Monitor) (hpatience : 0 < monitor.channel.patience)
    (image : List UInt8) (hfits : image.length ≤ flashSize) (verify : Bool) :
    ∃ (ctl : Controller) (opening es : List (Exchange Link.interface)),
      (Controller.connect monitor controllerBase flashBase none).Plays opening (.ok ctl) ∧
      ((⟨.badge, ctl⟩ : Programmer).install image verify).Plays es (.ok ()) := by
  have hawaited : Awaited none 0 := Nat.succ_pos 0xffffffff
  have hsound : Sound 0 {} := ⟨rfl, rfl, rfl, rfl⟩
  obtain ⟨ctl, _, opening, ⟨hdrives, c, rfl, -, hsound, -⟩, hconnect, -⟩ :=
    (runs_attach hawaited hsound hpatience).exists_plays
  obtain ⟨old, hold⟩ := exists_holds c.flash
  obtain ⟨_, _, es, -, hes, -⟩ := (does_install (p := ⟨.badge, ctl⟩) (m := c.memory) hdrives rfl
    hfits verify hold c hsound rfl).exists_plays
  exact ⟨ctl, opening, es, hconnect, hes⟩

end Chip

end BadgeLink
