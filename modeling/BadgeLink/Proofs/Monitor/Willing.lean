import BadgeLink.Monitor.Client
import BadgeLink.Proofs.Link.Working
import BadgeLink.Proofs.Word

/-!
# Willing devices

What clients of the boot monitor reach with a port that does at once what it is asked and a device
that delivers what is wanted: everything can be sent, and every word can be the one that is read.
-/

namespace BadgeLink

open Dialogue

variable {α β : Type}

theorem yields_note (r : Record) : Yields (Link.note r) () :=
  yields_ask () (yields_ok ())

theorem yields_report (step : Progress) : Yields (Link.report step) () :=
  yields_ask () (yields_ok ())

theorem yields_note_bind {r : Record} {f : Unit → Link α} {a : α} (h : Yields (f ()) a) :
    Yields ((Link.note r).bind f) a :=
  (yields_note r).bind h

theorem yields_lift_bind {x : Except Crash α} {a : α} {f : α → Link β} {b : β} (hx : x = .ok a)
    (h : Yields (f a) b) : Yields (Dialogue.bind (liftM x : Link α) f) b := by
  subst hx
  exact h

theorem Dialogue.Yields.discard {p : Link α} {a : α} (h : Yields p a) : Yields (discard p) () :=
  h.bind (yields_ok ())

/-! ## Prompt ports -/

/-- With a port that does at once what it is asked, the program can end with this value. -/
def Promptly (p : Link α) (a : α) : Prop :=
  ∃ es, p.Plays es (.ok a) ∧ ∀ e ∈ es, Link.Prompt e

theorem promptly_ok (a : α) : Promptly (done (.ok a)) a :=
  ⟨[], .done _, List.forall_mem_nil _⟩

theorem promptly_ask {q : Link.Request} {next : Link.Answer q → Link α} (answer : Link.Answer q)
    {a : α} (hanswer : Link.Prompt ⟨q, answer⟩) (h : Promptly (next answer) a) :
    Promptly (ask (I := Link.interface) q next) a := by
  obtain ⟨es, hes, hprompt⟩ := h
  exact ⟨_, .ask hes, List.forall_mem_cons.2 ⟨hanswer, hprompt⟩⟩

theorem Promptly.bind {p : Link α} {f : α → Link β} {a : α} {b : β} (hp : Promptly p a)
    (hf : Promptly (f a) b) : Promptly (p.bind f) b := by
  obtain ⟨es, hes, hprompt⟩ := hp
  obtain ⟨es', hes', hprompt'⟩ := hf
  refine ⟨es ++ es', plays_bind_iff.2 (.inl ⟨a, es, es', rfl, hes, hes'⟩), fun e he => ?_⟩
  exact (List.mem_append.1 he).elim (hprompt e) (hprompt' e)

theorem promptly_note_bind {r : Record} {f : Unit → Link α} {a : α} (h : Promptly (f ()) a) :
    Promptly ((Link.note r).bind f) a :=
  promptly_ask () trivial h

theorem promptly_lift_bind {x : Except Crash α} {a : α} {f : α → Link β} {b : β} (hx : x = .ok a)
    (h : Promptly (f a) b) : Promptly (Dialogue.bind (liftM x : Link α) f) b := by
  subst hx
  exact h

theorem Promptly.yields {p : Link α} {a : α} (h : Promptly p a) : Yields p a := by
  obtain ⟨es, hes, -⟩ := h
  exact ⟨es, hes⟩

namespace Channel

variable {c : Channel} (hpatience : 0 < c.patience)

theorem promptly_settle {action : Link Acceptance} (h : Promptly action .done) {patience : Nat}
    (hpatience : 0 < patience) : Promptly (settle action patience) () := by
  obtain ⟨patience, rfl⟩ := Nat.exists_eq_succ_of_ne_zero (Nat.ne_of_gt hpatience)
  exact h.bind (promptly_ok ())

include hpatience

theorem promptly_send (data : List UInt8) : Promptly (c.send data) () := by
  have hall : Promptly (c.writeAll data) () := by
    induction data with
    | nil => exact promptly_ok ()
    | cons b data ih =>
      have hwrite : Promptly (Link.write b) .done :=
        promptly_ask (q := .write b) Acceptance.done rfl (promptly_ok _)
      exact (promptly_settle hwrite hpatience).bind ih
  have hflush : Promptly Link.flush .done :=
    promptly_ask (q := .flush) Acceptance.done rfl (promptly_ok _)
  exact promptly_note_bind (hall.bind (promptly_settle hflush hpatience))

theorem promptly_nextByte (deadline : Deadline) (missing : Nat) (b : UInt8) :
    Promptly (c.nextByte deadline missing c.patience) b := by
  obtain ⟨patience, hpatience⟩ := Nat.exists_eq_succ_of_ne_zero (Nat.ne_of_gt hpatience)
  have hread : Promptly Link.read (.byte b) := promptly_ask (Reading.byte b) ⟨b, rfl⟩ (promptly_ok _)
  rw [hpatience]
  exact hread.bind (promptly_ok b)

theorem promptly_collect (deadline : Deadline) (data got : List UInt8) :
    Promptly (c.collect deadline data.length got) (got.reverse ++ data) := by
  induction data generalizing got with
  | nil =>
    rw [List.append_nil]
    exact promptly_ok _
  | cons b data ih =>
    refine (promptly_nextByte hpatience _ _ b).bind ?_
    have hrest := ih (b :: got)
    rw [List.reverse_cons, List.append_assoc] at hrest
    exact hrest

theorem promptly_receive {count : Nat} {data : List UInt8} (hdata : data.length = count)
    (hcount : count ≤ Size.largestBuffer) : Promptly (c.receive count) data := by
  subst hdata
  refine promptly_ask (q := .now) (0 : Nat) rfl (promptly_lift_bind (if_pos hcount) ?_)
  exact (promptly_collect hpatience _ data []).bind (promptly_note_bind (promptly_ok data))

end Channel

namespace Monitor

variable {m : Monitor} (hpatience : 0 < m.channel.patience)

include hpatience

theorem promptly_writeWord (address value : UInt32) : Promptly (m.writeWord address value) () :=
  promptly_note_bind (Channel.promptly_send hpatience _)

/-- Every word can be the one that is read. -/
theorem promptly_readWord (address value : UInt32) : Promptly (m.readWord address) value := by
  refine (Channel.promptly_send hpatience _).bind ?_
  refine (Channel.promptly_receive hpatience (Word.length_littleEndian value) (by decide)).bind ?_
  rw [Word.ofLittleEndian_littleEndian]
  exact promptly_note_bind (promptly_ok value)

theorem yields_writeWord (address value : UInt32) : Yields (m.writeWord address value) () :=
  (promptly_writeWord hpatience address value).yields

theorem yields_readWord (address value : UInt32) : Yields (m.readWord address) value :=
  (promptly_readWord hpatience address value).yields

theorem yields_enter : Yields m.enter true := by
  have hanswer : Yields ((m.issue .normalMode).bind fun _ =>
      m.channel.receive acknowledgement.length) acknowledgement :=
    (Channel.promptly_send hpatience _).yields.bind
      (Channel.promptly_receive hpatience rfl (by decide)).yields
  exact yields_note_bind (hanswer.attempt.bind (yields_ok true))

theorem yields_readChipId (cidrAddress exidAddress cidr exid : UInt32) :
    Yields (m.readChipId cidrAddress exidAddress) (cidr, exid) :=
  (yields_readWord hpatience cidrAddress cidr).bind
    ((yields_readWord hpatience exidAddress exid).bind (yields_ok (cidr, exid)))

end Monitor

end BadgeLink
