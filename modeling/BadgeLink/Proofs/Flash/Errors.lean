import BadgeLink.Proofs.Flash.Command
import BadgeLink.Proofs.Flash.Polling

/-!
# Errors that a flash controller reports

Which of the errors in the statuses of a flash controller its client heeds: those of a status that
says ready. Such a status ends the wait for a command, and if it has an error then it ends the whole
operation with it, however the operation is made up of commands. A status that says busy is polled
again, whatever else it says.

* `Heeds` states this of the traces of a program; `Heeds.bind` and `Performs.heeds` derive it.
* `ready_error_ends`: every operation heeds the errors, and so does connecting.
* `busy_error_unheeded`: an error that is reported too early is not seen.
-/

namespace BadgeLink.Flash

open Dialogue Monitor Link

/-- The read of the status register that brought this answer. -/
def statusRead (base : UInt32) (data : List UInt8) : Event :=
  .whole (.readWord (registerAt base .status)) data

/-- If the trace has a status that says ready and reports an error, the work stopped with it. -/
def Heeded (base : UInt32) (evs : List Event) (r : Option Stop) : Prop :=
  ∀ data, statusRead base data ∈ evs → IsReady data →
    ∀ e, Status.check (Word.ofLittleEndian data) = .error e → r = some (.error e)

/-- In the conversation, a status that says ready and has an error bit is that of the error with
which the program ended. -/
def EndsAsReported {α : Type} (base : UInt32) (es : List (Exchange Link.interface))
    (o : Outcome LinkError α) : Prop :=
  ∃ evs, Carries (Link.signals es) evs ∧ ∀ data, statusRead base data ∈ evs → IsReady data →
    ∀ bit ∈ [Status.locked, Status.failed, Status.invalid],
      Status.has (Word.ofLittleEndian data) bit = true →
        ∃ e, Status.check (Word.ofLittleEndian data) = .error e ∧ o = .error e

/-- Whatever the program is answered, an error in a status that says ready is its own error. -/
def Heeds {α : Type} (base : UInt32) (p : Link α) : Prop :=
  Traces p (fun evs _ => Heeded base evs none) fun evs s => Heeded base evs (some s)

section Traces

variable {base : UInt32}

theorem Heeded.append {evs evs' : List Event} {r : Option Stop} (h : Heeded base evs none)
    (h' : Heeded base evs' r) : Heeded base (evs ++ evs') r := by
  intro data hdata hready e he
  rcases List.mem_append.1 hdata with hdata | hdata
  · exact nomatch h data hdata hready e he
  · exact h' data hdata hready e he

/-- A trace without the status register has nothing to heed. -/
theorem heeded_of_ne_status {evs : List Event}
    (h : EveryCommand (· ≠ .readWord (registerAt base .status)) evs) (r : Option Stop) :
    Heeded base evs r :=
  fun _ hdata => absurd rfl (h _ hdata _ rfl)

theorem heeded_of_busy {answers : List (List UInt8)} (h : ∀ data ∈ answers, ¬IsReady data)
    (r : Option Stop) : Heeded base (polls base answers) r := by
  intro data hdata hready
  obtain ⟨data', hmem, heq⟩ := List.mem_map.1 hdata
  cases heq
  exact absurd hready (h data hmem)

theorem heeded_of_last {busy : List (List UInt8)} {last : List UInt8} {r : Option Stop}
    (hbusy : ∀ data ∈ busy, ¬IsReady data)
    (hlast : ∀ e, Status.check (Word.ofLittleEndian last) = .error e → r = some (.error e)) :
    Heeded base (polls base (busy ++ [last])) r := by
  intro data hdata hready e he
  obtain ⟨data', hmem, heq⟩ := List.mem_map.1 hdata
  cases heq
  rcases List.mem_append.1 hmem with hmem | hmem
  · exact absurd hready (hbusy data hmem)
  · rw [List.mem_singleton.1 hmem] at he
    exact hlast e he

theorem heeded_write (address value : UInt32) (r : Option Stop) :
    Heeded base [.whole (.writeWord address value) []] r :=
  heeded_of_ne_status (everyCommand_whole nofun []) r

theorem heeded_broken (c : Monitor.Command) (sent answer : List UInt8) (r : Option Stop) :
    Heeded base [.broken c sent answer] r := by
  intro data hdata
  cases List.mem_singleton.1 hdata

theorem heeded_append_broken {evs : List Event} {r : Option Stop} (h : Heeded base evs r)
    (c : Monitor.Command) (sent answer : List UInt8) :
    Heeded base (evs ++ [.broken c sent answer]) r := by
  intro data hdata
  rcases List.mem_append.1 hdata with hdata | hdata
  · exact h data hdata
  · cases List.mem_singleton.1 hdata

/-! ## Acts -/

/-- The act reads nothing but the status register. -/
def Act.OnlyPolls : Act → Prop
  | .compare .. => False
  | _ => True

theorem Act.Done.heeded {a : Act} {evs : List Event} (h : a.Done base evs) (ha : a.OnlyPolls) :
    Heeded base evs none := by
  cases h with
  | report p => exact heeded_of_ne_status (everyCommand_told p) none
  | command c arg hbusy _ hclean =>
    have hlast : ∀ e, Status.check (Word.ofLittleEndian _) = .error e →
        (none : Option Stop) = some (.error e) := fun e he => nomatch hclean.symm.trans he
    exact (heeded_write _ _ none).append (heeded_of_last hbusy hlast)
  | store address value => exact heeded_write address value none
  | compare => exact ha.elim

theorem PollsStop.heeded {counted : Nat} {evs : List Event} {s : Stop}
    (h : PollsStop base counted evs s) : Heeded base evs (some s) := by
  cases h with
  | busy hbusy => exact heeded_of_busy hbusy _
  | crash hbusy => exact heeded_of_busy hbusy _
  | broken hbusy _ sent answer =>
    exact heeded_append_broken (heeded_of_busy hbusy _) _ sent answer

theorem Act.Stopped.heeded {a : Act} {evs : List Event} {s : Stop} (h : a.Stopped base evs s)
    (ha : a.OnlyPolls) : Heeded base evs (some s) := by
  cases h with
  | crash => exact heeded_of_ne_status everyCommand_nil _
  | unsent c arg _ sent answer => exact heeded_broken _ sent answer _
  | unready c arg hstop => exact (heeded_write _ _ none).append hstop.heeded
  | failed c arg hbusy _ herror =>
    refine (heeded_write _ _ none).append (heeded_of_last hbusy fun e he => ?_)
    exact congrArg (some <| Stop.error ·) (Except.error.inj (herror.symm.trans he))
  | unstored address value _ sent answer => exact heeded_broken _ sent answer _
  | unread | differs => exact ha.elim

/-- Working through acts heeds the errors of all the polls. -/
theorem Follows.heeded {acts : List Act} {evs : List Event} {r : Option Stop}
    (h : Follows base acts evs r) (hacts : ∀ a ∈ acts, a.OnlyPolls) : Heeded base evs r := by
  induction h with
  | nil => exact heeded_of_ne_status everyCommand_nil _
  | done ha _ ih =>
    obtain ⟨hfirst, hrest⟩ := List.forall_mem_cons.1 hacts
    exact (ha.heeded hfirst).append (ih hrest)
  | stopped acts ha => exact ha.heeded (hacts _ List.mem_cons_self)
  | crash => exact heeded_of_ne_status everyCommand_nil _

end Traces

/-! ## Programs -/

section Programs

variable {base : UInt32} {α β : Type}

theorem Heeds.bind {p : Link α} {f : α → Link β} (hp : Heeds base p)
    (hf : ∀ a, Heeds base (f a)) : Heeds base (p.bind f) := by
  refine Traces.bind hp (fun _ _ h => h) fun evs a h => ?_
  exact Traces.mono (hf a) (fun _ _ h' => h.append h') fun _ _ h' => h.append h'

theorem heeds_ok {a : α} : Heeds base (done (.ok a)) :=
  traces_ok (heeded_of_ne_status everyCommand_nil none)

theorem Heeds.discard {p : Link α} (h : Heeds base p) : Heeds base (discard p) :=
  h.bind fun _ => heeds_ok

theorem Performs.heeds {p : Link α} {acts : List Act} (h : Performs base p acts)
    (hacts : ∀ a ∈ acts, a.OnlyPolls) : Heeds base p :=
  Traces.mono h (fun _ _ hfollows => hfollows.heeded hacts) fun _ _ hfollows =>
    hfollows.heeded hacts

theorem heeds_of_keeps {p : Link α} (h : Keeps (· ≠ .readWord (registerAt base .status)) p) :
    Heeds base p :=
  Traces.mono h (fun _ _ hkept => heeded_of_ne_status hkept none) fun _ _ hkept =>
    heeded_of_ne_status hkept _

theorem Heeds.endsAsReported {p : Link α} (h : Heeds base p) {es : List (Exchange Link.interface)}
    {o : Outcome LinkError α} (hplays : p.Plays es o) : EndsAsReported base es o := by
  have hover : ∃ evs, Carries (Link.signals es) evs ∧ Heeded base evs o.stop? := by
    have h := h es o hplays
    cases o <;> exact h
  obtain ⟨evs, hevs, hheeded⟩ := hover
  refine ⟨evs, hevs, fun data hdata hready bit hbit hhas => ?_⟩
  cases hcheck : Status.check (Word.ofLittleEndian data) with
  | ok _ =>
    have hclear := Status.check_eq_ok.1 hcheck bit hbit
    exact absurd hhas (Bool.eq_false_iff.1 hclear)
  | error e =>
    exact ⟨e, rfl, Outcome.stop?_eq_error.1 (hheeded data hdata hready e hcheck)⟩

end Programs

/-! ## Operations -/

namespace Controller

variable (c : Controller)

theorem registerAt_result_ne_status (base : UInt32) :
    registerAt base .result ≠ registerAt base .status := by
  intro h
  exact absurd ((UInt32.add_right_inj base).1 h) (by decide)

theorem keeps_readResult :
    Keeps (· ≠ .readWord (registerAt c.base .status)) c.readResult := by
  refine keeps_lift_bind fun address haddress => ?_
  rw [(Word.add_eq_ok haddress).1]
  refine keeps_readWord c.monitor fun h => ?_
  exact registerAt_result_ne_status c.base (Monitor.Command.readWord.inj h)

theorem keeps_readResults (left : Nat) (got : List UInt32) :
    Keeps (· ≠ .readWord (registerAt c.base .status)) (c.readResults left got) := by
  induction left generalizing got with
  | zero => exact keeps_ok
  | succ left ih => exact c.keeps_readResult.bind fun value => ih (value :: got)

theorem heeds_issue (command : Command) (arg : UInt32) : Heeds c.base (c.issue command arg) := by
  refine (c.performs_issue command arg).heeds fun a ha => ?_
  rw [List.mem_singleton.1 ha]
  trivial

theorem heeds_readDescriptor : Heeds c.base c.readDescriptor := by
  have hresult := c.keeps_readResult
  refine (c.heeds_issue .getDescriptor 0).discard.bind fun _ => heeds_of_keeps ?_
  refine hresult.bind fun id => hresult.bind fun size => hresult.bind fun pageSize => ?_
  split
  · exact keeps_note_bind keeps_error
  · refine hresult.bind fun planeCount => ?_
    dsimp only
    split
    · exact keeps_note_bind keeps_error
    · refine (c.keeps_readResults _ _).bind fun planes => hresult.bind fun lockCount => ?_
      split
      · exact keeps_note_bind keeps_error
      · exact (c.keeps_readResults _ _).bind fun locks => keeps_ok

theorem heeds_writePage (offset : UInt32) (data : List UInt8) :
    Heeds c.base (c.writePage offset data) := by
  by_cases hdata : data.length ≤ c.flash.pageSize.toNat
  · refine (c.performs_writePage offset hdata).heeds fun a ha => ?_
    rcases List.mem_append.1 ha with ha | ha
    · obtain ⟨j, -, rfl⟩ := List.mem_map.1 ha
      trivial
    · rw [List.mem_singleton.1 ha]
      trivial
  · have hrefused : c.writePage offset data = done (.error (.refused .longPage)) :=
      if_pos (Nat.not_le.1 hdata)
    rw [hrefused]
    exact heeds_of_keeps keeps_error

/-- Every operation heeds the errors of the controller, but for the one that issues no command. -/
theorem heeds_perform (op : Operation) (hop : ∀ offset, op ≠ .readPage offset) :
    Heeds c.base (c.perform op) := by
  cases op with
  | readDescriptor => exact c.heeds_readDescriptor.bind fun _ => heeds_ok
  | setLock region locked => exact (c.heeds_issue _ _).discard.bind fun _ => heeds_ok
  | unlockAll =>
    refine Heeds.bind (c.performs_unlockAll.heeds fun a ha => ?_) fun _ => heeds_ok
    obtain ⟨i, -, rfl⟩ := List.mem_map.1 ha
    trivial
  | eraseAll => exact (c.heeds_issue _ _).discard.bind fun _ => heeds_ok
  | eraseSector offset =>
    refine Heeds.bind ((c.performs_eraseSector offset).heeds fun a ha => ?_) fun _ => heeds_ok
    rw [List.mem_singleton.1 ha]
    trivial
  | writePage offset data => exact (c.heeds_writePage offset data).bind fun _ => heeds_ok
  | readPage offset => exact absurd rfl (hop offset)
  | setBit bit => exact (c.heeds_issue _ _).discard.bind fun _ => heeds_ok
  | clearBit bit => exact (c.heeds_issue _ _).discard.bind fun _ => heeds_ok
  | readBits =>
    refine Heeds.bind ?_ fun _ => heeds_ok
    exact (c.heeds_issue _ _).discard.bind fun _ => heeds_of_keeps c.keeps_readResult

theorem heeds_connect (monitor : Monitor) (base flashBase : UInt32) (pollLimit : Option UInt32) :
    Heeds base (connect monitor base flashBase pollLimit) := by
  refine (heeds_readDescriptor ⟨monitor, base, pollLimit, { base := flashBase }⟩).bind fun d => ?_
  exact heeds_of_keeps (keeps_note_bind keeps_ok)

/-- Whatever a controller answers, an error that it reports together with being ready ends every
operation that issues a command, and the connection. -/
theorem ready_error_ends :
    (∀ (c : Controller) (op : Operation), (∀ offset, op ≠ .readPage offset) → ∀ es o,
      (c.perform op).Plays es o → EndsAsReported c.base es o) ∧
    ∀ (monitor : Monitor) (base flashBase : UInt32) (pollLimit : Option UInt32) es o,
      (connect monitor base flashBase pollLimit).Plays es o → EndsAsReported base es o := by
  constructor
  · intro c op hop es o hplays
    exact (c.heeds_perform op hop).endsAsReported hplays
  · intro monitor base flashBase pollLimit es o hplays
    exact (heeds_connect monitor base flashBase pollLimit).endsAsReported hplays

/-- An erasure of which the only status says that the controller is ready and that a page is
locked. -/
theorem erasure_of_locked_page :
    ∃ es, ((onBadge (some 3)).perform .eraseAll).Plays es (.error (.flashLocked 5)) ∧
      EndsAsReported Target.badge.controllerBase es
        (.error (.flashLocked 5) : Outcome LinkError Answer) := by
  have hsend : Driven (onBadge (some 3)).monitor.channel (fun _ => 5)
      ((onBadge (some 3)).send Command.eraseAll.code 0) 1 _ (.error (.flashLocked 5)) :=
    driven_send (c := onBadge (some 3)) (k := 0) (by decide) addressable_badge
      ⟨by decide, by decide⟩ (by decide) Command.eraseAll.code 0
  obtain ⟨es, hes, -⟩ := ((hsend.bind_error fun _ => done (.ok ())).bind_error
    fun _ => done (.ok Answer.done)).exists_plays
  exact ⟨es, hes, ready_error_ends.1 (onBadge (some 3)) .eraseAll nofun es _ hes⟩

/-- Where the first status says that a page is locked but not yet that the controller is ready, and
the second is clean, the erasure succeeds. -/
theorem busy_error_unheeded :
    ∃ es evs data, ((onBadge (some 3)).perform .eraseAll).Plays es (.ok .done) ∧
      Carries (Link.signals es) evs ∧ statusRead Target.badge.controllerBase data ∈ evs ∧
      Status.has (Word.ofLittleEndian data) Status.locked = true := by
  let w : Nat → UInt32 := fun j => if j = 0 then 4 else 1
  have hclean : Status.check (w 1) = .ok () := Status.check_ready
  have hsend := driven_issue (c := onBadge (some 3)) (w := w) (k := 1) (by decide)
    addressable_badge ⟨by decide, by decide⟩ (by decide) hclean .eraseAll 0
  have herased := hsend.discard.bind_end (f := fun _ => done (.ok Answer.done)) (driven_done _)
  obtain ⟨es, hes, hdelivers, hserved⟩ := herased.exists_served (by decide)
  obtain ⟨hevs, -, -⟩ := herased.unique es _ hes hdelivers hserved
  exact ⟨es, _, Word.littleEndian 4, hes, hevs, List.mem_cons_of_mem _ List.mem_cons_self,
    by decide⟩

end Controller

end BadgeLink.Flash
