import BadgeLink.Proofs.Bench.Conversation
import BadgeLink.Proofs.Flash.Spelling
import BadgeLink.Proofs.Programmer.Script
import Mathlib.Order.Bounds.Basic

/-!
# The progress of an installation

The listener is told of each sector before it is erased, of each page before it is written and of
each page before it is read back, with the number of pages of the image. What it is told up to the
place where an installation ends is the beginning of one list, and all of it if the installation
succeeds. No byte of a step is sent before the step was told.

* `announced` is that list, and `step` the acts that a report stands in front of.
* `Follows.progress_prefix`: what is told in working through acts are the reports among them.
* `progress_of_install`: the reports of an installation, their number and their place.
-/

namespace BadgeLink

/-! ## Reports of a conversation -/

def Signal.told? : Signal → Option Progress
  | .told q => some q
  | .sent _ | .got _ => none

namespace Link

/-- The progress that some signals tell. -/
def progress (ss : List Signal) : List Progress :=
  ss.filterMap Signal.told?

/-- The progress that the listener was told in a conversation. -/
def reported (es : List (Exchange interface)) : List Progress :=
  progress (signals es)

@[simp] theorem progress_append (ss ss' : List Signal) :
    progress (ss ++ ss') = progress ss ++ progress ss' :=
  List.filterMap_append

@[simp] theorem progress_sent (bytes : List UInt8) : progress (bytes.map .sent) = [] := by
  induction bytes with
  | nil => rfl
  | cons b bytes ih => exact ih

@[simp] theorem progress_got (bytes : List UInt8) : progress (bytes.map .got) = [] := by
  induction bytes with
  | nil => rfl
  | cons b bytes ih => exact ih

end Link

namespace Monitor

def Event.told? : Event → Option Progress
  | .told q => some q
  | .whole .. | .broken .. => none

/-- The progress that a trace tells. -/
def progress (evs : List Event) : List Progress :=
  evs.filterMap Event.told?

@[simp] theorem progress_append (evs evs' : List Event) :
    progress (evs ++ evs') = progress evs ++ progress evs' :=
  List.filterMap_append

theorem Event.progress_signals (e : Event) : Link.progress e.signals = progress [e] := by
  cases e with
  | whole c answer => simp [signals, progress, told?]
  | broken c sent answer => simp [signals, progress, told?]
  | told q => rfl

theorem progress_flatMap_signals (evs : List Event) :
    Link.progress (evs.flatMap Event.signals) = progress evs := by
  induction evs with
  | nil => rfl
  | cons e evs ih =>
    rw [List.flatMap_cons, Link.progress_append, e.progress_signals, ih]
    exact (progress_append [e] evs).symm

theorem progress_wordReads (address : UInt32) (n : Nat) (answers : List (List UInt8)) :
    progress (wordReads address n answers) = [] := by
  induction answers generalizing n with
  | nil => rfl
  | cons data answers ih => exact ih (n + 1)

end Monitor

/-! ## Reports among acts -/

namespace Flash

open Monitor

def Act.report? : Act → Option Progress
  | .report q => some q
  | .command .. | .store .. | .compare .. => none

def reports (acts : List Act) : List Progress :=
  acts.filterMap Act.report?

@[simp] theorem reports_append (acts acts' : List Act) :
    reports (acts ++ acts') = reports acts ++ reports acts' :=
  List.filterMap_append

variable {base : UInt32}

theorem progress_polls (answers : List (List UInt8)) : progress (polls base answers) = [] := by
  simp [progress, polls, List.filterMap_map, Function.comp_def, Event.told?]

theorem progress_issuing_polls (c : Command) (arg : UInt32) (answers : List (List UInt8)) :
    progress (issuing base c arg :: polls base answers) = [] :=
  progress_polls answers

theorem Act.Done.progress_eq {a : Act} {evs : List Event} (h : a.Done base evs) :
    progress evs = reports [a] := by
  cases h with
  | report q => rfl
  | command c arg => exact progress_issuing_polls c arg _
  | store => rfl
  | compare => exact progress_wordReads _ _ _

theorem PollsStop.progress_eq {counted : Nat} {evs : List Event} {s : Stop}
    (h : PollsStop base counted evs s) : progress evs = [] := by
  cases h with
  | busy => exact progress_polls _
  | crash => exact progress_polls _
  | broken => rw [progress_append, progress_polls]; rfl

theorem Act.Stopped.progress_eq {a : Act} {evs : List Event} {s : Stop} (h : a.Stopped base evs s) :
    progress evs = [] := by
  cases h with
  | crash => rfl
  | unsent => rfl
  | unready c arg h => exact h.progress_eq
  | failed c arg => exact progress_issuing_polls c arg _
  | unstored => rfl
  | unread expected h =>
    obtain ⟨answers, -, -, ⟨-, rfl⟩ | ⟨-, sent, answer, rfl⟩⟩ := h
    · exact progress_wordReads _ _ _
    · rw [progress_append, progress_wordReads]
      rfl
  | differs => exact progress_wordReads _ _ _

/-- What is told in working through acts are the reports among them, in their order, up to the place
where the work stops. -/
theorem Follows.progress_prefix {acts : List Act} {evs : List Event} {r : Option Stop}
    (h : Follows base acts evs r) :
    progress evs <+: reports acts ∧ (r = none → progress evs = reports acts) := by
  induction h with
  | nil => exact ⟨List.prefix_refl _, fun _ => rfl⟩
  | @done a acts evs evs' r ha _ ih =>
    obtain ⟨hbegins, hall⟩ := ih
    have hcons : reports (a :: acts) = reports [a] ++ reports acts := reports_append [a] acts
    rw [progress_append, ha.progress_eq, hcons]
    exact ⟨(List.prefix_append_right_inj _).2 hbegins, fun hr => congrArg _ (hall hr)⟩
  | stopped acts ha =>
    rw [ha.progress_eq]
    exact ⟨List.nil_prefix, nofun⟩
  | crash acts c => exact ⟨List.nil_prefix, nofun⟩

theorem Follows.crash_after {acts : List Act} {evs : List Event} (h : Follows base acts evs none)
    (c : Crash) : Follows base acts evs (some (.crash c)) := by
  have hcrash := h.append (.crash [] c)
  rwa [List.append_nil, List.append_nil] at hcrash

/-- A report is told between the acts before it and those after it, or the work stops before. -/
theorem Follows.report_cases {acts acts' : List Act} {q : Progress} {evs : List Event}
    {r : Option Stop} (h : Follows base (acts ++ .report q :: acts') evs r) :
    (∃ before after, evs = before ++ .told q :: after ∧ Follows base acts before none ∧
      Follows base acts' after r) ∨
    ∃ s, Follows base acts evs (some s) := by
  rcases follows_append_iff.1 h with ⟨before, rest, rfl, hbefore, hrest⟩ | ⟨s, -, hstop⟩
  · cases hrest with
    | done ha hafter =>
      cases ha
      exact .inl ⟨before, _, rfl, hbefore, hafter⟩
    | stopped _ ha =>
      -- a report can only be stopped by a crash, and then it was not told
      cases ha with
      | crash _ c =>
        rw [List.append_nil]
        exact .inr ⟨_, hbefore.crash_after c⟩
    | crash _ c =>
      rw [List.append_nil]
      exact .inr ⟨_, hbefore.crash_after c⟩
  · exact .inr ⟨s, hstop⟩

end Flash

namespace Programmer

open Dialogue Monitor Flash

/-! ## The reports of an installation -/

/-- The reports for a page that is written, of `n` in all. -/
def announcedPage (n page : Nat) : List Progress :=
  (if page % 16 = 0 then [⟨.erasing, page, n⟩] else []) ++ [⟨.writing, page, n⟩]

/-- The reports for an image of `n` pages. -/
def announced (n : Nat) (verify : Bool) : List Progress :=
  (List.range n).flatMap (announcedPage n) ++
    if verify then (List.range n).map fun page => ⟨.verifying, page, n⟩ else []

theorem of_mem_announced {n : Nat} {verify : Bool} {q : Progress} (h : q ∈ announced n verify) :
    q.page < n ∧ q.total = n := by
  rcases List.mem_append.1 h with h | h
  · obtain ⟨page, hpage, h⟩ := List.mem_flatMap.1 h
    have hlt := List.mem_range.1 hpage
    rcases List.mem_append.1 h with h | h
    · split at h
      · rw [List.mem_singleton.1 h]
        exact ⟨hlt, rfl⟩
      · cases h
    · rw [List.mem_singleton.1 h]
      exact ⟨hlt, rfl⟩
  · split at h
    · obtain ⟨page, hpage, rfl⟩ := List.mem_map.1 h
      exact ⟨List.mem_range.1 hpage, rfl⟩
    · cases h

/-- Every page is written once, and every sixteenth begins a sector. -/
theorem countP_announcedPage (total n : Nat) :
    ((List.range n).flatMap (announcedPage total)).countP (·.stage = .writing) = n ∧
      ((List.range n).flatMap (announcedPage total)).countP (·.stage = .erasing) =
        (n + 15) / 16 := by
  induction n with
  | zero => exact ⟨rfl, rfl⟩
  | succ n ih =>
    obtain ⟨hwriting, herasing⟩ := ih
    simp only [List.range_succ, List.flatMap_append, List.flatMap_singleton, List.countP_append,
      hwriting, herasing, announcedPage]
    split <;> simp <;> omega

theorem countP_announced (n : Nat) (verify : Bool) :
    (announced n verify).countP (·.stage = .writing) = n ∧
      (announced n verify).countP (·.stage = .erasing) = (n + 15) / 16 := by
  obtain ⟨hwriting, herasing⟩ := countP_announcedPage n n
  rw [announced, List.countP_append, List.countP_append, hwriting, herasing]
  cases verify <;> simp [List.countP_map, Function.comp_def]

variable (p : Programmer) (image : List UInt8)

/-- The acts that a report announces. -/
def work (q : Progress) : List Act :=
  match q.stage with
  | .erasing => [.command .erasePages (UInt32.ofNat q.page ||| Command.sixteenPages)]
  | .writing =>
    (List.range (p.pageSize / 4)).map (fun j =>
      .store (p.pageAddress q.page + UInt32.ofNat j * 4) (Word.ofLittleEndian
        (((padded p.pageSize (pageOf p.pageSize image q.page)).drop (4 * j)).take 4))) ++
      [.command .writePage (UInt32.ofNat q.page)]
  | .verifying =>
    [.compare p.flash.base (p.pageOffset q.page) (p.pageSize / 4) (pageOf p.pageSize image q.page)]

/-- A report and the acts that it announces. -/
def step (q : Progress) : List Act :=
  .report q :: p.work image q

/-- The acts of an installation up to the report that follows these. -/
def actsBefore (qs : List Progress) : List Act :=
  Controller.unlocking p.flash.locks.length 0 ++ qs.flatMap (p.step image)

theorem writing_eq_steps (page : Nat) :
    p.writing image page = (announcedPage (p.total image) page).flatMap (p.step image) := by
  unfold writing announcedPage
  split <;> simp [step, work]

theorem comparing_eq_step (page : Nat) :
    p.comparing image page = p.step image ⟨.verifying, page, p.total image⟩ :=
  rfl

theorem script_eq_steps (hfits : image.length ≤ p.flash.size.toNat) (verify : Bool) :
    p.script image verify =
      p.actsBefore image (announced (p.total image) verify) ++ [p.booting] := by
  have hwritten : (List.range (p.total image)).flatMap (p.writing image) =
      ((List.range (p.total image)).flatMap (announcedPage (p.total image))).flatMap
        (p.step image) := by
    rw [List.flatMap_assoc]
    exact List.flatMap_congr fun page _ => p.writing_eq_steps image page
  rw [script, if_neg (Nat.not_lt.2 hfits), written, hwritten, actsBefore, announced,
    List.flatMap_append]
  cases verify with
  | false => simp
  | true => simp [compared, funext (p.comparing_eq_step image), List.flatMap_map]

theorem reports_work (q : Progress) : reports (p.work image q) = [] := by
  unfold work
  cases q.stage with
  | erasing => rfl
  | writing => simp [reports, List.filterMap_map, Function.comp_def, Act.report?]
  | verifying => rfl

theorem reports_actsBefore (qs : List Progress) : reports (p.actsBefore image qs) = qs := by
  have hsteps : reports (qs.flatMap (p.step image)) = qs := by
    induction qs with
    | nil => rfl
    | cons q qs ih =>
      rw [List.flatMap_cons, reports_append, ih]
      exact congrArg (q :: · ++ qs) (p.reports_work image q)
  have hunlocking : reports (Controller.unlocking p.flash.locks.length 0) = [] := by
    simp [reports, Controller.unlocking, List.filterMap_map, Function.comp_def, Act.report?]
  rw [actsBefore, reports_append, hunlocking, hsteps, List.nil_append]

/-! ## The place of a report -/

/-- The signals of an installation in which some reports `qs` are due before a report `q` and some
acts after its own: no byte of what is announced by `q` is sent before `q` is told. -/
inductive Precedes (qs : List Progress) (q : Progress) (rest : List Act) : List Signal → Prop where
  /-- What was sent before are the acts up to this report, and what is sent then begins with the
  acts that it announces. -/
  | told {before after : List Signal} {ms ms' : List Monitor.Command}
      (hbefore : Link.progress before = qs)
      (hacts : Spells p.controller.base (p.actsBefore image qs) ms)
      (hsent : Link.sentBytes before = ms.flatMap Command.bytes)
      (hwork : Spells p.controller.base (p.work image q ++ rest) ms')
      (hafter : Link.sentBytes after <+: ms'.flatMap Command.bytes) :
      Precedes qs q rest (before ++ .told q :: after)
  /-- The work stopped before, within the acts up to this report. -/
  | untold {ss : List Signal} {ms : List Monitor.Command} (hqs : Link.progress ss <+: qs)
      (hacts : Spells p.controller.base (p.actsBefore image qs) ms)
      (hsent : Link.sentBytes ss <+: ms.flatMap Command.bytes) : Precedes qs q rest ss

variable {p image}

/-- The rest of the acts of an installation after the report `q`. -/
theorem precedes_of_follows {qs qs' : List Progress} {q : Progress} {ss : List Signal}
    {evs : List Event} {r : Option Stop} (hevs : Carries ss evs)
    (h : Follows p.controller.base (p.actsBefore image (qs ++ q :: qs') ++ [p.booting]) evs r) :
    p.Precedes image qs q (qs'.flatMap (p.step image) ++ [p.booting]) ss := by
  have hsplit : p.actsBefore image (qs ++ q :: qs') ++ [p.booting] =
      p.actsBefore image qs ++ .report q ::
        (p.work image q ++ (qs'.flatMap (p.step image) ++ [p.booting])) := by
    simp [actsBefore, step]
  rw [hsplit] at h
  obtain rfl := hevs.signals_eq
  have hsent : ∀ evs : List Event, (∀ e ∈ evs, e.WF) →
      Link.sentBytes (evs.flatMap Event.signals) = evs.flatMap Event.sent :=
    fun evs hwf => Carries.sentBytes_eq ⟨rfl, hwf⟩
  rcases h.report_cases with ⟨before, after, rfl, hbefore, hafter⟩ | ⟨s, hstop⟩
  · have hwf : ∀ e ∈ before, e.WF := fun e he => hevs.wf e (List.mem_append_left _ he)
    have hwf' : ∀ e ∈ after, e.WF := fun e he =>
      hevs.wf e (List.mem_append_right _ (List.mem_cons_of_mem _ he))
    obtain ⟨ms, hms, -, hall⟩ := hbefore.spelled hwf
    obtain ⟨ms', hms', hbegins, -⟩ := hafter.spelled hwf'
    have hprogress : progress before = qs :=
      (hbefore.progress_prefix.2 rfl).trans (p.reports_actsBefore image qs)
    rw [List.flatMap_append, List.flatMap_cons]
    exact .told ((progress_flatMap_signals before).trans hprogress) hms
      ((hsent before hwf).trans (hall rfl)) hms' ((hsent after hwf').symm ▸ hbegins)
  · obtain ⟨ms, hms, hbegins, -⟩ := hstop.spelled hevs.wf
    have hprogress := hstop.progress_prefix.1
    rw [reports_actsBefore] at hprogress
    exact .untold ((progress_flatMap_signals evs).symm ▸ hprogress) hms
      ((hsent evs hevs.wf).symm ▸ hbegins)

/-! ## Installations -/

/-- The pages of an image are the fewest that hold it, and the parts into which it is cut. -/
theorem isLeast_pageTotal {size : Nat} (hsize : 0 < size) (image : List UInt8) :
    IsLeast {n | image.length ≤ n * size} (pageTotal size image) ∧
      (chunks size image).length = pageTotal size image := by
  refine ⟨⟨(pageTotal_le_iff hsize).1 (Nat.le_refl _), ?_⟩, ?_⟩
  · intro n hn
    exact (pageTotal_le_iff hsize).2 hn
  · rw [chunks_eq hsize, List.length_map, List.length_range]

/-- Whatever is answered, the reports of an installation begin the list of those for the pages of
the image: each sixteenth page is announced as the first of a sector that is erased and each page as
one that is written, and then, if asked for, each page as one that is read back. They are all of
that list if the installation succeeds. The pages are counted once, as the fewest that hold the
image, and are the parts into which the image is cut. No byte of what a report announces is sent
before it. -/
theorem progress_of_install {monitor : Monitor} {base flashBase : UInt32}
    {pollLimit : Option UInt32} {opening : List (Exchange Link.interface)} {c : Controller}
    (hopen : (Controller.connect monitor base flashBase pollLimit).Plays opening (.ok c))
    (target : Target) (image : List UInt8) (verify : Bool)
    {es : List (Exchange Link.interface)} {o : Outcome LinkError Unit}
    (h : ((⟨target, c⟩ : Programmer).install image verify).Plays es o) :
    let p : Programmer := ⟨target, c⟩
    let n := (chunks c.flash.pageSize.toNat image).length
    IsLeast {n | image.length ≤ n * c.flash.pageSize.toNat} n ∧
    (image.length ≤ Size.largestBuffer → c.flash.pageCount image.length = .ok n) ∧
    Link.reported es <+: announced n verify ∧
    (o = .ok () → Link.reported es = announced n verify ∧
      (Link.reported es).countP (·.stage = .writing) = n ∧
      (Link.reported es).countP (·.stage = .erasing) = (n + 15) / 16) ∧
    (∀ q ∈ Link.reported es, q.page < n ∧ q.total = n) ∧
    ∀ qs q qs', announced n verify = qs ++ q :: qs' →
      p.Precedes image qs q (qs'.flatMap (p.step image) ++ [p.booting]) (Link.signals es) := by
  intro p n
  obtain ⟨rfl, rfl, hflash⟩ := Controller.plausible_of_connect hopen
  obtain ⟨hleast, hparts⟩ := isLeast_pageTotal hflash.pageSize_pos image
  have hn : n = p.total image := hparts
  rw [← hparts] at hleast
  suffices hreports : Link.reported es <+: announced n verify ∧
      (o = .ok () → Link.reported es = announced n verify) ∧
      ∀ qs q qs', announced n verify = qs ++ q :: qs' →
        p.Precedes image qs q (qs'.flatMap (p.step image) ++ [p.booting]) (Link.signals es) by
    obtain ⟨hbegins, hall, hplaces⟩ := hreports
    refine ⟨hleast, fun hsize => ?_, hbegins, fun ho => ?_, fun q hq => ?_, hplaces⟩
    · rw [hn]
      exact Descriptor.pageCount_eq hflash.pageSize_pos hsize
    · rw [hall ho]
      exact ⟨rfl, countP_announced n verify⟩
    · exact of_mem_announced (hbegins.subset hq)
  by_cases hlarge : c.flash.size.toNat < image.length
  · obtain ⟨hsignals, rfl⟩ := install_tooLarge p hlarge h
    rw [Link.reported, hsignals]
    refine ⟨List.nil_prefix, nofun, fun qs q qs' _ => ?_⟩
    obtain ⟨ms, hms⟩ := exists_spells p.controller.base (p.actsBefore image qs)
    exact .untold List.nil_prefix hms List.nil_prefix
  · have hfits : image.length ≤ p.flash.size.toNat := Nat.not_lt.1 hlarge
    obtain ⟨evs, hevs, hfollows⟩ := (performs_install (p := p) hflash hfits verify).follows h
    rw [script_eq_steps p image hfits, ← hn] at hfollows
    have hreported : Link.reported es = progress evs := by
      rw [Link.reported, hevs.signals_eq, progress_flatMap_signals]
    have hreports : reports (p.actsBefore image (announced n verify) ++ [p.booting]) =
        announced n verify := by
      rw [reports_append, reports_actsBefore]
      exact List.append_nil _
    obtain ⟨hbegins, hall⟩ := hfollows.progress_prefix
    rw [hreports, ← hreported] at hbegins hall
    refine ⟨hbegins, ?_, ?_⟩
    · rintro rfl
      exact hall rfl
    · intro qs q qs' hsplit
      rw [hsplit] at hfollows
      exact precedes_of_follows hevs hfollows

/-- The installation of three bytes on a simulated chip is reported in three steps. -/
theorem progress_of_three_bytes :
    ∃ (c : Controller) (opening es : List (Exchange Link.interface)),
      (Controller.connect ⟨{}⟩ Chip.controllerBase Chip.flashBase none).Plays opening (.ok c) ∧
      ((⟨.badge, c⟩ : Programmer).install [0xde, 0xad, 0xbe] true).Plays es (.ok ()) ∧
      ∃ n, IsLeast {n | 3 ≤ n * c.flash.pageSize.toNat} n ∧
        Link.reported es = announced n true := by
  obtain ⟨c, opening, es, hopen, hinstall⟩ := Chip.exists_installation ⟨{}⟩
    (Channel.patience_pos {}) [0xde, 0xad, 0xbe] (by decide) true
  obtain ⟨hleast, -, -, hall, -⟩ := progress_of_install hopen .badge _ true hinstall
  exact ⟨c, opening, es, hopen, hinstall, _, hleast, (hall rfl).1⟩

end Programmer

end BadgeLink
