import BadgeLink.Proofs.Monitor.Text

/-!
# Reading a trace off its signals

Signals do not quite determine the trace that they stand for. A command that broke off before any of
it was sent leaves no signal at all, and one that has no answer and was sent to its last byte may have
gone through or not. What stands between two programs that say different things about a trace must
therefore be said of the signals, and read back from them: as no command is the beginning of another,
everything up to an answered command can be read in one way only, if commands break off at the end
alone.

* `Event.IsWhole`, `Orderly`: nothing is missing of an event, or of all events but the last.
* `Carries.begins`: if signals begin with those of whole events, the last of which was answered, then
  an orderly trace of them begins with these events.
-/

namespace BadgeLink.Monitor

/-- Nothing of the event is missing. -/
def Event.IsWhole : Event → Prop
  | .broken .. => False
  | .whole .. | .told _ => True

/-- The end of a trace that breaks off: nothing more happened, or a command broke off. -/
def BreaksOff (tail : List Event) : Prop :=
  tail = [] ∨ ∃ c sent answer, tail = [.broken c sent answer]

/-- No command but the last broke off. -/
def Orderly (evs : List Event) : Prop :=
  ∃ front tail, evs = front ++ tail ∧ (∀ e ∈ front, e.IsWhole) ∧ BreaksOff tail

theorem BreaksOff.ne_whole {tail rest : List Event} {c : Command} {answer : List UInt8}
    (h : BreaksOff tail) : tail ≠ .whole c answer :: rest := by
  rcases h with rfl | ⟨_, _, _, rfl⟩
  · exact nofun
  · exact nofun

theorem orderly_of_isWhole {evs : List Event} (h : ∀ e ∈ evs, e.IsWhole) : Orderly evs :=
  ⟨evs, [], (List.append_nil evs).symm, h, .inl rfl⟩

theorem orderly_broken {evs : List Event} (h : ∀ e ∈ evs, e.IsWhole) (c : Command)
    (sent answer : List UInt8) : Orderly (evs ++ [.broken c sent answer]) :=
  ⟨evs, _, rfl, h, .inr ⟨c, sent, answer, rfl⟩⟩

theorem Orderly.append {evs evs' : List Event} (h : ∀ e ∈ evs, e.IsWhole) (h' : Orderly evs') :
    Orderly (evs ++ evs') := by
  obtain ⟨front, tail, rfl, hfront, htail⟩ := h'
  exact ⟨evs ++ front, tail, (List.append_assoc ..).symm, List.forall_mem_append.2 ⟨h, hfront⟩, htail⟩

/-- The first event of an orderly trace is whole, or it is all there is. -/
theorem Orderly.cons_cases {e : Event} {evs : List Event} (h : Orderly (e :: evs)) :
    e.IsWhole ∧ Orderly evs ∨ (∃ c sent answer, e = .broken c sent answer) ∧ evs = [] := by
  obtain ⟨front, tail, hsplit, hfront, htail⟩ := h
  cases front with
  | nil =>
    rcases htail with rfl | ⟨c, sent, answer, rfl⟩
    · cases hsplit
    · obtain ⟨rfl, rfl⟩ := List.cons.inj hsplit
      exact .inr ⟨⟨c, sent, answer, rfl⟩, rfl⟩
  | cons e' front =>
    obtain ⟨rfl, rfl⟩ := List.cons.inj hsplit
    obtain ⟨he, hfront⟩ := List.forall_mem_cons.1 hfront
    exact .inl ⟨he, front, tail, rfl, hfront, htail⟩

/-! ## One event -/

section Signals

variable {c c' : Command} {x y : List Signal}

/-- Signals begin with one command only. -/
theorem Command.eq_of_signals (h : c.bytes.map Signal.sent ++ x = c'.bytes.map .sent ++ y) :
    c = c' := by
  have hbytes := congrArg Link.sentBytes h
  rw [Link.sentBytes_append, Link.sentBytes_append, Link.sentBytes_sent, Link.sentBytes_sent] at hbytes
  exact eq_of_append hbytes

theorem Command.signals_ne_told (c : Command) (p : Progress) :
    c.bytes.map Signal.sent ++ x ≠ .told p :: y := by
  obtain ⟨b, rest, hbytes, -⟩ := c.bytes_eq_cons
  rw [hbytes]
  exact nofun

/-- Signals begin with one whole event only. -/
theorem Event.eq_of_signals {e e' : Event} (he : e.WF) (hwhole : e.IsWhole) (he' : e'.WF)
    (hwhole' : e'.IsWhole) (h : e.signals ++ x = e'.signals ++ y) : e = e' ∧ x = y := by
  cases e with
  | broken => exact hwhole.elim
  | told p =>
    cases e' with
    | broken => exact hwhole'.elim
    | told p' =>
      obtain ⟨hhead, rfl⟩ := List.cons.inj h
      exact ⟨congrArg Event.told (Signal.told.inj hhead), rfl⟩
    | whole c' answer' =>
      rw [Event.signals, Event.signals, List.append_assoc] at h
      exact absurd h.symm (c'.signals_ne_told p)
  | whole c answer =>
    cases e' with
    | broken => exact hwhole'.elim
    | told p' =>
      rw [Event.signals, Event.signals, List.append_assoc] at h
      exact absurd h (c.signals_ne_told p')
    | whole c' answer' =>
      rw [Event.signals, Event.signals, List.append_assoc, List.append_assoc] at h
      obtain rfl := Command.eq_of_signals h
      -- an answer ends where its command says
      have hlen : (answer.map Signal.got).length = (answer'.map Signal.got).length := by
        rw [List.length_map, List.length_map]
        exact he.trans he'.symm
      obtain ⟨hanswer, rfl⟩ := List.append_inj (List.append_cancel_left h) hlen
      rw [List.map_inj_right (fun _ _ => Signal.got.inj) |>.1 hanswer]
      exact ⟨rfl, rfl⟩

/-- A whole event is no command that broke off, unless that was sent whole and has no answer. -/
theorem Event.eq_of_signals_broken {e : Event} (he : e.WF) (hwhole : e.IsWhole)
    {sent answer : List UInt8} (hbroken : (Event.broken c sent answer).WF)
    (h : e.signals ++ x = (Event.broken c sent answer).signals) : e = .whole c [] ∧ x = [] := by
  obtain ⟨hsent, hanswer⟩ := hbroken
  cases e with
  | broken => exact hwhole.elim
  | told p =>
    rcases hanswer with rfl | ⟨rfl, -⟩
    · cases sent with
      | nil => cases h
      | cons => cases h
    · exact absurd h.symm (c.signals_ne_told p)
  | whole c' answer' =>
    rw [Event.signals, Event.signals, List.append_assoc] at h
    rcases hanswer with rfl | ⟨rfl, hlt⟩
    · rw [List.map_nil, List.append_nil] at h
      have hbegins : c'.bytes <+: sent := by
        have hbytes := congrArg Link.sentBytes h
        rw [Link.sentBytes_append, Link.sentBytes_sent, Link.sentBytes_sent] at hbytes
        exact ⟨_, hbytes⟩
      obtain rfl := Command.eq_of_begins (hbegins.trans hsent)
      obtain rfl := hbegins.eq_of_length_le hsent.length_le
      obtain ⟨hnil, rfl⟩ := List.append_eq_nil_iff.1 (List.append_right_eq_self.1 h)
      rw [List.map_eq_nil_iff.1 hnil]
      exact ⟨rfl, rfl⟩
    · obtain rfl := Command.eq_of_signals h
      -- the answer of the whole command would be a part of a shorter one
      have hlen := congrArg List.length (List.append_cancel_left h)
      rw [List.length_append, List.length_map, List.length_map] at hlen
      have hanswer' : answer'.length = c'.answerLength := he
      omega

theorem Event.signals_ne_nil {e : Event} (hwhole : e.IsWhole) : e.signals ≠ [] := by
  cases e with
  | broken => exact hwhole.elim
  | told p => exact List.cons_ne_nil _ _
  | whole c answer =>
    exact fun h => c.bytes_ne_nil (List.map_eq_nil_iff.1 (List.append_eq_nil_iff.1 h).1)

end Signals

/-! ## Traces -/

variable {ss part : List Signal} {evs front : List Event} {c : Command} {answer : List UInt8}

/-- If the signals of an orderly trace begin with a whole event, then so does the trace, unless that
event is a command without an answer and ends the signals. -/
theorem Orderly.uncons {e : Event} {x : List Signal} (horderly : Orderly evs)
    (hwf : ∀ e ∈ evs, e.WF) (he : e.WF) (hwhole : e.IsWhole)
    (h : e.signals ++ x = evs.flatMap Event.signals) :
    (∃ rest, evs = e :: rest ∧ Orderly rest ∧ x = rest.flatMap Event.signals) ∨
      (∃ c, e = .whole c []) ∧ x = [] := by
  cases evs with
  | nil => exact absurd (List.append_eq_nil_iff.1 h).1 (Event.signals_ne_nil hwhole)
  | cons e' rest =>
    obtain ⟨he', -⟩ := List.forall_mem_cons.1 hwf
    rw [List.flatMap_cons] at h
    rcases horderly.cons_cases with ⟨hwhole', hrest⟩ | ⟨⟨c, sent, answer, rfl⟩, rfl⟩
    · obtain ⟨rfl, rfl⟩ := Event.eq_of_signals he hwhole he' hwhole' h
      exact .inl ⟨rest, rfl, hrest, rfl⟩
    · rw [List.flatMap_nil, List.append_nil] at h
      obtain ⟨rfl, rfl⟩ := Event.eq_of_signals_broken he hwhole he' h
      exact .inr ⟨⟨c, rfl⟩, rfl⟩

theorem Orderly.begins {x : List Signal} (horderly : Orderly evs) (hwf : ∀ e ∈ evs, e.WF)
    (hfront : ∀ e ∈ front ++ [.whole c answer], e.WF) (hwhole : ∀ e ∈ front, e.IsWhole)
    (hanswer : answer ≠ [])
    (h : (front ++ [Event.whole c answer]).flatMap Event.signals ++ x =
      evs.flatMap Event.signals) :
    front ++ [.whole c answer] <+: evs := by
  induction front generalizing evs with
  | nil =>
    rw [List.nil_append, List.flatMap_singleton] at h
    have hlast := hfront _ (List.mem_append_right _ List.mem_cons_self)
    rcases horderly.uncons hwf hlast trivial h with ⟨rest, rfl, -⟩ | ⟨⟨c, he⟩, -⟩
    · exact List.prefix_append _ rest
    · exact absurd (Event.whole.inj he).2 hanswer
  | cons e front ih =>
    obtain ⟨he, hfront⟩ := List.forall_mem_cons.1 hfront
    obtain ⟨hewhole, hwhole⟩ := List.forall_mem_cons.1 hwhole
    rw [List.cons_append, List.flatMap_cons, List.append_assoc] at h
    rcases horderly.uncons hwf he hewhole h with ⟨rest, rfl, hrest, h⟩ | ⟨-, hnil⟩
    · exact (List.prefix_cons_inj e).2
        (ih hrest (List.forall_mem_cons.1 hwf).2 hfront hwhole h)
    · have hlast : ¬(Event.whole c answer).signals = [] := Event.signals_ne_nil trivial
      rw [List.flatMap_append, List.flatMap_singleton] at hnil
      exact absurd (List.append_eq_nil_iff.1 (List.append_eq_nil_iff.1 hnil).1).2 hlast

/-- If signals begin with those of whole events, the last of which was answered, then every orderly
trace that stands for the signals begins with these events. -/
theorem Carries.begins (hevs : Carries ss evs) (horderly : Orderly evs)
    (hpart : Carries part (front ++ [.whole c answer])) (hwhole : ∀ e ∈ front, e.IsWhole)
    (hanswer : answer ≠ []) (h : part <+: ss) : front ++ [.whole c answer] <+: evs := by
  obtain ⟨x, h⟩ := h
  rw [hpart.signals_eq, hevs.signals_eq] at h
  exact horderly.begins hevs.wf hpart.wf hwhole hanswer h

end BadgeLink.Monitor
