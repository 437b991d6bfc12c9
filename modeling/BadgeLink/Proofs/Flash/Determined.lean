import BadgeLink.Proofs.Flash.Spelling

/-!
# Traces determine how far the acts got

A trace can be read in one way only: where an act was done, its trace has an end that the trace
itself shows, namely the first poll that says ready, or the last word of a comparison. So if some
acts were done with the first part of a trace, whatever the rest of the trace is belongs to the acts
after them.

* `Follows.orderly`: working through acts ends with the first command that breaks off.
* `Follows.cancel`: acts that were done are taken off the front of a trace.
-/

namespace BadgeLink.Flash

open Monitor

variable {base : UInt32}

/-! ## Commands that break off -/

theorem orderly_of_pollsStop {counted : Nat} {evs : List Event} {s : Stop}
    (h : PollsStop base counted evs s) : Orderly evs := by
  cases h with
  | busy => exact orderly_of_isWhole (isWhole_polls _)
  | crash => exact orderly_of_isWhole (isWhole_polls _)
  | broken => exact orderly_broken (isWhole_polls _) _ _ _

theorem orderly_of_readsStop {address : UInt32} {words n : Nat} {evs : List Event} {s : Stop}
    (h : ReadsStop address words n evs s) : Orderly evs := by
  obtain ⟨answers, -, -, ⟨-, rfl⟩ | ⟨-, sent, answer, rfl⟩⟩ := h
  · exact orderly_of_isWhole (isWhole_wordReads _ _ _)
  · exact orderly_broken (isWhole_wordReads _ _ _) _ _ _

/-- An act stops the work with the first command that breaks off. -/
theorem Act.Stopped.orderly {a : Act} {evs : List Event} {s : Stop} (h : a.Stopped base evs s) :
    Orderly evs := by
  cases h with
  | crash => exact orderly_of_isWhole (List.forall_mem_nil _)
  | unsent => exact orderly_broken (List.forall_mem_nil _) _ _ _
  | unready c arg h =>
    have hissuing : ∀ e ∈ [issuing base c arg], e.IsWhole := List.forall_mem_singleton.2 trivial
    exact .append hissuing (orderly_of_pollsStop h)
  | failed c arg => exact orderly_of_isWhole (isWhole_issuing_polls c arg _)
  | unstored => exact orderly_broken (List.forall_mem_nil _) _ _ _
  | unread _ h => exact orderly_of_readsStop h
  | differs => exact orderly_of_isWhole (isWhole_wordReads _ _ _)

/-- Nothing is missing of work that was done. -/
theorem Follows.isWhole {acts : List Act} {evs : List Event} (h : Follows base acts evs none) :
    ∀ e ∈ evs, e.IsWhole := by
  generalize hr : (none : Option Stop) = q at h
  induction h with
  | nil => exact List.forall_mem_nil _
  | done ha _ ih => exact List.forall_mem_append.2 ⟨ha.isWhole, ih hr⟩
  | stopped => cases hr
  | crash => cases hr

/-- Working through acts ends with the first command that breaks off. -/
theorem Follows.orderly {acts : List Act} {evs : List Event} {r : Option Stop}
    (h : Follows base acts evs r) : Orderly evs := by
  induction h with
  | nil => exact orderly_of_isWhole (List.forall_mem_nil _)
  | done ha _ ih => exact Orderly.append ha.isWhole ih
  | stopped _ ha => exact ha.orderly
  | crash => exact orderly_of_isWhole (List.forall_mem_nil _)

/-! ## Polls -/

section Polls

variable {busy : List (List UInt8)} {last : List UInt8} (hbusy : ∀ data ∈ busy, ¬IsReady data)
  (hlast : IsReady last)

include hbusy hlast

/-- Polling ends at the first answer that says ready. -/
theorem polls_append_inj {busy' : List (List UInt8)} {last' : List UInt8} {x y : List Event}
    (hbusy' : ∀ data ∈ busy', ¬IsReady data) (hlast' : IsReady last')
    (h : polls base (busy ++ [last]) ++ x = polls base (busy' ++ [last']) ++ y) :
    busy = busy' ∧ last = last' ∧ x = y := by
  induction busy generalizing busy' with
  | nil =>
    cases busy' with
    | nil =>
      obtain ⟨hhead, rfl⟩ := List.cons.inj h
      exact ⟨rfl, (Event.whole.inj hhead).2, rfl⟩
    | cons data busy' =>
      have hhead : last = data := (Event.whole.inj (List.cons.inj h).1).2
      exact absurd (hhead ▸ hlast) (hbusy' data List.mem_cons_self)
  | cons data busy ih =>
    cases busy' with
    | nil =>
      have hhead : data = last' := (Event.whole.inj (List.cons.inj h).1).2
      exact absurd (hhead ▸ hlast') (hbusy data List.mem_cons_self)
    | cons data' busy' =>
      obtain ⟨hhead, htail⟩ := List.cons.inj h
      obtain ⟨rfl, rfl, rfl⟩ := ih (List.forall_mem_cons.1 hbusy).2
        (List.forall_mem_cons.1 hbusy').2 htail
      exact ⟨congrArg (· :: busy) (Event.whole.inj hhead).2, rfl, rfl⟩

/-- While no answer says ready, the polling has not ended. -/
theorem polls_ne_of_busy {answers : List (List UInt8)} {x tail : List Event}
    (hanswers : ∀ data ∈ answers, ¬IsReady data) (htail : BreaksOff tail) :
    polls base (busy ++ [last]) ++ x ≠ polls base answers ++ tail := by
  intro h
  induction busy generalizing answers with
  | nil =>
    cases answers with
    | nil => exact htail.ne_whole h.symm
    | cons data answers =>
      have hhead : last = data := (Event.whole.inj (List.cons.inj h).1).2
      exact hanswers data List.mem_cons_self (hhead ▸ hlast)
  | cons data busy ih =>
    cases answers with
    | nil => exact htail.ne_whole h.symm
    | cons data' answers =>
      exact ih (List.forall_mem_cons.1 hbusy).2 (List.forall_mem_cons.1 hanswers).2
        (List.cons.inj h).2

theorem polls_ne_of_stop {counted : Nat} {x evs : List Event} {s : Stop}
    (hstop : PollsStop base counted evs s) : polls base (busy ++ [last]) ++ x ≠ evs := by
  cases hstop with
  | @busy answers hanswers =>
    rw [← List.append_nil (polls base answers)]
    exact polls_ne_of_busy hbusy hlast hanswers (.inl rfl)
  | @crash answers hanswers =>
    rw [← List.append_nil (polls base answers)]
    exact polls_ne_of_busy hbusy hlast hanswers (.inl rfl)
  | broken hanswers => exact polls_ne_of_busy hbusy hlast hanswers (.inr ⟨_, _, _, rfl⟩)

end Polls

/-! ## Reads -/

theorem wordReads_append_inj {address : UInt32} {n : Nat} {answers answers' : List (List UInt8)}
    {x y : List Event} (hlen : answers.length = answers'.length)
    (h : wordReads address n answers ++ x = wordReads address n answers' ++ y) :
    answers = answers' ∧ x = y := by
  induction answers generalizing n answers' with
  | nil =>
    cases answers' with
    | nil => exact ⟨rfl, h⟩
    | cons => cases hlen
  | cons data answers ih =>
    cases answers' with
    | nil => cases hlen
    | cons data' answers' =>
      obtain ⟨hhead, htail⟩ := List.cons.inj h
      obtain ⟨rfl, rfl⟩ := ih (Nat.succ.inj hlen) htail
      exact ⟨congrArg (· :: answers) (Event.whole.inj hhead).2, rfl⟩

/-- Fewer reads than the words of a comparison do not begin with all of them. -/
theorem wordReads_ne_of_lt {address : UInt32} {n : Nat} {answers answers' : List (List UInt8)}
    {x tail : List Event} (hlt : answers'.length < answers.length) (htail : BreaksOff tail) :
    wordReads address n answers ++ x ≠ wordReads address n answers' ++ tail := by
  intro h
  induction answers generalizing n answers' with
  | nil => exact Nat.not_lt_zero _ hlt
  | cons data answers ih =>
    cases answers' with
    | nil => exact htail.ne_whole h.symm
    | cons data' answers' => exact ih (Nat.lt_of_succ_lt_succ hlt) (List.cons.inj h).2

theorem wordReads_ne_of_stop {address : UInt32} {n : Nat} {answers : List (List UInt8)}
    {x evs : List Event} {s : Stop} (hstop : ReadsStop address answers.length n evs s) :
    wordReads address n answers ++ x ≠ evs := by
  obtain ⟨answers', -, hlt, ⟨-, rfl⟩ | ⟨-, sent, answer, rfl⟩⟩ := hstop
  · rw [← List.append_nil (wordReads address n answers')]
    exact wordReads_ne_of_lt hlt (.inl rfl)
  · exact wordReads_ne_of_lt hlt (.inr ⟨_, _, _, rfl⟩)

/-! ## Acts -/

/-- An act is done with one part of a trace only. -/
theorem Act.Done.append_inj {a : Act} {evs evs' x y : List Event} (h : a.Done base evs)
    (h' : a.Done base evs') (heq : evs ++ x = evs' ++ y) : evs = evs' ∧ x = y := by
  cases h with
  | report p =>
    cases h'
    exact ⟨rfl, (List.cons.inj heq).2⟩
  | command c arg hbusy hlast hclean =>
    cases h' with
    | command _ _ hbusy' hlast' hclean' =>
      obtain ⟨rfl, rfl, rfl⟩ := polls_append_inj hbusy hlast hbusy' hlast' (List.cons.inj heq).2
      exact ⟨rfl, rfl⟩
  | store address value =>
    cases h'
    exact ⟨rfl, (List.cons.inj heq).2⟩
  | compare hexists hlen hdata hmatch =>
    cases h' with
    | compare _ hlen' hdata' hmatch' =>
      obtain ⟨rfl, rfl⟩ := wordReads_append_inj (hlen.trans hlen'.symm) heq
      exact ⟨rfl, rfl⟩

/-- An act that is done did not stop the work, unless there was a crash before it. -/
theorem Act.Done.of_stopped {a : Act} {evs evs' x : List Event} {s : Stop} (h : a.Done base evs)
    (h' : a.Stopped base evs' s) (heq : evs ++ x = evs') : x = [] ∧ ∃ c, s = .crash c := by
  cases h' with
  | crash _ c => exact ⟨(List.append_eq_nil_iff.1 heq).2, c, rfl⟩
  | unsent c arg hs sent answer =>
    cases h
    exact nomatch (List.cons.inj heq).1
  | unready c arg hstop =>
    cases h with
    | command _ _ hbusy hlast =>
      exact absurd (List.cons.inj heq).2 (polls_ne_of_stop hbusy hlast hstop)
  | @failed c arg busy' last' e hbusy' hlast' herror =>
    cases h with
    | command _ _ hbusy hlast hclean =>
      have hpolls := (List.cons.inj heq).2
      rw [← List.append_nil (polls base (busy' ++ [last']))] at hpolls
      obtain ⟨rfl, rfl, rfl⟩ := polls_append_inj hbusy hlast hbusy' hlast' hpolls
      exact nomatch herror.symm.trans hclean
  | unstored address value hs sent answer =>
    cases h
    exact nomatch (List.cons.inj heq).1
  | unread expected hstop =>
    cases h with
    | compare _ hlen =>
      subst hlen
      exact absurd heq (wordReads_ne_of_stop hstop)
  | @differs window offset words expected answers' hexists' hlen' hdata' hne =>
    cases h with
    | compare _ hlen hdata hmatch =>
      rw [← List.append_nil (wordReads (window + offset) 0 answers')] at heq
      obtain ⟨rfl, rfl⟩ := wordReads_append_inj (hlen.trans hlen'.symm) heq
      exact absurd hmatch hne

/-- Acts that were done are taken off the front of a trace. -/
theorem Follows.cancel {acts rest : List Act} {evs evs' : List Event} {r : Option Stop}
    (h : Follows base acts evs none) (h' : Follows base (acts ++ rest) (evs ++ evs') r) :
    Follows base rest evs' r := by
  generalize hr : (none : Option Stop) = q at h
  induction h with
  | nil => exact h'
  | @done a acts evs evs₁ q ha hacts ih =>
    generalize htrace : evs ++ evs₁ ++ evs' = trace at h'
    rw [List.append_assoc] at htrace
    cases h' with
    | done ha' hacts' =>
      obtain ⟨rfl, rfl⟩ := ha.append_inj ha' htrace
      exact ih hacts' hr
    | stopped _ ha' =>
      -- `Done` and `Stopped` share a trace only where a crash follows the act at once
      obtain ⟨hnil, c, rfl⟩ := ha.of_stopped ha' htrace
      rw [(List.append_eq_nil_iff.1 hnil).2]
      exact .crash rest c
    | crash _ c =>
      rw [(List.append_eq_nil_iff.1 (List.append_eq_nil_iff.1 htrace).2).2]
      exact .crash rest c
  | stopped => cases hr
  | crash => cases hr

/-! ## Comparisons -/

/-- Once all words of a comparison were delivered, it is done if they agree, and ends the work
where it is if they do not. -/
theorem Follows.compare_cases {window offset : UInt32} {expected : List UInt8}
    {answers : List (List UInt8)} {rest : List Act} {evs : List Event} {r : Option Stop}
    (hpos : 0 < answers.length)
    (h : Follows base (.compare window offset answers.length expected :: rest)
      (wordReads (window + offset) 0 answers ++ evs) r) :
    (Agrees expected answers ∧ Follows base rest evs r) ∨
      (¬Agrees expected answers ∧ r = some (.error (.verification (window + offset)))) := by
  have hne : wordReads (window + offset) 0 answers ++ evs ≠ [] := by
    cases answers with
    | nil => exact absurd hpos (Nat.lt_irrefl 0)
    | cons => exact nofun
  generalize htrace : wordReads (window + offset) 0 answers ++ evs = trace at h
  cases h with
  | done ha hrest =>
    cases ha with
    | compare _ hlen _ hagrees =>
      obtain ⟨rfl, rfl⟩ := wordReads_append_inj hlen.symm htrace
      exact .inl ⟨hagrees, hrest⟩
  | crash => exact absurd htrace hne
  | stopped _ ha =>
    cases ha with
    | crash => exact absurd htrace hne
    | unread _ hstop => exact absurd htrace (wordReads_ne_of_stop hstop)
    | @differs _ _ _ _ answers' _ hlen _ hdiffers =>
      rw [← List.append_nil (wordReads (window + offset) 0 answers')] at htrace
      obtain ⟨rfl, rfl⟩ := wordReads_append_inj hlen.symm htrace
      exact .inr ⟨hdiffers, rfl⟩

section Verification

variable {address : UInt32}

theorem not_cut_verification : ¬(Stop.error (.verification address)).Cut :=
  nofun

theorem check_ne_verification (status : UInt32) :
    Status.check status ≠ .error (.verification address) := by
  unfold Status.check
  split
  · exact nofun
  · split
    · exact nofun
    · split <;> exact nofun

theorem not_pollsStop_verification {counted : Nat} {evs : List Event} :
    ¬PollsStop base counted evs (.error (.verification address)) := by
  intro h
  cases h with
  | broken _ hcut => exact not_cut_verification hcut

theorem not_readsStop_verification {start : UInt32} {words n : Nat} {evs : List Event} :
    ¬ReadsStop start words n evs (.error (.verification address)) := by
  rintro ⟨_, -, -, ⟨⟨_, hs⟩, -⟩ | ⟨hcut, -⟩⟩
  · cases hs
  · exact not_cut_verification hcut

/-- Only a comparison ends with a verification error. -/
theorem Act.Stopped.of_verification {a : Act} {evs : List Event}
    (h : a.Stopped base evs (.error (.verification address))) :
    ∃ window offset expected answers, a = .compare window offset answers.length expected ∧
      evs = wordReads (window + offset) 0 answers ∧ address = window + offset ∧
      window.toNat + offset.toNat < 0x100000000 ∧ (∀ data ∈ answers, data.length = 4) ∧
      ¬Agrees expected answers := by
  cases h with
  | unsent _ _ hcut => exact absurd hcut not_cut_verification
  | unready _ _ hstop => exact absurd hstop not_pollsStop_verification
  | failed _ _ _ _ herror => exact absurd herror (check_ne_verification _)
  | unstored _ _ hcut => exact absurd hcut not_cut_verification
  | unread _ hstop => exact absurd hstop not_readsStop_verification
  | differs hexists hlen hdata hne =>
    subst hlen
    exact ⟨_, _, _, _, rfl, rfl, rfl, hexists, hdata, hne⟩

/-- Where no act is a comparison, no verification error arises. -/
theorem Follows.ne_verification {acts : List Act} {evs : List Event} {r : Option Stop}
    (h : Follows base acts evs r) (hacts : ∀ w o n e, .compare w o n e ∉ acts) :
    r ≠ some (.error (.verification address)) := by
  induction h with
  | nil => exact nofun
  | done _ _ ih => exact ih fun w o n e he => hacts w o n e (List.mem_cons_of_mem _ he)
  | stopped acts ha =>
    rintro ⟨⟩
    obtain ⟨w, o, e, answers, rfl, -⟩ := ha.of_verification
    exact hacts _ _ _ _ List.mem_cons_self
  | crash => exact nofun

end Verification

end BadgeLink.Flash
