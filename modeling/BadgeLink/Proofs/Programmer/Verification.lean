import BadgeLink.Proofs.Bench.Conversation
import BadgeLink.Proofs.Flash.Determined
import BadgeLink.Proofs.Programmer.Script
import Mathlib.Data.List.Basic

/-!
# Reading back an image

What the outcome of an installation with verification says about what the chip delivered. The
answers to the reads are arbitrary, in particular they need not be what was written.

* `Verified`: every page was delivered and agrees with the image.
* `DiffersAt`: after all writes succeeded, a page was delivered that differs from the image. This is
  said of the signals, whichever trace they are read as.
* `verification_outcome`: an installation that succeeds is verified; one ends with a verification
  error exactly if some page differs, and then at the first one that does.
-/

namespace BadgeLink.Programmer

open Dialogue Monitor Flash

variable (p : Programmer) (image : List UInt8)

/-- All words of a page were delivered. -/
structure Delivered (answers : List (List UInt8)) : Prop where
  length_eq : answers.length = p.pageSize / 4
  length_word : ∀ data ∈ answers, data.length = 4

/-- The trace of reading back a page. -/
def readBack (page : Nat) (answers : List (List UInt8)) : List Event :=
  .told ⟨.verifying, page, p.total image⟩ :: wordReads (p.pageAddress page) 0 answers

/-- The trace of reading back the first pages of the flash. -/
def readBacks (count : Nat) (answers : Nat → List (List UInt8)) : List Event :=
  (List.range count).flatMap fun page => p.readBack image page (answers page)

/-- Everything was written, every page was delivered whole and agrees with the image, and then the
boot source was selected. -/
def Verified (evs : List Event) : Prop :=
  ∃ before boot answers, evs = before ++ p.readBacks image (p.total image) answers ++ boot ∧
    Follows p.controller.base (p.written image) before none ∧
    p.booting.Done p.controller.base boot ∧
    ∀ page < p.total image,
      p.Delivered (answers page) ∧ Agrees (pageOf p.pageSize image page) (answers page)

/-- The signals begin with those of writing everything and then of reading back the pages up to this
one, which were delivered whole, and this one differs from the image. -/
def DiffersAt (ss : List Signal) (page : Nat) : Prop :=
  ∃ part before answers, part <+: ss ∧
    Carries part (before ++ p.readBacks image (page + 1) answers) ∧
    Follows p.controller.base (p.written image) before none ∧
    (∀ k ≤ page, p.Delivered (answers k)) ∧
    page < p.total image ∧ ¬Agrees (pageOf p.pageSize image page) (answers page)

/-- Everything was written, and then the pages up to this one were read back, which is the first to
differ from the image, and nothing was said after that. -/
def StopsAt (evs : List Event) (page : Nat) : Prop :=
  ∃ before answers, evs = before ++ p.readBacks image (page + 1) answers ∧
    Follows p.controller.base (p.written image) before none ∧
    (∀ k ≤ page, p.Delivered (answers k)) ∧
    (∀ k < page, Agrees (pageOf p.pageSize image k) (answers k)) ∧
    page < p.total image ∧ ¬Agrees (pageOf p.pageSize image page) (answers page)

variable {p image} {base : UInt32}

/-! ## From the outcome to the pages -/

theorem readBacks_succ (count : Nat) (answers : Nat → List (List UInt8)) :
    p.readBacks image (count + 1) answers =
      p.readBacks image count answers ++ p.readBack image count (answers count) := by
  rw [readBacks, List.range_succ, List.flatMap_append, List.flatMap_singleton]
  rfl

theorem isWhole_readBacks (count : Nat) (answers : Nat → List (List UInt8)) :
    ∀ e ∈ p.readBacks image count answers, e.IsWhole := by
  intro e he
  obtain ⟨page, -, he⟩ := List.mem_flatMap.1 he
  rcases List.mem_cons.1 he with rfl | he
  · trivial
  · exact isWhole_wordReads _ _ _ e he

/-- Reading back pages ends with a read that was answered. -/
theorem readBacks_concat (image : List UInt8) {page : Nat} {answers : Nat → List (List UInt8)}
    (hwords : 0 < p.pageSize / 4) (hanswers : p.Delivered (answers page)) :
    ∃ front c answer, p.readBacks image (page + 1) answers = front ++ [.whole c answer] ∧
      answer ≠ [] := by
  rw [readBacks_succ, readBack]
  rcases List.eq_nil_or_concat (answers page) with hnil | ⟨earlier, last, hlast⟩
  · have hlength := hanswers.length_eq
    rw [hnil] at hlength
    exact absurd hlength (Nat.ne_of_lt hwords)
  · have hlength := hanswers.length_word last (by simp [hlast])
    rw [hlast, List.concat_eq_append, wordReads_concat, ← List.cons_append, ← List.append_assoc]
    refine ⟨_, _, last, rfl, ?_⟩
    rintro rfl
    cases hlength

/-- Answers with those of one page replaced read back the pages before it as they did. -/
theorem readBacks_update (count : Nat) (answers : Nat → List (List UInt8))
    (last : List (List UInt8)) :
    p.readBacks image count (fun k => if k = count then last else answers k) =
      p.readBacks image count answers := by
  refine List.flatMap_congr fun page hpage => ?_
  dsimp only
  rw [if_neg (Nat.ne_of_lt (List.mem_range.1 hpage))]

/-- A comparison that was done read back a page that agrees. -/
theorem follows_comparing {page : Nat} {evs : List Event}
    (h : Follows base (p.comparing image page) evs none) :
    ∃ answers, evs = p.readBack image page answers ∧ p.Delivered answers ∧
      Agrees (pageOf p.pageSize image page) answers := by
  cases h with
  | done hreport h =>
    cases hreport
    have hcompare := follows_single.1 h
    cases hcompare with
    | @compare _ _ _ _ answers _ hlen hdata hagrees =>
      exact ⟨answers, rfl, ⟨hlen, hdata⟩, hagrees⟩

/-- A comparison that ended with a verification error read back a page that differs. -/
theorem follows_comparing_verification {page : Nat} {evs : List Event} {address : UInt32}
    (h : Follows base (p.comparing image page) evs (some (.error (.verification address)))) :
    ∃ answers, evs = p.readBack image page answers ∧ p.Delivered answers ∧
      ¬Agrees (pageOf p.pageSize image page) answers ∧ address = p.pageAddress page ∧
      p.flash.base.toNat + (p.pageOffset page).toNat < 0x100000000 := by
  cases h with
  | stopped _ hstop =>
    obtain ⟨_, _, _, _, hact, -⟩ := hstop.of_verification
    cases hact
  | done hreport h =>
    cases hreport
    cases h with
    | done _ h => cases h
    | stopped _ hstop =>
      obtain ⟨_, _, _, answers, hact, rfl, rfl, hexists, hdata, hdiffers⟩ := hstop.of_verification
      injection hact with hwindow hoffset hwords hexpected
      subst hwindow hoffset hexpected
      exact ⟨answers, rfl, ⟨hwords.symm, hdata⟩, hdiffers, rfl, hexists⟩

/-- Comparisons that were done read back pages that agree. -/
theorem follows_compared {count : Nat} {evs : List Event}
    (h : Follows base ((List.range count).flatMap (p.comparing image)) evs none) :
    ∃ answers, evs = p.readBacks image count answers ∧ ∀ k < count, p.Delivered (answers k) ∧
      Agrees (pageOf p.pageSize image k) (answers k) := by
  induction count generalizing evs with
  | zero =>
    cases h
    exact ⟨fun _ => [], rfl, fun k hk => absurd hk (Nat.not_lt_zero k)⟩
  | succ count ih =>
    rw [List.range_succ, List.flatMap_append, List.flatMap_singleton] at h
    rcases follows_append_iff.1 h with ⟨evs₁, evs₂, rfl, h₁, h₂⟩ | ⟨s, hs, -⟩
    · obtain ⟨answers, rfl, hpages⟩ := ih h₁
      obtain ⟨last, rfl, hlast⟩ := follows_comparing h₂
      refine ⟨fun k => if k = count then last else answers k, ?_, fun k hk => ?_⟩
      · rw [readBacks_succ, readBacks_update, if_pos rfl]
      · dsimp only
        split
        · next heq =>
          rw [heq]
          exact hlast
        · exact hpages k (by omega)
    · cases hs

/-- Comparisons that ended with a verification error read back pages up to the first that
differs, whose address the error names. -/
theorem follows_compared_verification {count : Nat} {evs : List Event} {address : UInt32}
    (h : Follows base ((List.range count).flatMap (p.comparing image)) evs
      (some (.error (.verification address)))) :
    ∃ page answers, evs = p.readBacks image (page + 1) answers ∧
      (∀ k ≤ page, p.Delivered (answers k)) ∧
      (∀ k < page, Agrees (pageOf p.pageSize image k) (answers k)) ∧ page < count ∧
      ¬Agrees (pageOf p.pageSize image page) (answers page) ∧ address = p.pageAddress page ∧
      p.flash.base.toNat + (p.pageOffset page).toNat < 0x100000000 := by
  induction count generalizing evs with
  | zero => cases h
  | succ count ih =>
    rw [List.range_succ, List.flatMap_append, List.flatMap_singleton] at h
    rcases follows_append_iff.1 h with ⟨evs₁, evs₂, rfl, h₁, h₂⟩ | ⟨s, hs, h⟩
    · obtain ⟨answers, rfl, hpages⟩ := follows_compared h₁
      obtain ⟨last, rfl, hdelivered, hdiffers, haddress⟩ := follows_comparing_verification h₂
      refine ⟨count, fun k => if k = count then last else answers k, ?_, ?_, ?_, Nat.lt_succ_self _,
        ?_, haddress⟩
      · rw [readBacks_succ, readBacks_update, if_pos rfl]
      · intro k hk
        dsimp only
        split
        · exact hdelivered
        · exact (hpages k (by omega)).1
      · intro k hk
        dsimp only
        rw [if_neg (Nat.ne_of_lt hk)]
        exact (hpages k hk).2
      · dsimp only
        rw [if_pos rfl]
        exact hdiffers
    · obtain rfl := Option.some.inj hs
      obtain ⟨page, answers, hevs, hdelivered, hagree, hpage, hrest⟩ := ih h
      exact ⟨page, answers, hevs, hdelivered, hagree, Nat.lt_succ_of_lt hpage, hrest⟩

/-! ## From the pages to the outcome -/

/-- Where a page was delivered, the comparison went on if it agrees, and ended the work if not. -/
theorem follows_readBack {page : Nat} {answers : List (List UInt8)} {rest : List Act}
    {evs : List Event} {r : Option Stop} (hwords : 0 < p.pageSize / 4) (hanswers : p.Delivered answers)
    (h : Follows base (p.comparing image page ++ rest) (p.readBack image page answers ++ evs) r) :
    (Agrees (pageOf p.pageSize image page) answers ∧ Follows base rest evs r) ∨
      (¬Agrees (pageOf p.pageSize image page) answers ∧
        ∃ address, r = some (.error (.verification address))) := by
  have hreport : Follows base [.report ⟨.verifying, page, p.total image⟩] _ none :=
    follows_single.2 (.report _)
  have hcompare : Follows base (.compare p.flash.base (p.pageOffset page) (p.pageSize / 4)
      (pageOf p.pageSize image page) :: rest) (wordReads (p.pageAddress page) 0 answers ++ evs) r :=
    hreport.cancel h
  rw [← hanswers.length_eq] at hcompare hwords
  rcases Follows.compare_cases hwords hcompare with hagrees | ⟨hdiffers, hr⟩
  · exact .inl hagrees
  · exact .inr ⟨hdiffers, _, hr⟩

/-- If comparisons were begun, and pages were delivered of which one differs, then the work ended
with a verification error. -/
theorem verification_of_differs {answers : Nat → List (List UInt8)} {rest : List Act}
    {evs : List Event} {r : Option Stop} (hwords : 0 < p.pageSize / 4) {n count start : Nat}
    (hn : n < count)
    (h : Follows base
      ((List.range count).flatMap (fun i => p.comparing image (start + i)) ++ rest)
      ((List.range (n + 1)).flatMap (fun i => p.readBack image (start + i) (answers (start + i))) ++
        evs) r)
    (hdelivered : ∀ i ≤ n, p.Delivered (answers (start + i)))
    (hdiffers : ¬Agrees (pageOf p.pageSize image (start + n)) (answers (start + n))) :
    ∃ address, r = some (.error (.verification address)) := by
  induction n generalizing count start with
  | zero =>
    obtain ⟨count, rfl⟩ := Nat.exists_eq_succ_of_ne_zero (Nat.ne_of_gt hn)
    rw [flatMap_range_succ, flatMap_range_succ, List.append_assoc, List.append_assoc] at h
    rcases follows_readBack hwords (hdelivered 0 (Nat.le_refl 0)) h with ⟨hagrees, -⟩ | ⟨-, hr⟩
    · exact absurd hagrees hdiffers
    · exact hr
  | succ n ih =>
    obtain ⟨count, rfl⟩ := Nat.exists_eq_succ_of_ne_zero (Nat.ne_zero_of_lt hn)
    rw [flatMap_range_succ, flatMap_range_succ, List.append_assoc, List.append_assoc] at h
    rcases follows_readBack hwords (hdelivered 0 (Nat.zero_le _)) h with ⟨-, h⟩ | ⟨-, hr⟩
    · have hnext : ∀ i, start + 1 + i = start + (i + 1) := by omega
      refine @ih count (start + 1) (Nat.lt_of_succ_lt_succ hn) ?_ ?_ ?_
      · simp only [hnext]
        exact h
      · intro i hi
        rw [hnext]
        exact hdelivered (i + 1) (Nat.succ_le_succ hi)
      · rw [hnext]
        exact hdiffers
    · exact hr

/-! ## Installations with verification -/

theorem compare_notMem_written (w o : UInt32) (n : Nat) (e : List UInt8) :
    .compare w o n e ∉ p.written image := by
  intro h
  rcases List.mem_append.1 h with h | h
  · obtain ⟨i, -, hact⟩ := List.mem_map.1 h
    cases hact
  · obtain ⟨page, -, h⟩ := List.mem_flatMap.1 h
    simp [writing] at h

section Outcomes

variable {evs : List Event} {r : Option Stop}
  (h : Follows p.controller.base (p.written image ++ (p.compared image ++ [p.booting])) evs r)

include h

theorem verified_of_follows (hr : r = none) :
    Verified p image evs := by
  subst hr
  rcases follows_append_iff.1 h with ⟨before, rest, rfl, hwritten, h⟩ | ⟨s, hs, -⟩
  · rcases follows_append_iff.1 h with ⟨reads, boot, rfl, hcompared, hboot⟩ | ⟨s, hs, -⟩
    · obtain ⟨answers, rfl, hpages⟩ := follows_compared hcompared
      exact ⟨before, boot, answers, (List.append_assoc ..).symm, hwritten, follows_single.1 hboot,
        hpages⟩
    · cases hs
  · cases hs

theorem stopsAt_of_follows {address : UInt32}
    (hr : r = some (.error (.verification address))) :
    ∃ page, StopsAt p image evs page ∧ address = p.pageAddress page ∧
      p.flash.base.toNat + (p.pageOffset page).toNat < 0x100000000 := by
  subst hr
  rcases follows_append_iff.1 h with ⟨before, rest, rfl, hwritten, h⟩ | ⟨s, hs, h⟩
  · rcases follows_append_iff.1 h with ⟨reads, boot, rfl, hcompared, hboot⟩ | ⟨s, hs, h⟩
    · exact absurd rfl (hboot.ne_verification fun w o n e => by simp [booting])
    · obtain rfl := Option.some.inj hs
      obtain ⟨page, answers, rfl, hdelivered, hagree, hpage, hdiffers, haddress⟩ :=
        follows_compared_verification h
      exact ⟨page, ⟨before, answers, rfl, hwritten, hdelivered, hagree, hpage, hdiffers⟩, haddress⟩
  · obtain rfl := Option.some.inj hs
    exact absurd rfl (h.ne_verification compare_notMem_written)

theorem verification_of_readBacks (hwords : 0 < p.pageSize / 4) {before : List Event}
    {answers : Nat → List (List UInt8)} {page : Nat}
    (hreads : before ++ p.readBacks image (page + 1) answers <+: evs)
    (hwritten : Follows p.controller.base (p.written image) before none)
    (hdelivered : ∀ k ≤ page, p.Delivered (answers k)) (hpage : page < p.total image)
    (hdiffers : ¬Agrees (pageOf p.pageSize image page) (answers page)) :
    ∃ address, r = some (.error (.verification address)) := by
  obtain ⟨tail, rfl⟩ := hreads
  rw [List.append_assoc] at h
  have hcompared := hwritten.cancel h
  have hzero : ∀ k, 0 + k = k := Nat.zero_add
  have hfirst : Follows p.controller.base
      ((List.range (p.total image)).flatMap (fun i => p.comparing image (0 + i)) ++ [p.booting])
      ((List.range (page + 1)).flatMap (fun i => p.readBack image (0 + i) (answers (0 + i))) ++ tail)
      r := by
    simp only [hzero]
    exact hcompared
  refine verification_of_differs hwords hpage hfirst (fun i hi => ?_) ?_
  · rw [hzero]
    exact hdelivered i hi
  · rw [hzero]
    exact hdiffers

theorem verification_of_differsAt {ss : List Signal} (hevs : Carries ss evs)
    (hwords : 0 < p.pageSize / 4) {page : Nat} (hdiffers : DiffersAt p image ss page) :
    ∃ address, r = some (.error (.verification address)) := by
  obtain ⟨part, before, answers, hbegins, hpart, hwritten, hdelivered, hpage, hdiffers⟩ := hdiffers
  have hreads : before ++ p.readBacks image (page + 1) answers <+: evs := by
    -- the last event of the pages was answered, so the signals show where they end
    obtain ⟨front, c, answer, hconcat, hanswer⟩ :=
      readBacks_concat image hwords (hdelivered page (Nat.le_refl page))
    have hwhole : ∀ e ∈ before ++ front, e.IsWhole := by
      refine List.forall_mem_append.2 ⟨hwritten.isWhole, fun e he => ?_⟩
      exact isWhole_readBacks (page + 1) answers e (hconcat ▸ List.mem_append_left _ he)
    rw [hconcat, ← List.append_assoc] at hpart ⊢
    exact hevs.begins h.orderly hpart hwhole hanswer hbegins
  exact verification_of_readBacks h hwords hreads hwritten hdelivered hpage hdiffers

end Outcomes

theorem not_differsAt_nil (page : Nat) : ¬DiffersAt p image [] page := by
  rintro ⟨part, before, answers, hbegins, hpart, -⟩
  obtain rfl := List.prefix_nil.1 hbegins
  have hnil := hpart.signals_eq
  rw [readBacks_succ, List.flatMap_append, List.flatMap_append] at hnil
  cases (List.append_eq_nil_iff.1 (List.append_eq_nil_iff.1 hnil.symm).2).2

theorem StopsAt.differsAt {ss : List Signal} {evs : List Event} {page : Nat}
    (hevs : Carries ss evs) (h : StopsAt p image evs page) : DiffersAt p image ss page := by
  obtain ⟨before, answers, rfl, hwritten, hdelivered, -, hdiffers⟩ := h
  exact ⟨ss, before, answers, List.prefix_refl _, hevs, hwritten, hdelivered, hdiffers⟩

/-- The address of a page in the window of the flash, if there is one. -/
theorem toNat_pageAddress (hflash : p.flash.Plausible) (hfits : image.length ≤ p.flash.size.toNat)
    {page : Nat} (hpage : page < p.total image)
    (hexists : p.flash.base.toNat + (p.pageOffset page).toNat < 0x100000000) :
    (p.pageAddress page).toNat = p.flash.base.toNat + page * p.pageSize := by
  have hoffset := toNat_pageOffset (p := p) hfits (page_mul_lt hflash.pageSize_pos hpage)
  rw [pageAddress, UInt32.toNat_add, Nat.mod_eq_of_lt hexists, hoffset]

/-- An installation with verification ends with a verification error exactly if everything was
written and then some page was delivered that differs from the image. The error names the first such
page, the pages before it agree, and nothing was said after it was read. An installation that
succeeds read back every page as it is in the image. -/
theorem verification_outcome {monitor : Monitor} {base flashBase : UInt32}
    {pollLimit : Option UInt32} {opening : List (Exchange Link.interface)} {c : Controller}
    (hopen : (Controller.connect monitor base flashBase pollLimit).Plays opening (.ok c))
    (target : Target) (image : List UInt8) {es : List (Exchange Link.interface)}
    {o : Outcome LinkError Unit} (h : ((⟨target, c⟩ : Programmer).install image true).Plays es o) :
    ((∃ address, o = .error (.verification address)) ↔
      ∃ page, DiffersAt ⟨target, c⟩ image (Link.signals es) page) ∧
    ∃ evs, Carries (Link.signals es) evs ∧
      (o = .ok () → Verified ⟨target, c⟩ image evs) ∧
      ∀ address, o = .error (.verification address) → ∃ page, StopsAt ⟨target, c⟩ image evs page ∧
        address.toNat = flashBase.toNat + page * c.flash.pageSize.toNat := by
  obtain ⟨rfl, rfl, hflash⟩ := Controller.plausible_of_connect hopen
  by_cases hlarge : c.flash.size.toNat < image.length
  · obtain ⟨hsignals, rfl⟩ := install_tooLarge ⟨target, c⟩ hlarge h
    rw [hsignals]
    refine ⟨⟨?_, ?_⟩, [], .nil, nofun, nofun⟩
    · rintro ⟨address, ho⟩
      cases ho
    · rintro ⟨page, hdiffers⟩
      exact absurd hdiffers (not_differsAt_nil page)
  · have hfits : image.length ≤ c.flash.size.toNat := Nat.not_lt.1 hlarge
    obtain ⟨evs, hevs, hfollows⟩ :=
      (performs_install (p := ⟨target, c⟩) hflash hfits true).follows h
    rw [script, flash, if_neg hlarge, if_pos rfl, List.append_assoc] at hfollows
    refine ⟨⟨?_, ?_⟩, evs, hevs, ?_, ?_⟩
    · rintro ⟨address, rfl⟩
      obtain ⟨page, hstops, -⟩ := stopsAt_of_follows hfollows rfl
      exact ⟨page, hstops.differsAt hevs⟩
    · rintro ⟨page, hdiffers⟩
      have hwords : 0 < c.flash.pageSize.toNat / 4 := by
        have hpos := hflash.pageSize_pos
        have hmod := hflash.pageSize_mod
        omega
      obtain ⟨address, hstop⟩ := verification_of_differsAt hfollows hevs hwords hdiffers
      exact ⟨address, Outcome.stop?_eq_error.1 hstop⟩
    · rintro rfl
      exact verified_of_follows hfollows rfl
    · rintro address rfl
      obtain ⟨page, hstops, rfl, hexists⟩ := stopsAt_of_follows hfollows rfl
      refine ⟨page, hstops, ?_⟩
      obtain ⟨_, _, _, _, _, _, hpage, _⟩ := hstops
      exact toNat_pageAddress (p := ⟨target, c⟩) hflash hfits hpage hexists

/-- An installation of three bytes on a simulated chip is verified. -/
theorem verified_three_bytes :
    ∃ (c : Controller) (opening es : List (Exchange Link.interface)),
      (Controller.connect ⟨{}⟩ Chip.controllerBase Chip.flashBase none).Plays opening (.ok c) ∧
      ((⟨.badge, c⟩ : Programmer).install [0xde, 0xad, 0xbe] true).Plays es (.ok ()) ∧
      ∃ evs, Carries (Link.signals es) evs ∧ Verified ⟨.badge, c⟩ [0xde, 0xad, 0xbe] evs := by
  obtain ⟨c, opening, es, hopen, hinstall⟩ := Chip.exists_installation ⟨{}⟩
    (Channel.patience_pos {}) [0xde, 0xad, 0xbe] (by decide) true
  obtain ⟨-, evs, hevs, hverified, -⟩ := verification_outcome hopen .badge _ hinstall
  exact ⟨c, opening, es, hopen, hinstall, evs, hevs, hverified rfl⟩

end BadgeLink.Programmer
