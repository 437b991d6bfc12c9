import BadgeLink.Proofs.Flash.Act
import BadgeLink.Proofs.Lists

/-!
# Acts of a flash controller's client

Which acts each operation of a client works through. An operation computes its addresses and
arguments in machine words; where they do not fit it crashes before it sends anything of the act,
so in the acts the arithmetic may wrap.
-/

namespace BadgeLink.Flash.Controller

open Dialogue Monitor

variable (c : Controller)

/-! ## Registers and commands -/

theorem traces_readRegister (r : Register) :
    Traces (c.readRegister r)
      (fun evs w => ∃ data, data.length = 4 ∧
        evs = [.whole (.readWord (registerAt c.base r)) data] ∧ w = Word.ofLittleEndian data)
      fun evs s => Breaks (.readWord (registerAt c.base r)) evs s ∨ evs = [] ∧ ∃ x, s = .crash x := by
  refine traces_lift_bind (fun address haddress => ?_) fun x _ => .inr ⟨rfl, x, rfl⟩
  rw [(Word.add_eq_ok haddress).1]
  exact (c.monitor.traces_readWord _).mono (fun _ _ h => h) fun _ _ h => .inl h

theorem pollsStop_first {base : UInt32} {counted : Nat} {evs : List Event} {s : Stop}
    (h : Breaks (.readWord (registerAt base .status)) evs s ∨ evs = [] ∧ ∃ x, s = .crash x) :
    PollsStop base counted evs s := by
  have hnil : ∀ data ∈ ([] : List (List UInt8)), ¬IsReady data := List.forall_mem_nil _
  rcases h with ⟨hs, sent, answer, rfl⟩ | ⟨rfl, x, rfl⟩
  · exact .broken hnil hs sent answer
  · exact .crash hnil x

theorem pollsStop_cons {base : UInt32} {counted : Nat} {data : List UInt8}
    (hdata : ¬IsReady data) {evs : List Event} {s : Stop}
    (h : PollsStop base (counted + 1) evs s) :
    PollsStop base counted (.whole (.readWord (registerAt base .status)) data :: evs) s := by
  cases h with
  | @busy answers hbusy =>
    have h : PollsStop base counted _ _ := .busy (List.forall_mem_cons.2 ⟨hdata, hbusy⟩)
    rw [List.length_cons, Nat.add_comm answers.length 1, ← Nat.add_assoc] at h
    exact h
  | crash hbusy x => exact .crash (List.forall_mem_cons.2 ⟨hdata, hbusy⟩) x
  | broken hbusy hs sent answer =>
    exact .broken (List.forall_mem_cons.2 ⟨hdata, hbusy⟩) hs sent answer

/-- Polling ends with the first answer that says ready, or does not end well. -/
theorem traces_pollReady (headroom counted : Nat) :
    Traces (c.pollReady headroom counted)
      (fun evs status => ∃ (busy : List (List UInt8)) (last : List UInt8),
        (∀ data ∈ busy, ¬IsReady data) ∧ IsReady last ∧ evs = polls c.base (busy ++ [last]) ∧
        status = Word.ofLittleEndian last)
      (PollsStop c.base counted) := by
  induction headroom generalizing counted with
  | zero =>
    unfold pollReady
    refine (c.traces_readRegister .status).bind (fun _ _ => pollsStop_first) ?_
    intro evs status hpost
    obtain ⟨data, -, rfl, rfl⟩ := hpost
    split
    · next hready => exact traces_ok ⟨[], data, List.forall_mem_nil _, hready, rfl, rfl⟩
    · next hbusy => exact traces_crash (.crash (List.forall_mem_singleton.2 hbusy) _)
  | succ headroom ih =>
    unfold pollReady
    refine (c.traces_readRegister .status).bind (fun _ _ => pollsStop_first) ?_
    intro evs status hpost
    obtain ⟨data, -, rfl, rfl⟩ := hpost
    split
    · next hready => exact traces_ok ⟨[], data, List.forall_mem_nil _, hready, rfl, rfl⟩
    · next hbusy =>
      dsimp only
      split
      · exact traces_note_bind (traces_error (.busy (List.forall_mem_singleton.2 hbusy)))
      · refine (ih (counted + 1)).mono ?_ fun _ _ => pollsStop_cons hbusy
        intro evs status hpost
        obtain ⟨busy, last, hall, hlast, rfl, rfl⟩ := hpost
        exact ⟨data :: busy, last, List.forall_mem_cons.2 ⟨hbusy, hall⟩, hlast, rfl, rfl⟩

/-- A command is complete, or stops the work. -/
theorem performs_issue (command : Command) (arg : UInt32) :
    Performs c.base (c.issue command arg) [.command command arg] := by
  refine traces_note_bind (traces_lift_bind (fun address haddress => ?_) fun x _ => .crash _ x)
  rw [(Word.add_eq_ok haddress).1]
  refine (c.monitor.traces_writeWord _ _).bind ?_ ?_
  · intro evs s hpost
    obtain ⟨hs, sent, answer, rfl⟩ := hpost
    exact .stopped [] (.unsent command arg hs sent answer)
  · intro evs _ hpost
    subst hpost
    refine (c.traces_pollReady 0xffffffff 0).bind ?_ ?_
    · exact fun evs s h => .stopped [] (.unready command arg h)
    · intro evs status hpost
      obtain ⟨busy, last, hbusy, hlast, rfl, rfl⟩ := hpost
      cases hcheck : Status.check (Word.ofLittleEndian last) with
      | ok _ =>
        refine traces_ok ?_
        rw [List.append_nil]
        exact follows_single.2 (.command command arg hbusy hlast hcheck)
      | error e =>
        refine traces_error ?_
        rw [List.append_nil]
        exact .stopped [] (.failed command arg hbusy hlast hcheck)

theorem performs_setLock (region : UInt32) (locked : Bool) :
    Performs c.base (c.setLock region locked)
      [.command (if locked then .setLock else .clearLock) region] :=
  performs_discard (c.performs_issue _ _)

theorem performs_setBit (bit : UInt32) :
    Performs c.base (c.setBit bit) [.command .setBit bit] :=
  performs_discard (c.performs_issue _ _)

/-! ## Regions, sectors and pages -/

/-- The acts that unlock `count` regions, from a region on. -/
def unlocking (count region : Nat) : List Act :=
  (List.range count).map fun i => .command .clearLock (UInt32.ofNat (region + i))

theorem performs_unlockFrom (left region : Nat) :
    Performs c.base (c.unlockFrom left region) (unlocking left region) := by
  induction left generalizing region with
  | zero => exact performs_ok
  | succ left ih =>
    have h := (c.performs_setLock (UInt32.ofNat region) false).bind fun _ => ih (region + 1)
    have hacts : unlocking (left + 1) region =
        [.command .clearLock (UInt32.ofNat region)] ++ unlocking left (region + 1) := by
      rw [unlocking, map_range_succ]
      refine congrArg (_ :: ·) (List.map_congr_left fun i _ => ?_)
      rw [Nat.add_comm i 1, ← Nat.add_assoc]
    rw [hacts]
    exact h

theorem performs_unlockAll :
    Performs c.base c.unlockAll (unlocking c.flash.locks.length 0) :=
  performs_note_bind (c.performs_unlockFrom _ _)

/-- The first page of the sector that contains an offset. -/
def firstPage (d : Descriptor) (offset : UInt32) : Nat :=
  offset.toNat / (d.pageSize.toNat * d.pagesPerSector.toNat) * pagesPerSector.toNat

theorem toNat_sectorSize {d : Descriptor}
    (hfits : d.pageSize.toNat * d.pagesPerSector.toNat < 0x100000000) :
    (d.pageSize * d.pagesPerSector).toNat = d.pageSize.toNat * d.pagesPerSector.toNat := by
  rw [UInt32.toNat_mul, Nat.mod_eq_of_lt hfits]

theorem firstPage_eq {d : Descriptor}
    (hfits : d.pageSize.toNat * d.pagesPerSector.toNat < 0x100000000) (offset : UInt32) :
    offset / (d.pageSize * d.pagesPerSector) * pagesPerSector =
      UInt32.ofNat (firstPage d offset) := by
  apply UInt32.toNat_inj.1
  rw [UInt32.toNat_mul, UInt32.toNat_div, toNat_sectorSize hfits, UInt32.toNat_ofNat']
  rfl

theorem performs_eraseSector (offset : UInt32) :
    Performs c.base (c.eraseSector offset)
      [.command .erasePages
        (UInt32.ofNat (firstPage c.flash offset) ||| Command.sixteenPages)] := by
  refine performs_lift_bind fun sectorSize hsize => performs_lift_bind fun sector hsector =>
    performs_lift_bind fun first hfirst => ?_
  obtain ⟨rfl, -⟩ := Word.mul_eq_ok hfirst
  obtain ⟨rfl, -⟩ := Word.div_eq_ok hsector
  obtain ⟨rfl, hfits⟩ := Word.mul_eq_ok hsize
  rw [firstPage_eq hfits]
  exact performs_discard (c.performs_issue _ _)

/-- The acts that store the words of a byte string, from the `n`-th place after an address on. -/
def storing (window : UInt32) (count n : Nat) (data : List UInt8) : List Act :=
  (List.range count).map fun j => .store (window + UInt32.ofNat (n + j) * 4)
    (Word.ofLittleEndian ((data.drop (4 * j)).take 4))

theorem performs_fillLatch (window : UInt32) (left n : Nat) (data : List UInt8) :
    Performs c.base (c.fillLatch window left n data) (storing window left n data) := by
  induction left generalizing n data with
  | zero => exact performs_ok
  | succ left ih =>
    have hacts : storing window (left + 1) n data =
        [.store (window + UInt32.ofNat n * 4) (Word.ofLittleEndian (data.take 4))] ++
          storing window left (n + 1) (data.drop 4) := by
      rw [storing, map_range_succ]
      refine congrArg (_ :: ·) (List.map_congr_left fun j _ => ?_)
      rw [List.drop_drop, Nat.mul_add, Nat.add_comm (4 * j), Nat.add_comm j 1, ← Nat.add_assoc]
    rw [hacts]
    refine performs_lift_bind fun place hplace => ?_
    rw [wordAddress_eq_ok hplace]
    refine Performs.bind ?_ fun _ => ih (n + 1) (data.drop 4)
    refine (c.monitor.traces_writeWord _ _).mono ?_ ?_
    · intro evs _ hpost
      subst hpost
      exact .done (.store _ _) .nil
    · intro evs s hpost
      obtain ⟨hs, sent, answer, rfl⟩ := hpost
      exact .stopped [] (.unstored _ _ hs sent answer)

/-- The acts that write a page. -/
def writingPage (d : Descriptor) (offset : UInt32) (data : List UInt8) : List Act :=
  storing (d.base + offset) (d.pageSize.toNat / 4) 0 data ++
    [.command .writePage (offset / d.pageSize)]

theorem performs_writePage (offset : UInt32) {data : List UInt8}
    (hdata : data.length ≤ c.flash.pageSize.toNat) :
    Performs c.base (c.writePage offset data) (writingPage c.flash offset data) := by
  unfold writePage
  rw [if_neg (Nat.not_lt.2 hdata)]
  refine performs_lift_bind fun window hwindow => ?_
  rw [(Word.add_eq_ok hwindow).1]
  refine (c.performs_fillLatch _ _ 0 data).bind fun _ => performs_lift_bind fun number hnumber => ?_
  rw [(Word.div_eq_ok hnumber).1]
  exact performs_discard (c.performs_issue _ _)

/-- A page is the answers to the reads of its words; it is read only if its address exists. -/
theorem traces_readPage (offset : UInt32) (hpage : c.flash.pageSize.toNat % 4 = 0) :
    Traces (c.readPage offset)
      (fun evs page => ∃ answers : List (List UInt8),
        c.flash.base.toNat + offset.toNat < 0x100000000 ∧
        answers.length = c.flash.pageSize.toNat / 4 ∧ (∀ data ∈ answers, data.length = 4) ∧
        evs = wordReads (c.flash.base + offset) 0 answers ∧ page = answers.flatten)
      fun evs s => ReadsStop (c.flash.base + offset) (c.flash.pageSize.toNat / 4) 0 evs s ∨
        evs = [] ∧ ∃ x, s = .crash x := by
  refine traces_lift_bind (fun address haddress => ?_) fun x _ => ?_
  · obtain ⟨rfl, hexists⟩ := Word.add_eq_ok haddress
    have hwords : (c.flash.pageSize.toNat + 3) / 4 = c.flash.pageSize.toNat / 4 := by omega
    have h := c.monitor.traces_readBlock (c.flash.base + offset) c.flash.pageSize.toNat
    rw [hwords] at h
    refine h.mono ?_ fun _ _ h => h
    intro evs page hpost
    obtain ⟨answers, hlen, hdata, rfl, rfl⟩ := hpost
    refine ⟨answers, hexists, hlen, hdata, rfl, List.take_of_length_le ?_⟩
    rw [length_flatten_of_four hdata, hlen]
    omega
  · exact .inr ⟨rfl, x, rfl⟩

end BadgeLink.Flash.Controller
