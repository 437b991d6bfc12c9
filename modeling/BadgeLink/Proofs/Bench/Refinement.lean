import BadgeLink.Proofs.Bench.Store

/-!
# A flash controller is an abstract flash

Every operation over a sound chip ends as that of the abstract machine and changes the store as it
does (`answers_perform`). A failed operation may leave its words in the latch, but the latch is not
part of the store, and no operation reads it before it was filled again. So any sequence of
operations is one of the machine (`observe_eq_history`).
-/

namespace BadgeLink.Chip

open Dialogue Bench Flash Controller

variable {pace : Pace} {polls : Nat}

section Controllers

variable {ctl : Controller} (hdrives : Drives ctl polls) {s : Store}

include hdrives

/-! ## The descriptor and the bits -/

theorem does_readDescriptor {m : Memory} :
    Does pace polls ctl.readDescriptor m fun d m' => d = descriptor ∧ m' = m := by
  rintro c hsound rfl
  have hbase : ctl.flash.base = flashBase := by
    rw [hdrives.flash_eq]
    rfl
  refine (runs_readDescriptor hdrives.patience_pos hdrives.base_eq hdrives.awaited hsound
    hbase).mono ?_
  rintro d w ⟨rfl, c', rfl, -, hsound', hm⟩
  exact ⟨c', rfl, hsound', rfl, hm⟩

theorem does_readBits {m : Memory} :
    Does pace polls ctl.readBits m fun bits m' => bits = m.bits ∧ m' = m := by
  rintro c hsound rfl
  have hexecute : c.execute Command.getBits.code ((0 : UInt32).toNat % 65536) =
      .ok { c.begun .getBits 0 with results := [c.bits] } := rfl
  have hbusy : Awaited ctl.pollLimit c.busyPolls := hsound.busyPolls_eq.symm ▸ hdrives.awaited
  have hasked : Runs (Wire.port receive) pace (discard (ctl.issue .getBits 0)) (onWire c [])
      fun _ w => Delivering polls c.memory [c.bits] w := by
    refine (runs_command hdrives.patience_pos hdrives.base_eq hsound.line_eq hexecute hsound.line_eq
      rfl hbusy).discard.mono ?_
    rintro _ _ ⟨_, rfl⟩
    exact ⟨_, rfl, rfl,
      ⟨hsound.line_eq, hsound.flashError_eq, hsound.corrupt_eq, hsound.busyPolls_eq⟩, rfl⟩
  refine hasked.bind fun _ w hw => ?_
  refine (runs_readResult hdrives.patience_pos hdrives.base_eq hw).mono ?_
  rintro bits _ ⟨rfl, c', rfl, -, hsound', hm⟩
  exact ⟨c', rfl, hsound', rfl, hm⟩

omit hdrives in
theorem bitMask_eq_ok {bit : UInt32} (hbit : bit.toNat < 32) :
    bitMask (bit.toNat % 65536) = .ok (1 <<< bit) := by
  have hsmall : bit.toNat % 65536 = bit.toNat := by omega
  rw [bitMask, hsmall, if_pos hbit, UInt32.ofNat_toNat]

/-! ## Locked regions -/

theorem answers_eraseAll : Answers pace polls (ctl.perform .eraseAll) s (s.step .eraseAll) := by
  by_cases hlocked : true ∈ s.locks
  · rw [Store.step, if_pos hlocked]
    refine Faults.answers_done ?_
    rintro m rfl
    refine (faults_eraseAll hdrives.patience_pos hdrives.base_eq hdrives.awaited hlocked).mono ?_
    rintro _ rfl
    rfl
  · rw [Store.step, if_neg hlocked]
    refine Does.answers_done ?_
    rintro m rfl
    refine (does_eraseAll hdrives.patience_pos hdrives.base_eq hdrives.awaited hlocked).mono ?_
    rintro _ _ rfl
    rfl

omit hdrives in
theorem getElem?_locks_of_not {offset : UInt32} (hoffset : offset.toNat < flashSize)
    (h : ¬s.Locked offset) : s.locks[offset.toNat / sectorSize]? = some false := by
  have hregion : offset.toNat / sectorSize < lockCount := Nat.div_lt_of_lt_mul hoffset
  rw [Store.Locked, Vector.getElem?_eq_getElem hregion, Option.some_inj, Bool.not_eq_true] at h
  rw [Vector.getElem?_eq_getElem hregion, h]

omit hdrives in
theorem store_eraseSector {m : Memory} {flash : Vector UInt8 flashSize} {f : Nat → UInt8}
    (hold : Holds m.flash f) {sector : Nat}
    (hnew : Holds flash fun i => if i / 8192 = sector then 0xff else f i) :
    { m with flash }.store = m.store.eraseSector sector := by
  have hbytes : flash = .ofFn fun i => if i.val / sectorSize = sector then 0xff else m.flash[i] := by
    refine (eq_ofFn_of_holds hnew).trans (congrArg Vector.ofFn (funext fun i => ?_))
    rw [← hold i.val i.isLt]
    rfl
  rw [hbytes]
  rfl

theorem answers_eraseSector {offset : UInt32} (hoffset : offset.toNat < flashSize) :
    Answers pace polls (ctl.perform (.eraseSector offset)) s (s.step (.eraseSector offset)) := by
  by_cases hlocked : s.Locked offset
  · rw [Store.step, if_pos hlocked]
    refine Faults.answers_done ?_
    rintro m rfl
    refine (faults_eraseSector hdrives hoffset hlocked).mono ?_
    rintro _ rfl
    rfl
  · rw [Store.step, if_neg hlocked]
    refine Does.answers_done ?_
    rintro m rfl
    obtain ⟨f, hold⟩ := exists_holds m.flash
    refine (does_eraseSector hdrives hoffset (getElem?_locks_of_not hoffset hlocked) hold).mono ?_
    rintro _ _ ⟨flash, rfl, hnew⟩
    exact store_eraseSector hold hnew

/-! ## Pages -/

section Pages

variable {offset : UInt32} (hoffset : offset.toNat < flashSize ∧ offset.toNat % pageSize = 0)

include hoffset

omit hdrives in
theorem exists_page : ∃ page < 128, offset = UInt32.ofNat (page * 512) ∧
    offset.toNat / pageSize = page ∧ offset.toNat / sectorSize = region page := by
  obtain ⟨hsize, hpage⟩ : offset.toNat < 65536 ∧ offset.toNat % 512 = 0 := hoffset
  have hmul : offset.toNat / 512 * 512 = offset.toNat := by omega
  refine ⟨offset.toNat / 512, by omega, ?_, rfl, ?_⟩
  · rw [hmul, UInt32.ofNat_toNat]
  · show offset.toNat / 8192 = offset.toNat / 512 * 512 / 8192
    rw [hmul]

omit hdrives hoffset in
theorem store_writePage {m : Memory} {flash : Vector UInt8 flashSize}
    {latch : Vector UInt8 pageSize} {f : Nat → UInt8} (hold : Holds m.flash f) {page : Nat}
    {data : List UInt8}
    (hnew : Holds flash fun i =>
      if page * 512 ≤ i ∧ i < page * 512 + 512 then data.getD (i - page * 512) 0 else f i) :
    { m with flash, latch }.store = m.store.writePage page data := by
  have hbytes : flash = .ofFn fun i =>
      if i.val / pageSize = page then data.getD (i.val % pageSize) 0 else m.flash[i] := by
    refine (eq_ofFn_of_holds hnew).trans (congrArg Vector.ofFn (funext fun i => ?_))
    have hold : f i.val = m.flash[i] := (hold i.val i.isLt).symm
    by_cases hin : i.val / pageSize = page
    · have hin : i.val / 512 = page := hin
      have hplace : i.val - page * 512 = i.val % 512 := by omega
      rw [if_pos (by omega), if_pos ‹_›, hplace]
    · have hin : ¬i.val / 512 = page := hin
      rw [if_neg (by omega), if_neg ‹_›, hold]
  rw [hbytes]
  rfl

theorem answers_writePage (data : List UInt8) :
    Answers pace polls (ctl.perform (.writePage offset data)) s
      (s.step (.writePage offset data)) := by
  obtain ⟨page, hpage, rfl, hquotient, hregion⟩ := exists_page hoffset
  by_cases hlong : pageSize < data.length
  · rw [Store.step, if_pos hlong]
    refine Faults.answers_done ?_
    rintro m rfl
    unfold Controller.writePage
    have hlong : descriptor.pageSize.toNat < data.length := hlong
    rw [hdrives.flash_eq, if_pos hlong]
    exact faults_error rfl
  have hdata : data.length ≤ 512 := Nat.not_lt.1 hlong
  by_cases hlocked : s.Locked (UInt32.ofNat (page * 512))
  · rw [Store.step, if_neg hlong, if_pos hlocked]
    refine Faults.answers_done ?_
    rintro m rfl
    refine (faults_writePage hdrives hpage hdata (hregion ▸ hlocked)).mono ?_
    rintro _ ⟨latch, rfl⟩
    rfl
  · rw [Store.step, if_neg hlong, if_neg hlocked, hquotient]
    refine Does.answers_done ?_
    rintro m rfl
    obtain ⟨f, hold⟩ := exists_holds m.flash
    refine (does_writePage hdrives hpage hdata
      (hregion ▸ getElem?_locks_of_not hoffset.1 hlocked) hold).mono ?_
    rintro _ _ ⟨flash, latch, rfl, hnew⟩
    exact store_writePage hold hnew

theorem answers_readPage :
    Answers pace polls (ctl.perform (.readPage offset)) s (s.step (.readPage offset)) := by
  obtain ⟨page, hpage, rfl, -, -⟩ := exists_page hoffset
  refine Does.answers ?_
  rintro m rfl
  obtain ⟨f, hold⟩ := exists_holds m.flash
  refine (does_readPage hdrives hold hpage).bind ?_
  rintro _ _ ⟨rfl, rfl⟩
  refine does_ok ⟨?_, rfl⟩
  rw [toNat_pageOffset hpage]
  exact congrArg Answer.page (take_drop_of_holds hold hpage).symm

end Pages

/-! ## Operations -/

theorem answers_perform {op : Operation} (hop : Within op) :
    Answers pace polls (ctl.perform op) s (s.step op) := by
  cases op with
  | readDescriptor =>
    refine Does.answers ?_
    rintro m rfl
    refine (does_readDescriptor hdrives).bind ?_
    rintro _ _ ⟨rfl, rfl⟩
    exact does_ok ⟨rfl, rfl⟩
  | setLock region locked =>
    refine Does.answers_done ?_
    rintro m rfl
    have hlock : Does pace polls (ctl.setLock (UInt32.ofNat region.toNat) locked) m
        fun _ m' => m' = { m with locks := m.locks.setIfInBounds region.toNat locked } :=
      does_setLock hdrives.patience_pos hdrives.base_eq hdrives.awaited hop locked
    rw [UInt32.ofNat_toNat] at hlock
    refine hlock.mono ?_
    rintro _ _ rfl
    rfl
  | unlockAll =>
    refine Does.answers_done ?_
    rintro m rfl
    refine (does_unlockAll hdrives).mono ?_
    rintro _ _ rfl
    rfl
  | eraseAll => exact answers_eraseAll hdrives
  | eraseSector offset => exact answers_eraseSector hdrives hop
  | writePage offset data => exact answers_writePage hdrives hop data
  | readPage offset => exact answers_readPage hdrives hop
  | setBit bit =>
    refine Does.answers_done ?_
    rintro m rfl
    refine (does_setBit hdrives.patience_pos hdrives.base_eq hdrives.awaited
      (bitMask_eq_ok hop)).mono ?_
    rintro _ _ rfl
    rfl
  | clearBit bit =>
    refine Does.answers_done ?_
    rintro m rfl
    refine (does_clearBit hdrives.patience_pos hdrives.base_eq hdrives.awaited
      (bitMask_eq_ok hop)).mono ?_
    rintro _ _ rfl
    rfl
  | readBits =>
    refine Does.answers ?_
    rintro m rfl
    refine (does_readBits hdrives).bind ?_
    rintro _ _ ⟨rfl, rfl⟩
    exact does_ok ⟨rfl, rfl⟩

theorem observe_eq {ops : List Operation} (hops : ∀ op ∈ ops, Within op) {c : Chip}
    (hsound : c.Sound polls) (clock : Nat) (t : Transcript) :
    observe pace ctl ops ⟨onWire c [], clock, t⟩ = Store.history ops c.store := by
  -- the chip that an operation leaves is again sound, and its store that of the machine
  induction ops generalizing c clock t with
  | nil => rfl
  | cons op ops ih =>
    obtain ⟨hop, hops⟩ := List.forall_mem_cons.1 hops
    obtain ⟨c', clock', t', hrun, hsound', hstore⟩ :=
      answers_perform hdrives hop c hsound rfl clock t
    rw [observe, Store.history, hrun, ih hops hsound']
    show (_, c'.store) :: Store.history ops c'.store = _
    rw [hstore]

end Controllers

/-- Over a sound chip whose polls find it busy less often than the client allows for, a controller
can be connected, the connection changes nothing that the chip stores, and whatever operations
follow, each ends as on the abstract machine and leaves the store that it leaves there. -/
theorem observe_eq_history (pace : Pace) (options : Options) {pollLimit : Option UInt32}
    {c : Chip} (hsound : c.Sound polls) (hawaited : Awaited pollLimit polls)
    {ops : List Operation} (hops : ∀ op ∈ ops, Within op) (clock : Nat) (t : Transcript) :
    ∃ ctl b,
      (Controller.connect ⟨{ options }⟩ controllerBase flashBase pollLimit).run
        (device (Wire.port receive) pace) ⟨{ device := c }, clock, t⟩ = (.ok ctl, b) ∧
      b.port.device.store = c.store ∧
      observe pace ctl ops b = Store.history ops c.store := by
  have hattach : Runs (Wire.port receive) pace
      (Controller.connect ⟨{ options }⟩ controllerBase flashBase pollLimit) (onWire c [])
      fun ctl w => Drives ctl polls ∧ Delivering polls c.memory [] w :=
    runs_attach hawaited hsound (Channel.patience_pos options)
  obtain ⟨ctl, _, clock', t', hrun, hdrives, c', rfl, -, hsound', hm⟩ := hattach clock t
  have hstore : c'.store = c.store := congrArg Memory.store hm
  refine ⟨ctl, _, hrun, hstore, ?_⟩
  rw [observe_eq hdrives hops hsound', hstore]

/-- A write that is refused leaves no trace in what is read after the chip was unlocked. -/
theorem observe_eq_history_of_refused : ∃ ctl b,
    (Controller.connect ⟨{ options := Wire.options }⟩ controllerBase flashBase (some 100000)).run
      (device (Wire.port receive) .simulated) ⟨{ device := { busyPolls := 3 } }, 0, {}⟩ =
        (.ok ctl, b) ∧
    b.port.device.store = store { busyPolls := 3 } ∧
    observe .simulated ctl [.writePage 512 [1, 2, 3], .unlockAll, .readPage 512, .eraseSector 9000,
        .writePage 512 [4], .readPage 512, .setLock 7 true, .eraseAll, .setBit 31, .readBits] b =
      Store.history [.writePage 512 [1, 2, 3], .unlockAll, .readPage 512, .eraseSector 9000,
        .writePage 512 [4], .readPage 512, .setLock 7 true, .eraseAll, .setBit 31, .readBits]
        (store { busyPolls := 3 }) := by
  have hsound : Sound 3 { busyPolls := 3 } := ⟨rfl, rfl, rfl, rfl⟩
  have hawaited : Awaited (some 100000) 3 := by
    show 3 < (100000 : UInt32).toNat
    decide
  exact observe_eq_history .simulated Wire.options hsound hawaited (by decide) 0 {}

end BadgeLink.Chip
