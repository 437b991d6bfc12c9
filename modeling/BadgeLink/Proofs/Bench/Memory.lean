import BadgeLink.Proofs.Bench.Controller

/-!
# The memory of a simulated chip

What programming changes of a chip: the flash, the locks, the general-purpose bits and the latch.
The rest is either left alone or bookkeeping, so a step of programming is described by what it does
to the memory, on any sound chip that has this memory.

* `Does` states what a program does to the memory of a chip, `Faults` that it fails and with which
  memory.
* `does_setLock`, `does_erase`, `does_eraseAll`, `does_commit`, `does_setBit`, `does_clearBit` and
  `does_store` are the laws of the acts that write.
* `faults_erase`, `faults_eraseAll` and `faults_commit` are those of acts on a locked region.
-/

namespace BadgeLink.Chip

open Dialogue Bench Flash

/-- What programming changes of a chip. -/
structure Memory where
  flash : Vector UInt8 flashSize
  locks : Vector Bool lockCount
  bits : UInt32
  latch : Vector UInt8 pageSize

def memory (c : Chip) : Memory :=
  ⟨c.flash, c.locks, c.bits, c.latch⟩

/-- A chip between two monitor commands whose flash works, and which is busy for so many polls after
a flash command. -/
structure Sound (polls : Nat) (c : Chip) : Prop where
  line_eq : c.line = []
  flashError_eq : c.flashError = false
  corrupt_eq : c.corrupt = none
  busyPolls_eq : c.busyPolls = polls

variable {α β : Type} {pace : Pace} {polls : Nat}

/-- On every sound chip with this memory, the program ends with a value, and leaves a sound chip; `Q`
holds of the value and the memory then. -/
def Does (pace : Pace) (polls : Nat) (p : Link α) (m : Memory) (Q : α → Memory → Prop) : Prop :=
  ∀ c : Chip, c.Sound polls → c.memory = m → Runs (Wire.port receive) pace p (onWire c [])
    fun a w => ∃ c' : Chip, w = onWire c' [] ∧ c'.Sound polls ∧ Q a c'.memory

variable {m m' : Memory} {Q : α → Memory → Prop} {R : β → Memory → Prop}

theorem does_ok {a : α} (h : Q a m) : Does pace polls (done (.ok a)) m Q :=
  fun c hsound hm => runs_ok ⟨c, rfl, hsound, hm ▸ h⟩

theorem Does.mono {Q' : α → Memory → Prop} {p : Link α} (h : Does pace polls p m Q)
    (hQ : ∀ a m', Q a m' → Q' a m') : Does pace polls p m Q' :=
  fun c hsound hm => (h c hsound hm).mono fun a _ ⟨c', hw, hsound', ha⟩ =>
    ⟨c', hw, hsound', hQ a _ ha⟩

theorem Does.bind {p : Link α} {f : α → Link β} (hp : Does pace polls p m Q)
    (hf : ∀ a m', Q a m' → Does pace polls (f a) m' R) : Does pace polls (p.bind f) m R := by
  intro c hsound hm
  refine (hp c hsound hm).bind ?_
  intro a _ hpost
  obtain ⟨c', rfl, hsound', ha⟩ := hpost
  exact hf a _ ha c' hsound' rfl

theorem Does.discard {p : Link α} (h : Does pace polls p m fun _ m'' => m'' = m') :
    Does pace polls (discard p) m fun _ m'' => m'' = m' :=
  h.bind fun _ _ hm => does_ok hm

theorem does_note (r : Record) : Does pace polls (Link.note r) m fun _ m'' => m'' = m :=
  fun c hsound hm => (runs_note r).mono fun _ _ hw => ⟨c, hw, hsound, hm⟩

theorem does_note_bind {r : Record} {f : Unit → Link α} (h : Does pace polls (f ()) m Q) :
    Does pace polls ((Link.note r).bind f) m Q :=
  fun c hsound hm => runs_note_bind (h c hsound hm)

theorem does_report_bind {step : Progress} {f : Unit → Link α} (h : Does pace polls (f ()) m Q) :
    Does pace polls ((Link.report step).bind f) m Q :=
  fun c hsound hm => runs_report_bind (h c hsound hm)

theorem does_lift_bind {x : Except Crash α} {a : α} {f : α → Link β} (hx : x = .ok a)
    (h : Does pace polls (f a) m R) : Does pace polls (Dialogue.bind (liftM x : Link α) f) m R :=
  fun c hsound hm => runs_lift_bind hx (h c hsound hm)

/-! ## Failures -/

/-- On every sound chip with this memory, the program ends with the error `e`, and leaves a sound
chip; `F` holds of the memory then. -/
def Faults (pace : Pace) (polls : Nat) (p : Link α) (m : Memory) (e : LinkError)
    (F : Memory → Prop) : Prop :=
  ∀ c : Chip, c.Sound polls → c.memory = m → Fails (Wire.port receive) pace p (onWire c []) e
    fun w => ∃ c' : Chip, w = onWire c' [] ∧ c'.Sound polls ∧ F c'.memory

variable {e : LinkError} {F : Memory → Prop}

theorem faults_error (h : F m) : Faults pace polls (done (.error e) : Link α) m e F :=
  fun c hsound hm => fails_error ⟨c, rfl, hsound, hm ▸ h⟩

theorem Faults.mono {F' : Memory → Prop} {p : Link α} (h : Faults pace polls p m e F)
    (hF : ∀ m', F m' → F' m') : Faults pace polls p m e F' :=
  fun c hsound hm => (h c hsound hm).mono fun _ ⟨c', hw, hsound', hm'⟩ =>
    ⟨c', hw, hsound', hF _ hm'⟩

theorem Faults.bind {p : Link α} (h : Faults pace polls p m e F) (f : α → Link β) :
    Faults pace polls (p.bind f) m e F :=
  fun c hsound hm => (h c hsound hm).bind f

theorem Does.bind_faults {p : Link α} {f : α → Link β} (hp : Does pace polls p m Q)
    (hf : ∀ a m', Q a m' → Faults pace polls (f a) m' e F) :
    Faults pace polls (p.bind f) m e F := by
  intro c hsound hm
  refine (hp c hsound hm).bind_fails ?_
  intro a _ hpost
  obtain ⟨c', rfl, hsound', ha⟩ := hpost
  exact hf a _ ha c' hsound' rfl

theorem faults_lift_bind {x : Except Crash α} {a : α} {f : α → Link β} (hx : x = .ok a)
    (h : Faults pace polls (f a) m e F) :
    Faults pace polls (Dialogue.bind (liftM x : Link α) f) m e F :=
  fun c hsound hm => fails_lift_bind hx (h c hsound hm)

/-! ## Commands -/

/-- The chip as it begins a command. -/
def begun (c : Chip) (command : Flash.Command) (arg : Nat) : Chip :=
  { c with
    executed := (command.code, UInt32.ofNat arg) :: c.executed
    busy := c.busyPolls
    status := Status.ready }

/-- The chip `c'` has executed a command without an error that the chip `c` began, and has this
memory. -/
structure Executed (c c' : Chip) (m : Memory) : Prop where
  line_eq : c'.line = c.line
  flashError_eq : c'.flashError = c.flashError
  corrupt_eq : c'.corrupt = c.corrupt
  busyPolls_eq : c'.busyPolls = c.busyPolls
  busy_eq : c'.busy = c.busyPolls
  status_eq : c'.status = Status.ready
  memory_eq : c'.memory = m

/-- The window of the flash begins at its base. -/
theorem windowOffset_eq {offset : Nat} (hoffset : offset < flashSize) :
    windowOffset? (flashBase + UInt32.ofNat offset) = some offset := by
  have hoffset : offset < 65536 := hoffset
  have hbase : flashBase.toNat = 0x400000 := rfl
  have haddress : (flashBase + UInt32.ofNat offset).toNat = 0x400000 + offset := by
    rw [UInt32.toNat_add, UInt32.toNat_ofNat', hbase]
    omega
  have hwithin : flashBase ≤ flashBase + UInt32.ofNat offset ∧
      (flashBase + UInt32.ofNat offset).toNat < flashBase.toNat + flashSize := by
    rw [UInt32.le_iff_toNat_le, haddress, hbase]
    exact ⟨by omega, Nat.add_lt_add_left hoffset _⟩
  rw [windowOffset?, if_pos hwithin, haddress, hbase, Nat.add_sub_cancel_left]

theorem executed_begun (c : Chip) (command : Flash.Command) (arg : Nat)
    (flash : Vector UInt8 flashSize) (locks : Vector Bool lockCount) (bits : UInt32)
    (latch : Vector UInt8 pageSize) :
    Executed c { c.begun command arg with flash, locks, bits, latch } ⟨flash, locks, bits, latch⟩ :=
  ⟨rfl, rfl, rfl, rfl, rfl, rfl, rfl⟩

theorem isLocked_eq_ok {c : Chip} {page : Nat} {locked : Bool}
    (h : c.locks[region page]? = some locked) : c.isLocked page = .ok locked := by
  rw [isLocked, h]

section Locks

variable {c : Chip} {first page : Nat}

theorem erasePages_eq (hsector : first % 16 = 0) :
    c.erasePages (first + 2) = (do
      if ← c.isLocked first then return c.flag Status.locked
      return { c with flash := erase c.flash (first * pageSize) ((first + 16) * pageSize) }) := by
  have hpage : (first + 2) / 4 * 4 = first := by omega
  have hrest : (first + 2) % 4 = 2 := by omega
  have hcount : 4 <<< 2 = 16 := rfl
  rw [erasePages, hpage, hrest, hcount]

theorem erasePages_eq_ok (hsector : first % 16 = 0) (hlock : c.locks[region first]? = some false) :
    c.erasePages (first + 2) =
      .ok { c with flash := erase c.flash (first * pageSize) ((first + 16) * pageSize) } := by
  rw [erasePages_eq hsector, isLocked_eq_ok hlock]
  rfl

theorem erasePages_eq_locked (hsector : first % 16 = 0)
    (hlock : c.locks[region first]? = some true) :
    c.erasePages (first + 2) = .ok (c.flag Status.locked) := by
  rw [erasePages_eq hsector, isLocked_eq_ok hlock]
  rfl

theorem writePage_eq_ok (hlock : c.locks[region page]? = some false) (hflash : c.flashError = false)
    (hcorrupt : c.corrupt = none) :
    c.writePage page = .ok { c with
      flash := commit c.flash c.latch none page, latch := .replicate pageSize 0xff } := by
  rw [writePage, isLocked_eq_ok hlock]
  show Except.ok { (if c.flashError then c.flag Status.failed
    else { c with flash := commit c.flash c.latch c.corrupt page } : Chip) with
      latch := .replicate pageSize 0xff } = _
  rw [hflash, hcorrupt, if_neg Bool.false_ne_true]

/-- The latch is cleared also when the page is locked. -/
theorem writePage_eq_locked (hlock : c.locks[region page]? = some true) :
    c.writePage page =
      .ok (({ c with latch := .replicate pageSize 0xff } : Chip).flag Status.locked) := by
  rw [writePage, isLocked_eq_ok hlock]
  rfl

theorem any_locks_iff (locks : Vector Bool lockCount) :
    locks.toList.any id = true ↔ true ∈ locks := by
  simp only [List.any_eq_true, id_eq, Vector.mem_toList_iff, exists_eq_right]

end Locks

section Commands

variable {ctl : Controller} (hpatience : 0 < ctl.monitor.channel.patience)
  (hbase : ctl.base = controllerBase) (hpolls : Awaited ctl.pollLimit polls)

include hpatience hbase hpolls

/-- A command does what the chip does when it executes it. -/
theorem does_command {command : Flash.Command} {arg : UInt32}
    (h : ∀ c : Chip, c.Sound polls → c.memory = m →
      ∃ c', c.execute command.code (arg.toNat % 65536) = .ok c' ∧ Executed c c' m') :
    Does pace polls (ctl.issue command arg) m fun _ m'' => m'' = m' := by
  intro c hsound hm
  obtain ⟨c', hexecute, hc'⟩ := h c hsound hm
  have hidle : c'.line = [] := hc'.line_eq.trans hsound.line_eq
  have hbusy : Awaited ctl.pollLimit c'.busy := by
    rw [hc'.busy_eq, hsound.busyPolls_eq]
    exact hpolls
  refine (runs_command hpatience hbase hsound.line_eq hexecute hidle hc'.status_eq hbusy).mono ?_
  intro _ _ hpost
  subst hpost
  exact ⟨_, rfl, ⟨hidle, hc'.flashError_eq.trans hsound.flashError_eq,
    hc'.corrupt_eq.trans hsound.corrupt_eq, hc'.busyPolls_eq.trans hsound.busyPolls_eq⟩,
    hc'.memory_eq⟩

/-- A command fails if the chip finds a locked page when it executes it. -/
theorem faults_command {command : Flash.Command} {arg : UInt32}
    (h : ∀ c : Chip, c.Sound polls → c.memory = m → ∃ c',
      c.execute command.code (arg.toNat % 65536) = .ok (c'.flag Status.locked) ∧ Executed c c' m') :
    Faults pace polls (ctl.issue command arg) m
      (.flashLocked (Status.ready ||| Status.locked)) fun m'' => m'' = m' := by
  intro c hsound hm
  obtain ⟨c', hexecute, hc'⟩ := h c hsound hm
  have hidle : c'.line = [] := hc'.line_eq.trans hsound.line_eq
  have hbusy : Awaited ctl.pollLimit c'.busy := by
    rw [hc'.busy_eq, hsound.busyPolls_eq]
    exact hpolls
  have hstatus : (c'.flag Status.locked).status = Status.ready ||| Status.locked := by
    rw [flag, hc'.status_eq]
  have hready : Status.has (c'.flag Status.locked).status Status.ready = true := by
    rw [hstatus]
    decide
  have hcheck : Status.check (c'.flag Status.locked).status =
      .error (.flashLocked (Status.ready ||| Status.locked)) := by
    rw [hstatus]
    rfl
  refine (fails_command hpatience hbase hsound.line_eq hexecute hidle hready hcheck hbusy).mono ?_
  intro _ hpost
  subst hpost
  exact ⟨_, rfl, ⟨hidle, hc'.flashError_eq.trans hsound.flashError_eq,
    hc'.corrupt_eq.trans hsound.corrupt_eq, hc'.busyPolls_eq.trans hsound.busyPolls_eq⟩,
    hc'.memory_eq⟩

theorem does_setLock {region : Nat} (hregion : region < lockCount) (locked : Bool) :
    Does pace polls (ctl.setLock (UInt32.ofNat region) locked) m
      fun _ m' => m' = { m with locks := m.locks.setIfInBounds region locked } := by
  refine Does.discard (does_command hpatience hbase hpolls ?_)
  rintro c hsound rfl
  have harg : (UInt32.ofNat region).toNat % 65536 = region := by
    have hregion : region < 8 := hregion
    rw [UInt32.toNat_ofNat']
    omega
  cases locked with
  | false =>
    refine ⟨_, ?_, executed_begun c .clearLock region _ _ _ _⟩
    rw [harg]
    show (c.begun .clearLock region).setLock region false = _
    exact if_pos hregion
  | true =>
    refine ⟨_, ?_, executed_begun c .setLock region _ _ _ _⟩
    rw [harg]
    show (c.begun .setLock region).setLock region true = _
    exact if_pos hregion

theorem does_setBit {bit mask : UInt32} (hmask : bitMask (bit.toNat % 65536) = .ok mask) :
    Does pace polls (ctl.setBit bit) m fun _ m' => m' = { m with bits := m.bits ||| mask } := by
  refine Does.discard (does_command hpatience hbase hpolls ?_)
  rintro c hsound rfl
  refine ⟨_, ?_, executed_begun c .setBit (bit.toNat % 65536) _ _ _ _⟩
  show (bitMask (bit.toNat % 65536)).bind _ = _
  rw [hmask]
  rfl

theorem does_clearBit {bit mask : UInt32} (hmask : bitMask (bit.toNat % 65536) = .ok mask) :
    Does pace polls (ctl.clearBit bit) m fun _ m' => m' = { m with bits := m.bits &&& ~~~mask } := by
  refine Does.discard (does_command hpatience hbase hpolls ?_)
  rintro c hsound rfl
  refine ⟨_, ?_, executed_begun c .clearBit (bit.toNat % 65536) _ _ _ _⟩
  show (bitMask (bit.toNat % 65536)).bind _ = _
  rw [hmask]
  rfl

theorem does_eraseAll (hlocks : true ∉ m.locks) :
    Does pace polls ctl.eraseAll m
      fun _ m' => m' = { m with flash := .replicate flashSize 0xff } := by
  refine Does.discard (does_command hpatience hbase hpolls ?_)
  rintro c hsound rfl
  refine ⟨_, ?_, executed_begun c .eraseAll 0 _ _ _ _⟩
  exact if_neg fun hany => hlocks ((any_locks_iff c.locks).1 hany)

theorem faults_eraseAll (hlocks : true ∈ m.locks) :
    Faults pace polls ctl.eraseAll m (.flashLocked (Status.ready ||| Status.locked))
      fun m' => m' = m := by
  refine Faults.bind (faults_command hpatience hbase hpolls ?_) _
  rintro c hsound rfl
  refine ⟨_, ?_, executed_begun c .eraseAll 0 _ _ _ _⟩
  exact if_pos ((any_locks_iff c.locks).2 hlocks)

omit hpatience hbase hpolls in
/-- The argument that erases sixteen pages names the first of them. -/
theorem toNat_sixteenPages {first : Nat} (hfirst : first < 128) (hsector : first % 16 = 0) :
    (UInt32.ofNat first ||| Command.sixteenPages).toNat % 65536 = first + 2 := by
  obtain ⟨k, rfl⟩ := Nat.dvd_of_mod_eq_zero hsector
  have hsum : 16 * k ||| 2 = 16 * k + 2 := by
    rw [Nat.mul_comm, ← Nat.shiftLeft_eq k 4, Nat.shiftLeft_add_eq_or_of_lt (by decide)]
  have hword : (UInt32.ofNat (16 * k)).toNat = 16 * k := by
    rw [UInt32.toNat_ofNat']
    omega
  have htwo : Command.sixteenPages.toNat = 2 := rfl
  rw [UInt32.toNat_or, hword, htwo, hsum]
  omega

/-- Sixteen pages are erased if the region of the first is not locked. -/
theorem does_erase {first : Nat} (hfirst : first < 128) (hsector : first % 16 = 0)
    (hlock : m.locks[region first]? = some false) :
    Does pace polls (ctl.issue .erasePages (UInt32.ofNat first ||| Command.sixteenPages)) m
      fun _ m' => m' =
        { m with flash := erase m.flash (first * pageSize) ((first + 16) * pageSize) } := by
  refine does_command hpatience hbase hpolls ?_
  rintro c hsound rfl
  refine ⟨_, ?_, executed_begun c .erasePages (first + 2) _ _ _ _⟩
  rw [toNat_sixteenPages hfirst hsector]
  exact erasePages_eq_ok hsector hlock

theorem faults_erase {first : Nat} (hfirst : first < 128) (hsector : first % 16 = 0)
    (hlock : m.locks[region first]? = some true) :
    Faults pace polls (ctl.issue .erasePages (UInt32.ofNat first ||| Command.sixteenPages)) m
      (.flashLocked (Status.ready ||| Status.locked)) fun m' => m' = m := by
  refine faults_command hpatience hbase hpolls ?_
  rintro c hsound rfl
  refine ⟨_, ?_, executed_begun c .erasePages (first + 2) _ _ _ _⟩
  rw [toNat_sixteenPages hfirst hsector]
  exact erasePages_eq_locked hsector hlock

omit hpatience hbase hpolls in
theorem toNat_page {page : Nat} (hpage : page < 128) :
    (UInt32.ofNat page).toNat % 65536 = page := by
  rw [UInt32.toNat_ofNat']
  omega

/-- The latch is written to a page whose region is not locked. -/
theorem does_commit {page : Nat} (hpage : page < 128)
    (hlock : m.locks[region page]? = some false) :
    Does pace polls (ctl.issue .writePage (UInt32.ofNat page)) m
      fun _ m' => m' = { m with
        flash := commit m.flash m.latch none page, latch := .replicate pageSize 0xff } := by
  refine does_command hpatience hbase hpolls ?_
  rintro c hsound rfl
  refine ⟨_, ?_, executed_begun c .writePage page _ _ _ _⟩
  rw [toNat_page hpage]
  exact writePage_eq_ok hlock hsound.flashError_eq hsound.corrupt_eq

theorem faults_commit {page : Nat} (hpage : page < 128)
    (hlock : m.locks[region page]? = some true) :
    Faults pace polls (ctl.issue .writePage (UInt32.ofNat page)) m
      (.flashLocked (Status.ready ||| Status.locked))
      fun m' => m' = { m with latch := .replicate pageSize 0xff } := by
  refine faults_command hpatience hbase hpolls ?_
  rintro c hsound rfl
  refine ⟨_, ?_, executed_begun c .writePage page _ _ _ _⟩
  rw [toNat_page hpage]
  exact writePage_eq_locked hlock

omit hbase hpolls in
/-- A word that is written to the window of the flash is stored in the latch. -/
theorem does_store (offset : Nat) {place : Nat} (hoffset : offset < flashSize)
    (hplace : offset % pageSize = place) (hfits : place + 4 ≤ pageSize) (value : UInt32) :
    Does pace polls (ctl.monitor.writeWord (flashBase + UInt32.ofNat offset) value) m
      fun _ m' => m' = { m with latch := fillLatch m.latch place (Word.littleEndian value) } := by
  rintro c hsound rfl
  have hwrite : c.writeWord (flashBase + UInt32.ofNat offset) value =
      .ok { c with latch := fillLatch c.latch place (Word.littleEndian value) } := by
    rw [writeWord, windowOffset_eq hoffset, ← hplace]
    exact if_pos (hplace ▸ hfits)
  refine (runs_writeWord hpatience hsound.line_eq hwrite).mono ?_
  intro _ _ hpost
  subst hpost
  exact ⟨_, rfl, ⟨hsound.line_eq, hsound.flashError_eq, hsound.corrupt_eq, hsound.busyPolls_eq⟩, rfl⟩

end Commands

end BadgeLink.Chip
