import BadgeLink.Bench.Chip
import BadgeLink.Proofs.Word
import Mathlib.Data.List.GetD

/-!
# The bytes of a simulated flash

What the operations on the flash and on the latch of a simulated chip do to each byte. A memory is
described by the function that gives its bytes.
-/

namespace BadgeLink.Chip

/-- A function gives the bytes of a memory. -/
def Holds {n : Nat} (v : Vector UInt8 n) (f : Nat → UInt8) : Prop :=
  ∀ i (h : i < n), v[i] = f i

theorem Holds.congr {n : Nat} {v : Vector UInt8 n} {f g : Nat → UInt8} (h : Holds v f)
    (hfg : ∀ i < n, f i = g i) : Holds v g :=
  fun i hi => (h i hi).trans (hfg i hi)

/-- A function gives the bytes of any memory. -/
theorem exists_holds {n : Nat} (v : Vector UInt8 n) : ∃ f, Holds v f := by
  refine ⟨fun i => v[i]?.getD 0, fun i hi => ?_⟩
  dsimp only
  rw [Vector.getElem?_eq_getElem hi, Option.getD_some]

theorem Holds.setIfInBounds {n : Nat} {v : Vector UInt8 n} {f : Nat → UInt8} (h : Holds v f)
    (place : Nat) (b : UInt8) :
    Holds (v.setIfInBounds place b) fun i => if place = i then b else f i := by
  intro i hi
  rw [Vector.getElem_setIfInBounds]
  dsimp only
  split
  · rfl
  · exact h i hi

variable {flash : Vector UInt8 flashSize} {latch : Vector UInt8 pageSize} {f g : Nat → UInt8}

theorem holds_erase (h : Holds flash f) (start stop : Nat) :
    Holds (erase flash start stop) fun i => if start ≤ i ∧ i < stop then 0xff else f i := by
  intro i hi
  rw [erase, Vector.getElem_ofFn]
  dsimp only
  split
  · rfl
  · exact h i hi

theorem holds_commit (h : Holds flash f) (hlatch : Holds latch g) (page : Nat) :
    Holds (commit flash latch none page) fun i =>
      if page * pageSize ≤ i ∧ i < page * pageSize + pageSize then g (i - page * pageSize)
      else f i := by
  intro i hi
  rw [commit, Vector.getElem_ofFn]
  dsimp only
  split
  · next hin =>
    rw [if_neg (by exact nofun)]
    exact hlatch _ _
  · exact h i hi

/-- Bytes that are stored in the latch stand there from their place on. -/
theorem holds_fillLatch (h : Holds latch g) (place : Nat) (bytes : List UInt8) :
    Holds (fillLatch latch place bytes) fun i =>
      if place ≤ i ∧ i < place + bytes.length then bytes.getD (i - place) 0 else g i := by
  induction bytes generalizing latch place g with
  | nil =>
    refine h.congr fun i _ => ?_
    rw [List.length_nil, if_neg (by omega)]
  | cons b rest ih =>
    refine (ih (h.setIfInBounds place b) (place + 1)).congr fun i _ => ?_
    rw [List.length_cons]
    by_cases hplace : place = i
    · subst hplace
      rw [if_neg (by omega), if_pos rfl, if_pos (by omega), Nat.sub_self, List.getD_cons_zero]
    · rw [if_neg hplace]
      by_cases hin : place + 1 ≤ i ∧ i < place + 1 + rest.length
      · rw [if_pos hin, if_pos (by omega)]
        obtain ⟨k, hk⟩ : ∃ k, i - place = k + 1 := ⟨i - (place + 1), by omega⟩
        have hrest : i - (place + 1) = k := by omega
        rw [hk, hrest, List.getD_cons_succ]
      · rw [if_neg hin, if_neg (by omega)]

/-! ## Bytes of words -/

/-- The bytes of a word that was made of at most four bytes are these, and zeros after them. -/
theorem getD_littleEndian {bytes : List UInt8} (h : bytes.length ≤ 4) (i : Nat) :
    (Word.littleEndian (Word.ofLittleEndian bytes)).getD i 0 = bytes.getD i 0 := by
  have hlength : (bytes ++ List.replicate (4 - bytes.length) 0).length = 4 := by
    rw [List.length_append, List.length_replicate]
    omega
  rw [← Word.ofLittleEndian_append_zeros bytes (4 - bytes.length),
    Word.littleEndian_ofLittleEndian hlength]
  by_cases hi : i < bytes.length
  · rw [List.getD_append _ _ _ _ hi]
  · have hi : bytes.length ≤ i := Nat.not_lt.1 hi
    rw [List.getD_append_right _ _ _ _ hi, List.getD_eq_default _ _ hi,
      List.getD_eq_getElem?_getD, List.getElem?_getD_replicate_default_eq]

theorem getD_drop (data : List UInt8) (k i : Nat) : (data.drop k).getD i 0 = data.getD (k + i) 0 := by
  rw [List.getD_eq_getElem?_getD, List.getElem?_drop, ← List.getD_eq_getElem?_getD]

theorem getD_take (data : List UInt8) {k i : Nat} (h : i < k) :
    (data.take k).getD i 0 = data.getD i 0 := by
  rw [List.getD_eq_getElem?_getD, List.getElem?_take_of_lt h, ← List.getD_eq_getElem?_getD]

end BadgeLink.Chip
