/-!
# Lists

A list over the numbers below a successor, split off at its first element: loops that count up are
described by such lists. And the place of an element in two lists that are appended, where it is
known not to be in the first of them.
-/

namespace BadgeLink

variable {α : Type}

/-! ## Lists over ranges -/

theorem map_range_succ (f : Nat → α) (n : Nat) :
    (List.range (n + 1)).map f = f 0 :: (List.range n).map fun i => f (i + 1) := by
  rw [List.range_succ_eq_map, List.map_cons, List.map_map]
  rfl

theorem flatMap_range_succ (f : Nat → List α) (n : Nat) :
    (List.range (n + 1)).flatMap f = f 0 ++ (List.range n).flatMap fun i => f (i + 1) := by
  rw [List.range_succ_eq_map, List.flatMap_cons, List.flatMap_map]

/-- A list over a range begins with the list over a shorter one. -/
theorem prefix_map_range (f : Nat → α) {m n : Nat} (h : m ≤ n) :
    (List.range m).map f <+: (List.range n).map f := by
  obtain ⟨k, rfl⟩ := Nat.exists_eq_add_of_le h
  rw [List.range_add, List.map_append]
  exact List.prefix_append _ _

/-! ## The place of an element -/

/-- An element that is not in the first of two lists stands in the second. -/
theorem eq_append_of_notMem {first second before after : List α} {a : α} (ha : a ∉ first)
    (h : first ++ second = before ++ a :: after) :
    ∃ middle, before = first ++ middle ∧ second = middle ++ a :: after := by
  rcases List.append_eq_append_iff.1 h with ⟨middle, rfl, hsecond⟩ | ⟨middle, rfl, hmiddle⟩
  · exact ⟨middle, rfl, hsecond⟩
  · cases middle with
    | nil =>
      refine ⟨[], ?_, hmiddle.symm⟩
      rw [List.append_nil, List.append_nil]
    | cons x middle =>
      obtain ⟨rfl, -⟩ := List.cons.inj hmiddle
      exact absurd (List.mem_append_right before List.mem_cons_self) ha

end BadgeLink
