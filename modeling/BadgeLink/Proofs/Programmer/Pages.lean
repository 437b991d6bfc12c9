import BadgeLink.Programmer.Run
import BadgeLink.Proofs.Lists

/-!
# The pages of an image

An image is cut into pages: page `k` holds the bytes from `k` times the page size on, and the last
page may be short.
-/

namespace BadgeLink

/-- How many pages an image takes. -/
def pageTotal (size : Nat) (image : List UInt8) : Nat :=
  (image.length + size - 1) / size

/-- The bytes of an image that belong to a page. -/
def pageOf (size : Nat) (image : List UInt8) (page : Nat) : List UInt8 :=
  (image.drop (page * size)).take size

/-- The bytes of a page with zeros up to its end. -/
def padded (size : Nat) (data : List UInt8) : List UInt8 :=
  data ++ List.replicate (size - data.length) 0

theorem length_pageOf (size : Nat) (image : List UInt8) (page : Nat) :
    (pageOf size image page).length = min size (image.length - page * size) := by
  rw [pageOf, List.length_take, List.length_drop]

theorem length_pageOf_le (size : Nat) (image : List UInt8) (page : Nat) :
    (pageOf size image page).length ≤ size := by
  rw [length_pageOf]
  exact Nat.min_le_left _ _

/-- So many pages hold an image if and only if they are not fewer than it takes. -/
theorem pageTotal_le_iff {size : Nat} (hsize : 0 < size) {image : List UInt8} {n : Nat} :
    pageTotal size image ≤ n ↔ image.length ≤ n * size := by
  rw [pageTotal, ← Nat.lt_succ_iff, Nat.div_lt_iff_lt_mul hsize, Nat.succ_mul]
  omega

/-- A page of an image begins within the image. -/
theorem page_mul_lt {size page : Nat} {image : List UInt8} (hsize : 0 < size)
    (hpage : page < pageTotal size image) : page * size < image.length :=
  Nat.not_le.1 fun h => Nat.not_le.2 hpage ((pageTotal_le_iff hsize).2 h)

/-- The number of pages that is computed for an image that a buffer can hold. -/
theorem Flash.Descriptor.pageCount_eq {d : Flash.Descriptor} (hpos : 0 < d.pageSize.toNat)
    {image : List UInt8} (hsize : image.length ≤ Size.largestBuffer) :
    d.pageCount image.length = .ok (pageTotal d.pageSize.toNat image) := by
  have hne : d.pageSize ≠ 0 := fun hzero => absurd (congrArg UInt32.toNat hzero) (Nat.ne_of_gt hpos)
  have hpage := d.pageSize.toNat_lt
  have hadd : Size.add image.length d.pageSize.toNat = .ok (image.length + d.pageSize.toNat) := by
    unfold Size.largestBuffer at hsize
    exact if_pos (by unfold Size.bound; omega)
  rw [pageCount, if_neg hne, hadd]
  rfl

theorem pageTotal_nil {size : Nat} (hsize : 0 < size) : pageTotal size [] = 0 := by
  rw [pageTotal, List.length_nil, Nat.zero_add]
  exact Nat.div_eq_of_lt (by omega)

/-- The parts of an image are its pages. -/
theorem chunks_eq {size : Nat} (hsize : 0 < size) (image : List UInt8) :
    chunks size image = (List.range (pageTotal size image)).map (pageOf size image) := by
  induction h : image.length using Nat.strongRecOn generalizing image with
  | _ n ih =>
    subst h
    cases image with
    | nil =>
      rw [pageTotal_nil hsize, chunks]
      rfl
    | cons b rest =>
      obtain ⟨s, rfl⟩ : ∃ s, size = s + 1 := ⟨size - 1, by omega⟩
      have hsucc : pageTotal (s + 1) (b :: rest) = pageTotal (s + 1) (rest.drop s) + 1 := by
        simp only [pageTotal, List.length_cons, List.length_drop]
        rw [← Nat.add_div_right _ hsize]
        by_cases hle : rest.length ≤ s
        · have hcut : rest.length - s = 0 := by omega
          rw [hcut, Nat.div_eq_of_lt_le (k := 1) (by omega) (by omega),
            Nat.div_eq_of_lt_le (k := 1) (by omega) (by omega)]
        · congr 1
          omega
      have hlt : (rest.drop s).length < (b :: rest).length := by
        rw [List.length_drop, List.length_cons]
        omega
      rw [chunks, Nat.add_sub_cancel, ih _ hlt _ rfl, hsucc, map_range_succ]
      refine congr (congrArg List.cons ?_) (List.map_congr_left fun page _ => ?_)
      · simp only [pageOf, Nat.zero_mul, List.drop_zero, List.take_succ_cons]
      · rw [pageOf, pageOf, List.drop_drop, Nat.add_mul page 1, Nat.one_mul, ← Nat.add_assoc,
          List.drop_succ_cons, Nat.add_comm s (page * (s + 1))]

end BadgeLink
