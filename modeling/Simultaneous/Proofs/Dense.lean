import Mathlib
import Simultaneous.Solver.Factorization

/-!
Stored squares as matrices.

The solver works on vectors of vectors. Here its operations on them are read entry by entry, and
the sums it takes from left to right become sums over index sets, which is the form in which the
factorization is reasoned about.
-/

namespace Simultaneous.Solver

variable {α β : Type} {n : ℕ}

/-- The matrix that a square stores. -/
def toMatrix (a : Square α n) : Matrix (Fin n) (Fin n) α :=
  fun i j => (a.get i).get j

lemma vector_ext {u v : Vector β n} (h : ∀ i, u.get i = v.get i) : u = v :=
  Vector.ext fun i hi => h ⟨i, hi⟩

lemma get_set (v : Vector β n) (r i : Fin n) (x : β) :
    (v.set r x r.isLt).get i = if i = r then x else v.get i := by
  simp only [get_eq_getElem, Vector.getElem_set, Fin.ext_iff, eq_comm]

lemma get_swap (v : Vector β n) (r l i : Fin n) :
    (v.swap r l r.isLt l.isLt).get i = v.get (Equiv.swap r l i) := by
  simp only [get_eq_getElem, Vector.getElem_swap, ← Fin.ext_iff, Equiv.swap_apply_def]
  split_ifs <;> rfl

/-- Away from its first place an exchange only writes over the second. -/
lemma get_set_get (v : Vector β n) {r i : Fin n} (hi : i ≠ r) (l : Fin n) :
    (v.set l (v.get r) l.isLt).get i = (v.swap r l r.isLt l.isLt).get i := by
  rw [get_set, get_swap]
  split_ifs with hl
  · rw [hl, Equiv.swap_apply_right]
  · rw [Equiv.swap_apply_of_ne_of_ne hi hl]

lemma get_map {γ : Type} (f : β → γ) (v : Vector β n) (i : Fin n) :
    (v.map f).get i = f (v.get i) := by
  simp only [get_eq_getElem, Vector.getElem_map]

lemma get_mapFinIdx {γ : Type} (v : Vector β n) (f : (i : ℕ) → β → i < n → γ) (i : Fin n) :
    (v.mapFinIdx f).get i = f i (v.get i) i.isLt := by
  simp only [get_eq_getElem, Vector.getElem_mapFinIdx]

/-! ### Sparse vectors -/

lemma get?_foldl_set (x : Vector α n) (i : ℕ) (l : List (Fin n)) (s : Sparse ℕ α) :
    (l.foldl (fun s i => s.set i.val (x.get i)) s).get? i =
      if h : ∃ hi : i < n, ⟨i, hi⟩ ∈ l then some (x.get ⟨i, h.1⟩) else s.get? i := by
  induction l generalizing s with
  | nil => simp
  | cons j l ih =>
    rw [List.foldl_cons, ih, Sparse.get?_set]
    by_cases hij : j.val = i
    · subst hij
      simp
    · have hne (hi : i < n) : (⟨i, hi⟩ : Fin n) ≠ j := fun h => hij (h ▸ rfl)
      simp [hij, hne]

/-- The entries of a vector are stored, and nothing else is. -/
lemma get?_toSparse [Zero α] (x : Vector α n) (i : ℕ) :
    (toSparse x).get? i = if h : i < n then some (x.get ⟨i, h⟩) else none := by
  rw [toSparse, get?_foldl_set]
  simp

lemma get_toSparse [Zero α] (x : Vector α n) (i : Fin n) : (toSparse x).get i.val = x.get i := by
  rw [Sparse.get, get?_toSparse, dif_pos i.isLt, Option.getD_some]

lemma get_segment_eq (n : ℕ) (b : Sparse ℕ α) : (segment n b).get = fun i => b.get i.val :=
  funext (get_segment b)

/-! ### Sums -/

/-- What is subtracted from left to right is subtracted as a sum. -/
lemma lessProducts_eq [Ring α] {k : ℕ} (t : α) (f g : Fin k → α) :
    lessProducts t f g = t - ∑ m, f m * g m := by
  unfold lessProducts
  induction k with
  | zero => simp
  | succ k ih => rw [Fin.foldl_succ_last, ih, Fin.sum_univ_castSucc, sub_sub]

lemma sum_castLE [AddCommMonoid β] {k : ℕ} (hk : k ≤ n) (f : Fin n → β) :
    ∑ m : Fin k, f (m.castLE hk) = ∑ m : Fin n with m.val < k, f m := by
  refine Finset.sum_bij (fun m _ => m.castLE hk) ?_ ?_ ?_ ?_
  · intro m _
    simp
  · intro m _ m' _ h
    simpa [Fin.ext_iff] using h
  · intro m hm
    exact ⟨⟨m, (Finset.mem_filter.mp hm).2⟩, Finset.mem_univ _, rfl⟩
  · intro m _
    rfl

lemma sum_lt_succ [AddCommMonoid β] (r : Fin n) (f : Fin n → β) :
    ∑ m : Fin n with m.val < r.val + 1, f m = ∑ m : Fin n with m.val < r.val, f m + f r := by
  have hset : (Finset.univ.filter fun m : Fin n => m.val < r.val + 1)
      = insert r (Finset.univ.filter fun m : Fin n => m.val < r.val) := by
    ext m
    simp only [Finset.mem_filter, Finset.mem_univ, true_and, Finset.mem_insert, Fin.ext_iff]
    omega
  rw [hset, Finset.sum_insert (by simp), add_comm]

lemma sum_lt_all [AddCommMonoid β] (f : Fin n → β) :
    ∑ m : Fin n with m.val < n, f m = ∑ m, f m := by
  simp

/-! ### Sizes -/

section Sizes

variable [Field α] [LinearOrder α] [IsStrictOrderedRing α]

lemma magnitude_eq_abs (x : α) : magnitude x = |x| := by
  unfold magnitude
  split_ifs with h
  · exact (abs_of_neg h).symm
  · exact (abs_of_nonneg (not_lt.mp h)).symm

lemma foldl_magnitude_le_iff (l : List α) (m t : α) :
    l.foldl (fun m x => if m < magnitude x then magnitude x else m) m ≤ t ↔
      m ≤ t ∧ ∀ x ∈ l, |x| ≤ t := by
  induction l generalizing m with
  | nil => simp
  | cons x l ih =>
    rw [List.foldl_cons, ih, magnitude_eq_abs, List.forall_mem_cons]
    split_ifs with h
    · exact ⟨fun ⟨hx, hl⟩ => ⟨h.le.trans hx, hx, hl⟩, fun ⟨_, hx, hl⟩ => ⟨hx, hl⟩⟩
    · exact ⟨fun ⟨hm, hl⟩ => ⟨hm, (not_lt.mp h).trans hm, hl⟩, fun ⟨hm, _, hl⟩ => ⟨hm, hl⟩⟩

lemma greatest_le_iff (v : Vector α n) (t : α) :
    greatest v ≤ t ↔ 0 ≤ t ∧ ∀ i, |v.get i| ≤ t := by
  unfold greatest
  rw [← Vector.foldl_toList, foldl_magnitude_le_iff]
  refine and_congr_right fun _ => ⟨fun h i => h _ ?_, fun h x hx => ?_⟩
  · rw [Vector.mem_toList_iff, get_eq_getElem]
    exact Vector.getElem_mem i.isLt
  · obtain ⟨i, hi, rfl⟩ := Vector.mem_iff_getElem.mp (Vector.mem_toList_iff.mp hx)
    exact h ⟨i, hi⟩

lemma greatest_nonneg (v : Vector α n) : 0 ≤ greatest v :=
  ((greatest_le_iff v _).mp le_rfl).1

lemma greatest_eq_zero_iff (v : Vector α n) : greatest v = 0 ↔ ∀ i, v.get i = 0 := by
  rw [← (greatest_nonneg v).ge_iff_eq', greatest_le_iff]
  simp

end Sizes

/-! ### The steps of the elimination, entry by entry -/

lemma reduced_eq [Ring α] (a : Square α n) (i j r : Fin n) :
    reduced a i j r =
      toMatrix a i j - ∑ m : Fin n with m.val < r.val, toMatrix a i m * toMatrix a m j := by
  unfold reduced
  rw [lessProducts_eq, sum_castLE r.isLt.le fun m => (a.get i).get m * (a.get m).get j]
  rfl

lemma toMatrix_reduceColumn [Sub α] [Mul α] (a : Square α n) (r i j : Fin n) :
    toMatrix (reduceColumn a r) i j =
      if r ≤ i ∧ j = r then reduced a i r r else toMatrix a i j := by
  unfold toMatrix reduceColumn
  rw [get_mapFinIdx]
  by_cases hi : r ≤ i
  · rw [if_pos (Fin.le_def.mp hi), get_set]
    simp [hi]
  · rw [if_neg (by simpa using hi), if_neg (by tauto)]

lemma toMatrix_reduceRow [Sub α] [Mul α] [Div α] (a : Square α n) (r i j : Fin n) :
    toMatrix (reduceRow a r) i j =
      if i = r ∧ r < j then reduced a r j r / toMatrix a r r else toMatrix a i j := by
  unfold toMatrix reduceRow
  rw [get_set]
  by_cases hi : i = r
  · subst hi
    rw [if_pos rfl, get_mapFinIdx]
    simp only [Fin.lt_def, true_and]
  · rw [if_neg hi, if_neg (by tauto)]

lemma toMatrix_swap (a : Square α n) (r l i j : Fin n) :
    toMatrix (a.swap r l r.isLt l.isLt) i j = toMatrix a (Equiv.swap r l i) j := by
  unfold toMatrix
  rw [get_swap]

end Simultaneous.Solver
