import Mathlib
import Simultaneous.Proofs.Singularity
import Simultaneous.Proofs.Stages

/-!
Which matrices a solver takes.

With tolerance 0 the outcome of a setup tells three kinds of matrices apart: those with a row of
zeros, those with a first column that is a combination of the columns before it, and those that
can be inverted. The outcome names the row or the column.
-/

namespace Simultaneous.Solver

open Matrix

variable {α : Type} {n : ℕ}

/-- The leading block of a sparse matrix. -/
def leading (n : ℕ) (a : Sparse (ℕ × ℕ) α) : Matrix (Fin n) (Fin n) α :=
  .of fun i j => a.get (i.val, j.val)

lemma toMatrix_block (n : ℕ) (a : Sparse (ℕ × ℕ) α) : toMatrix (block n a) = leading n a :=
  Matrix.ext fun i j => get_block a i j

variable [Field α]

/-! ### The first dependent column -/

lemma linearIndepOn_Iio (v : Fin n → Fin n → α) {c : Fin n}
    (h : ∀ d < c, LinearIndepOn α v (Set.Iic d)) : LinearIndepOn α v (Set.Iio c) := by
  rcases Nat.eq_zero_or_pos c.val with hc | hc
  · have hempty : Set.Iio c = ∅ := by
      ext d
      simp [Fin.lt_def, hc]
    rw [hempty]
    exact linearIndepOn_empty α v
  · let d : Fin n := ⟨c - 1, by omega⟩
    have hd : Set.Iio c = Set.Iic d := by
      ext e
      simp only [Set.mem_Iio, Set.mem_Iic, Fin.lt_def, Fin.le_def, d]
      omega
    rw [hd]
    exact h d (Fin.lt_def.mpr (by simp only [d]; omega))

/-- The first column that depends on those up to it is a combination of those before it. -/
lemma isLeast_dependent_iff (v : Fin n → Fin n → α) (c : Fin n) :
    IsLeast {c | ¬LinearIndepOn α v (Set.Iic c)} c ↔
      LinearIndepOn α v (Set.Iio c) ∧ v c ∈ Submodule.span α (v '' Set.Iio c) := by
  have hinsert : LinearIndepOn α v (Set.Iic c) ↔
      LinearIndepOn α v (Set.Iio c) ∧ v c ∉ Submodule.span α (v '' Set.Iio c) := by
    rw [← Set.Iio_insert, linearIndepOn_insert (by simp)]
  refine ⟨fun ⟨hdep, hleast⟩ => ?_, fun ⟨hindep, hspan⟩ => ⟨?_, fun d hd => ?_⟩⟩
  · have hindep : LinearIndepOn α v (Set.Iio c) :=
      linearIndepOn_Iio v fun d hd => by_contra fun h => (hleast h).not_gt hd
    refine ⟨hindep, by_contra fun hspan => hdep ?_⟩
    exact hinsert.mpr ⟨hindep, hspan⟩
  · exact fun h => (hinsert.mp h).2 hspan
  · by_contra hlt
    refine hd (hindep.mono fun e he => ?_)
    exact (Set.mem_Iic.mp he).trans_lt (not_le.mp hlt)

/-! ### Outcomes -/

variable {A : Matrix (Fin n) (Fin n) α}

lemma not_isUnit_of_row_eq_zero {i : Fin n} (h : A i = 0) : ¬IsUnit A := by
  rw [Matrix.isUnit_iff_isUnit_det, isUnit_iff_ne_zero, not_not]
  exact det_eq_zero_of_row_eq_zero i fun j => congrFun h j

lemma not_isUnit_of_dependent {S : Set (Fin n)} (h : ¬LinearIndepOn α A.col S) : ¬IsUnit A := by
  rw [← Matrix.linearIndependent_cols_iff_isUnit]
  exact fun hcols => h (hcols.linearIndepOn S)

variable [LinearOrder α] [IsStrictOrderedRing α] {tolerance : α} {a : Square α n}

lemma isUnit_of_factorize (htol : 0 ≤ tolerance) {f : Factorization α n}
    (h : factorize tolerance a = .ok f) : IsUnit (toMatrix a) :=
  Matrix.mulVec_injective_iff_isUnit.mp (mulVec_injective_of_factorize htol h)

/-- With tolerance 0 a matrix is factorized just if it can be inverted. -/
lemma factorize_zero_ok_iff : (∃ f, factorize 0 a = .ok f) ↔ IsUnit (toMatrix a) := by
  refine ⟨fun ⟨f, hf⟩ => isUnit_of_factorize le_rfl hf, fun h => ?_⟩
  cases hf : factorize 0 a with
  | ok f => exact ⟨f, rfl⟩
  | error e =>
    rcases factorize_zero_error hf with ⟨i, -, hi, -⟩ | ⟨c, -, -, hc, -⟩
    · exact absurd h (not_isUnit_of_row_eq_zero (funext hi))
    · exact absurd h (not_isUnit_of_dependent hc)

lemma factorize_zero_singular_iff (i : ℕ) : factorize 0 a = .error (.singular i) ↔
    ∃ h : i < n, IsLeast {i | toMatrix a i = 0} ⟨i, h⟩ := by
  have hrow (i : Fin n) : toMatrix a i = 0 ↔ ∀ j, toMatrix a i j = 0 := funext_iff
  simp only [hrow]
  refine ⟨fun h => ?_, fun ⟨hi, hleast⟩ => ?_⟩
  · rcases factorize_zero_error h with ⟨k, hk, hleast⟩ | ⟨c, hc, -⟩
    · obtain rfl := Failure.singular.inj hk
      exact ⟨k.isLt, hleast⟩
    · exact nomatch hc
  · cases hf : factorize 0 a with
    | ok f =>
      exact absurd (isUnit_of_factorize le_rfl hf)
        (not_isUnit_of_row_eq_zero (funext hleast.1))
    | error e =>
      rcases factorize_zero_error hf with ⟨k, rfl, hk⟩ | ⟨c, -, hrows, -⟩
      · rw [hk.unique hleast]
      · obtain ⟨j, hj⟩ := hrows ⟨i, hi⟩
        exact absurd (hleast.1 j) hj

lemma factorize_zero_zeroPivot_iff (c : ℕ) :
    factorize 0 a = .error (.illConditioned (.zeroPivot c)) ↔
      (∀ i, toMatrix a i ≠ 0) ∧
        ∃ h : c < n, IsLeast {c | ¬LinearIndepOn α (toMatrix a).col (Set.Iic c)} ⟨c, h⟩ := by
  have hrow (i : Fin n) : toMatrix a i ≠ 0 ↔ ∃ j, toMatrix a i j ≠ 0 := Function.ne_iff
  simp only [hrow]
  refine ⟨fun h => ?_, fun ⟨hrows, hc, hleast⟩ => ?_⟩
  · rcases factorize_zero_error h with ⟨k, hk, -⟩ | ⟨k, hk, hrows, hleast⟩
    · exact nomatch hk
    · obtain rfl := Conditioning.zeroPivot.inj (Failure.illConditioned.inj hk)
      exact ⟨hrows, k.isLt, hleast⟩
  · cases hf : factorize 0 a with
    | ok f =>
      exact absurd (isUnit_of_factorize le_rfl hf) (not_isUnit_of_dependent hleast.1)
    | error e =>
      rcases factorize_zero_error hf with ⟨k, -, hk, -⟩ | ⟨k, rfl, -, hk⟩
      · obtain ⟨j, hj⟩ := hrows k
        exact absurd (hk j) hj
      · rw [hk.unique hleast]

/-! ### Classification -/

/-- **Classification**: with tolerance 0 a setup fails at the first row of zeros if there is one,
else at the first column that is a combination of the independent columns before it, and it
succeeds just if the matrix can be inverted. -/
theorem setup_classifies (s : Solver α) (htol : s.settings.pivotTolerance = 0) (n : ℕ)
    (a : Sparse (ℕ × ℕ) α) :
    (∀ i, s.setup n a = .error (.singular i) ↔
        ∃ h : i < n, IsLeast {i | leading n a i = 0} ⟨i, h⟩) ∧
      (∀ c, s.setup n a = .error (.illConditioned (.zeroPivot c)) ↔
        (∀ i, leading n a i ≠ 0) ∧ ∃ h : c < n,
          LinearIndepOn α (leading n a).col (Set.Iio ⟨c, h⟩) ∧
            (leading n a).col ⟨c, h⟩ ∈
              Submodule.span α ((leading n a).col '' Set.Iio ⟨c, h⟩)) ∧
      ((∃ s', s.setup n a = .ok s') ↔ IsUnit (leading n a)) := by
  simp only [setup_eq_error_iff, setup_eq_ok_iff, htol, ← toMatrix_block,
    ← isLeast_dependent_iff]
  refine ⟨factorize_zero_singular_iff, factorize_zero_zeroPivot_iff, ?_⟩
  rw [← factorize_zero_ok_iff]
  exact ⟨fun ⟨_, f, hf, _⟩ => ⟨f, hf⟩, fun ⟨f, hf⟩ => ⟨_, f, hf, rfl⟩⟩

/-- A matrix that needs an exchange of rows is taken, and one whose second column is twice the
first is not. -/
theorem setup_classifies_two_by_two :
    let solver : Solver ℚ := .new ⟨1 / 10, 1 / 2, 1, 0⟩
    let exchanged := ((Sparse.empty (0 : ℚ)).set (0, 1) 3).set (1, 0) 2
    let doubled := ((Sparse.empty (1 : ℚ)).set (0, 1) 2).set (1, 1) 2
    (∃ s', solver.setup 2 exchanged = .ok s') ∧ IsUnit (leading 2 exchanged) ∧
      solver.setup 2 doubled = .error (.illConditioned (.zeroPivot 1)) ∧
      (leading 2 doubled).col 1 ∈ Submodule.span ℚ ((leading 2 doubled).col '' Set.Iio 1) := by
  intro solver exchanged doubled
  have hok : ∃ s', solver.setup 2 exchanged = .ok s' :=
    ⟨_, (setup_eq_ok_iff _ _ _).mpr ⟨⟨#v[#v[2, 0], #v[0, 3]], #v[1, 1]⟩, by cbv, rfl⟩⟩
  have herror : solver.setup 2 doubled = .error (.illConditioned (.zeroPivot 1)) := by cbv
  exact ⟨hok, (setup_classifies solver rfl 2 exchanged).2.2.mp hok, herror,
    (((setup_classifies solver rfl 2 doubled).2.1 1).mp herror).2.2.2⟩

end Simultaneous.Solver
