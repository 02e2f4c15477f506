import Mathlib
import Simultaneous.Proofs.Factorization
import Simultaneous.Proofs.Substitution

/-!
Which matrices can be factorized.

With tolerance 0 a factorization fails for two reasons only: a row of zeros, or a column that
depends on the columns before it. The steps that succeed show that their columns are independent,
and the step that fails shows a combination of columns that vanishes, which back substitution into
the finished rows of `U` finds.
-/

namespace Simultaneous.Solver

open Matrix
open Elimination (Factored)

variable {α : Type} {n : ℕ} [Field α]

/-! ### Columns -/

lemma linearIndepOn_col_iff (A : Matrix (Fin n) (Fin n) α) (S : Finset (Fin n)) :
    LinearIndepOn α A.col S ↔ ∀ v : Fin n → α, (∀ j ∉ S, v j = 0) → A *ᵥ v = 0 → v = 0 := by
  have hsum {v : Fin n → α} (hv : ∀ j ∉ S, v j = 0) : ∑ j ∈ S, v j • A.col j = A *ᵥ v := by
    ext i
    rw [Finset.sum_apply, mulVec, dotProduct]
    refine (Finset.sum_subset (Finset.subset_univ S) fun j _ hj => ?_).trans ?_
    · simp [hv j hj]
    · exact Finset.sum_congr rfl fun j _ => mul_comm _ _
  rw [linearIndepOn_finset_iff]
  refine ⟨fun h v hv hA => ?_, fun h g hg j hj => ?_⟩
  · ext j
    by_cases hj : j ∈ S
    · exact h v ((hsum hv).trans hA) j hj
    · exact hv j hj
  · have hv : ∀ j ∉ S, (if j ∈ S then g j else 0) = 0 := fun j hj => if_neg hj
    have hzero := h (fun j => if j ∈ S then g j else 0) hv (by
      rw [← hsum hv, ← hg]
      exact Finset.sum_congr rfl fun j hj => by rw [if_pos hj])
    simpa [hj] using congrFun hzero j

/-! ### Triangles -/

variable {a : Square α n} {v : Fin n → α} {k : ℕ}

/-- Back substitution: an entry vanishes with the rest of its column. -/
lemma eq_zero_of_upper_mulVec {i : Fin n}
    (h : ∀ m, i ≤ m → v m = 0 ∨ (upper a *ᵥ v) m = 0) : v i = 0 := by
  -- downwards, since row `i` holds the entries from `i` on
  induction i using WellFoundedGT.induction with
  | _ i ih =>
    rcases h i le_rfl with hi | hi
    · exact hi
    · rw [upper_mulVec, Finset.sum_eq_zero, add_zero] at hi
      · exact hi
      · intro m hm
        have hm := (Finset.mem_filter.mp hm).2
        rw [ih m hm fun m' hm' => h m' (hm.le.trans hm'), mul_zero]

lemma eq_zero_of_lower_mulVec (hd : ∀ i : Fin n, i.val < k → toMatrix a i i ≠ 0)
    (h : ∀ i : Fin n, i.val < k → (lower a *ᵥ v) i = 0) {i : Fin n} (hi : i.val < k) :
    v i = 0 := by
  induction i using WellFoundedLT.induction with
  | _ i ih =>
    have hz := h i hi
    rw [lower_mulVec, Finset.sum_eq_zero, zero_add] at hz
    · exact (mul_eq_zero.mp hz).resolve_left (hd i hi)
    · intro m hm
      have hm := (Finset.mem_filter.mp hm).2
      rw [ih m (Fin.lt_def.mpr hm) (hm.trans hi), mul_zero]

/-- Back substitution finds a vector that the rows above `r` annihilate and that ends in 1. -/
lemma exists_upper_mulVec_eq_zero (a : Square α n) (r : Fin n) :
    ∃ v : Fin n → α, v r = 1 ∧ (∀ j, r < j → v j = 0) ∧ ∀ m, m < r → (upper a *ᵥ v) m = 0 := by
  let unit : Vector α n := Vector.ofFn fun i => if i = r then 1 else 0
  let f : Factorization α n := ⟨a, Vector.ofFn id⟩
  have hup (m : Fin n) : (upper a *ᵥ (f.backward unit n le_rfl).get) m =
      if m = r then 1 else 0 :=
    ((backward_spec f unit le_rfl).1 m (by omega)).trans (get_ofFn _ m)
  have hbehind (j : Fin n) (hj : r < j) : (f.backward unit n le_rfl).get j = 0 :=
    eq_zero_of_upper_mulVec fun m hm => .inr <| by rw [hup, if_neg (hj.trans_le hm).ne']
  refine ⟨(f.backward unit n le_rfl).get, ?_, hbehind, fun m hm => by rw [hup, if_neg hm.ne]⟩
  have hr := hup r
  rw [if_pos rfl, upper_mulVec, Finset.sum_eq_zero, add_zero] at hr
  · exact hr
  · intro m hm
    rw [hbehind m (Finset.mem_filter.mp hm).2, mul_zero]

/-! ### The invariant on vectors -/

lemma exchangeFirst_mulVec (p : Vector (Fin n) n) (a : Square α n) (hk : k ≤ n) (v : Fin n → α)
    (i : Fin n) :
    (toMatrix (exchangeFirst p a k hk) *ᵥ v) i = (toMatrix a *ᵥ v) (origin p k hk i) := by
  simp only [mulVec, dotProduct, toMatrix, get_exchangeFirst]

/-- The exchanged equations have the solutions of the original ones. -/
lemma exchangeFirst_mulVec_eq_iff (p : Vector (Fin n) n) (a : Square α n) (b : Vector α n)
    (hk : k ≤ n) (v : Fin n → α) :
    toMatrix (exchangeFirst p a k hk) *ᵥ v = (exchangeFirst p b k hk).get ↔
      toMatrix a *ᵥ v = b.get := by
  refine ⟨fun h => funext fun i => ?_, fun h => funext fun i => ?_⟩
  · have hi := congrFun h ((origin p k hk).symm i)
    rwa [exchangeFirst_mulVec, get_exchangeFirst, Equiv.apply_symm_apply] at hi
  · rw [exchangeFirst_mulVec, get_exchangeFirst, h]

lemma exchangeFirst_mulVec_eq_zero_iff (p : Vector (Fin n) n) (a : Square α n) (hk : k ≤ n)
    (v : Fin n → α) :
    toMatrix (exchangeFirst p a k hk) *ᵥ v = 0 ↔ toMatrix a *ᵥ v = 0 := by
  have h := exchangeFirst_mulVec_eq_iff p a (Vector.ofFn 0) hk v
  have hzero : (Vector.ofFn (0 : Fin n → α)).get = 0 := funext fun i => get_ofFn _ i
  rwa [hzero, show (exchangeFirst p (Vector.ofFn (0 : Fin n → α)) k hk).get = 0 from
    funext fun i => by rw [get_exchangeFirst, hzero]; rfl] at h

variable {s : Vector α n} {w : Elimination α n} {hk : k ≤ n}

/-- Where the product of the finished parts holds, it can be applied one factor at a time. -/
lemma exchangeFirst_mulVec_of_product
    (h : ∀ i j, v j ≠ 0 → toMatrix (exchangeFirst w.pivots a k hk) i j =
      ∑ m : Fin n with m.val < k, lower w.lu i m * upper w.lu m j) (i : Fin n) :
    (toMatrix (exchangeFirst w.pivots a k hk) *ᵥ v) i =
      (lower w.lu *ᵥ fun m => if m.val < k then (upper w.lu *ᵥ v) m else 0) i := by
  have hterm (j : Fin n) : toMatrix (exchangeFirst w.pivots a k hk) i j * v j =
      ∑ m : Fin n with m.val < k, lower w.lu i m * (upper w.lu m j * v j) := by
    by_cases hj : v j = 0
    · simp [hj]
    · rw [h i j hj, Finset.sum_mul]
      exact Finset.sum_congr rfl fun m _ => mul_assoc _ _ _
  simp only [mulVec, dotProduct, hterm]
  rw [Finset.sum_comm]
  simp only [mul_ite, mul_zero, ← Finset.mul_sum, Finset.sum_filter]

/-- The columns of the steps taken are independent. -/
lemma Elimination.Factored.eq_zero (h : Factored a s w k hk)
    (hv : ∀ j : Fin n, k ≤ j.val → v j = 0) (hz : toMatrix a *ᵥ v = 0) : v = 0 := by
  have hlow (i : Fin n) :
      (lower w.lu *ᵥ fun m => if m.val < k then (upper w.lu *ᵥ v) m else 0) i = 0 := by
    rw [← exchangeFirst_mulVec_of_product fun i j hj =>
      h.finished i j (.inr (not_le.mp fun hle => hj (hv j hle)))]
    exact congrFun ((exchangeFirst_mulVec_eq_zero_iff w.pivots a hk v).mpr hz) i
  ext i
  refine eq_zero_of_upper_mulVec (a := w.lu) fun m _ => ?_
  rcases lt_or_ge m.val k with hm | hm
  · have := eq_zero_of_lower_mulVec h.diagonal_ne (fun i _ => hlow i) hm
    rw [if_pos hm] at this
    exact .inr this
  · exact .inl (hv m hm)

/-- If the reduced column of a step vanishes from the diagonal on, then that column of the matrix
depends on those before it. -/
lemma Elimination.Factored.exists_mulVec_eq_zero {r : Fin n} (h : Factored a s w r r.isLt.le)
    (hr : ∀ i, r ≤ i → reduced w.lu i r r = 0) :
    ∃ v : Fin n → α, v r = 1 ∧ (∀ j, r < j → v j = 0) ∧ toMatrix a *ᵥ v = 0 := by
  obtain ⟨v, hone, hbehind, hup⟩ := exists_upper_mulVec_eq_zero w.lu r
  refine ⟨v, hone, hbehind, ?_⟩
  rw [← exchangeFirst_mulVec_eq_zero_iff w.pivots a r.isLt.le v]
  ext i
  rw [exchangeFirst_mulVec_of_product fun i j hj => ?_]
  · have hzero : (fun m : Fin n => if m.val < r.val then (upper w.lu *ᵥ v) m else 0) = 0 := by
      ext m
      exact ite_eq_right_iff.mpr fun hm => hup m (Fin.lt_def.mpr hm)
    rw [hzero, mulVec_zero]
  · rcases lt_or_ge j r with hj' | hj'
    · exact h.finished i j (.inr hj')
    · obtain rfl : j = r := (not_lt.mp fun hlt => hj (hbehind j hlt)).antisymm hj'
      rcases lt_or_ge i j with hi | hi
      · exact h.finished i j (.inl hi)
      · have hred := hr i hi
        rw [reduced_eq, sub_eq_zero] at hred
        rw [h.untouched i j hi le_rfl, sum_lower_mul_upper hi le_rfl, hred]

/-! ### Failures -/

variable [LinearOrder α] {tolerance : α}

lemma scales_ok (h : scales tolerance a = .ok s) :
    s = a.map greatest ∧ ∀ i, tolerance < greatest (a.get i) :=
  (scales_accepts h).imp_right fun hall i => not_le.mp (hall i)

/-- The scales stay positive, whichever rows are exchanged. -/
lemma Elimination.Factored.scale_pos (h : Factored a s w k hk)
    (hs : scales tolerance a = .ok s) (htol : 0 ≤ tolerance) (i : Fin n) :
    0 < w.scale.get i := by
  obtain ⟨rfl, hpos⟩ := scales_ok hs
  rw [h.scale_eq, get_exchangeFirst, get_map]
  exact htol.trans_lt (hpos _)

variable [IsStrictOrderedRing α]

lemma get_eq_zero_iff (a : Square α n) (i : Fin n) :
    greatest (a.get i) ≤ 0 ↔ ∀ j, toMatrix a i j = 0 := by
  rw [(greatest_nonneg _).ge_iff_eq', greatest_eq_zero_iff]
  rfl

/-- A factorization with tolerance 0 that fails names the first row of zeros, or else the first
column that depends on those before it. -/
lemma factorize_zero_error {f : Failure} (h : factorize 0 a = .error f) :
    (∃ i : Fin n, f = .singular i ∧ IsLeast {i | ∀ j, toMatrix a i j = 0} i) ∨
      ∃ c : Fin n, f = .illConditioned (.zeroPivot c) ∧ (∀ i, ∃ j, toMatrix a i j ≠ 0) ∧
        IsLeast {c | ¬LinearIndepOn α (toMatrix a).col (Set.Iic c)} c := by
  rw [factorize_eq] at h
  cases hs : scales 0 a with
  | error g =>
    rw [hs] at h
    obtain ⟨i, rfl, hi⟩ := scales_error hs
    simp only [get_eq_zero_iff] at hi
    exact .inl ⟨i, (Except.error.inj h).symm, hi⟩
  | ok s =>
    rw [hs] at h
    cases hw : (Elimination.start a s).steps 0 n le_rfl with
    | ok w => simp [hw, Except.bind] at h
    | error g =>
      simp only [hw, Except.bind] at h
      obtain rfl : g = f := Except.error.inj h
      obtain ⟨r, v, hv, hstep⟩ := steps_error le_rfl hw
      obtain ⟨rfl, hoffer⟩ := step_error hstep
      have hfac := factored_steps le_rfl r.isLt.le hv
      have hrow (i : Fin n) : ∃ j, toMatrix a i j ≠ 0 := by
        by_contra hall
        push Not at hall
        exact ((get_eq_zero_iff a i).mpr hall).not_gt ((scales_ok hs).2 i)
      refine .inr ⟨r, rfl, hrow, ?_, ?_⟩
      · -- the column of the failing step depends on those before it
        change ¬LinearIndepOn α (toMatrix a).col (Set.Iic r)
        rw [← Finset.coe_Iic, linearIndepOn_col_iff]
        intro hindep
        obtain ⟨u, hone, hbehind, hz⟩ := hfac.exists_mulVec_eq_zero fun i hi => by
          have hzero := abs_nonpos_iff.mp (hoffer i hi)
          exact (div_eq_zero_iff.mp hzero).resolve_right (hfac.scale_pos hs le_rfl i).ne'
        have hzero : u = 0 := by
          refine hindep u (fun j hj => hbehind j (not_le.mp fun hle => hj ?_)) hz
          exact Finset.mem_Iic.mpr hle
        rw [hzero] at hone
        exact zero_ne_one hone
      · -- the columns of the steps before are independent
        intro c hc
        by_contra hlt
        refine hc ?_
        rw [← Finset.coe_Iic, linearIndepOn_col_iff]
        intro u hu hz
        refine hfac.eq_zero (fun j hj => hu j fun hmem => ?_) hz
        have := Fin.le_def.mp (Finset.mem_Iic.mp hmem)
        have := Fin.lt_def.mp (not_le.mp hlt)
        omega

/-- A factorization solves the system, and the solution is the only one. -/
lemma mulVec_eq_iff_of_factorize (htol : 0 ≤ tolerance) {f : Factorization α n}
    (h : factorize tolerance a = .ok f) (b : Vector α n) (x : Fin n → α) :
    toMatrix a *ᵥ x = b.get ↔ x = (f.solve b).get := by
  obtain ⟨s, w, -, hw, rfl⟩ := factorize_ok h
  have hf := factored_steps htol le_rfl hw
  have hsolve : toMatrix a *ᵥ ((⟨w.lu, w.pivots⟩ : Factorization α n).solve b).get = b.get := by
    rw [← exchangeFirst_mulVec_eq_iff w.pivots a b le_rfl]
    change toMatrix (exchangeAll w.pivots a) *ᵥ _ = (exchangeAll w.pivots b).get
    rw [← hf.lower_mul_upper, ← mulVec_mulVec]
    exact lower_mulVec_upper_mulVec_solve (f := ⟨w.lu, w.pivots⟩)
      (fun r => hf.pivot_ge r r.isLt) (fun r => hf.diagonal_ne r r.isLt) b
  refine ⟨fun hx => ?_, fun hx => hx ▸ hsolve⟩
  rw [← sub_eq_zero]
  refine hf.eq_zero (fun j hj => absurd j.isLt hj.not_gt) ?_
  rw [mulVec_sub, hx, hsolve, sub_self]

lemma mulVec_injective_of_factorize (htol : 0 ≤ tolerance) {f : Factorization α n}
    (h : factorize tolerance a = .ok f) : Function.Injective (toMatrix a).mulVec := by
  intro x y hxy
  have hy := (mulVec_eq_iff_of_factorize htol h (Vector.ofFn (toMatrix a *ᵥ y)) y).mp
    (funext fun i => (get_ofFn _ i).symm)
  have hx := (mulVec_eq_iff_of_factorize htol h (Vector.ofFn (toMatrix a *ᵥ y)) x).mp
    (hxy.trans (funext fun i => (get_ofFn _ i).symm))
  exact hx.trans hy.symm

end Simultaneous.Solver
