import Mathlib
import Simultaneous.Proofs.Classification
import Simultaneous.Proofs.Passes
import Simultaneous.Proofs.Refinement

/-!
Refinement as a stationary iteration.

Over an ordered field the passes of a refinement are the iteration
`x (k + 1) = x k + M⁻¹ (b - A x k)` from 0, where `M` is the matrix that was factorized and `A` the
matrix to solve with, which may differ. A solver returns the iterate behind the first ratio of the
norms of correction and solution that is below the convergence ratio.
-/

namespace Simultaneous.Solver

open Matrix
open Number (Ratio exceeds reaches)

variable {α : Type} [Field α] {n : ℕ}

/-! ### The iteration -/

/-- The iterates of the stationary iteration for `A x = b` with the splitting matrix `M`. -/
noncomputable def stationary (M A : Matrix (Fin n) (Fin n) α) (b : Fin n → α) : ℕ → Fin n → α
  | 0 => 0
  | k + 1 => stationary M A b k + M⁻¹ *ᵥ (b - A *ᵥ stationary M A b k)

variable [LinearOrder α]

/-- The maximum norm. -/
def supNorm (x : Fin n → α) : α := Finset.univ.fold max 0 fun i => |x i|

/-- The norm of the correction of the iterate `k`, to the norm of the iterate. -/
noncomputable def stationaryRatio (M A : Matrix (Fin n) (Fin n) α) (b : Fin n → α) (k : ℕ) :
    Ratio α :=
  ⟨supNorm (M⁻¹ *ᵥ (b - A *ᵥ stationary M A b k)), supNorm (stationary M A b k)⟩

variable [IsStrictOrderedRing α]

lemma greatest_eq_supNorm (v : Vector α n) : greatest v = supNorm v.get :=
  eq_of_forall_ge_iff fun t => by
    rw [greatest_le_iff, supNorm, Finset.fold_max_le]
    simp

/-! ### Iterations with the matrix itself -/

section Same

variable {M : Matrix (Fin n) (Fin n) α} (hM : IsUnit M) (b : Fin n → α) (k : ℕ)

include hM

omit [LinearOrder α] [IsStrictOrderedRing α] in
lemma mulVec_stationary : M *ᵥ stationary M M b (k + 1) = b := by
  rw [stationary, mulVec_add, mulVec_mulVec, mul_nonsing_inv _ ((isUnit_iff_isUnit_det _).mp hM),
    one_mulVec, add_sub_cancel]

lemma stationaryRatio_self :
    stationaryRatio M M b (k + 1) = ⟨0, supNorm (stationary M M b (k + 1))⟩ := by
  have hzero : supNorm (0 : Fin n → α) = 0 := by
    refine le_antisymm ((Finset.fold_max_le _).mpr ⟨le_rfl, fun i _ => ?_⟩)
      ((Finset.le_fold_max _).mpr (.inl le_rfl))
    exact abs_zero.le
  rw [stationaryRatio, mulVec_stationary hM, sub_self, mulVec_zero, hzero]

lemma exceeds_stationaryRatio_self {bound : α} (h : 0 ≤ bound) :
    exceeds (stationaryRatio M M b (k + 1)) bound = false := by
  rw [stationaryRatio_self hM]
  exact exceeds_zero h _

lemma reaches_stationaryRatio_self {bound : α} (h : 0 < bound) :
    reaches (stationaryRatio M M b (k + 1)) bound = false := by
  rw [stationaryRatio_self hM]
  exact reaches_zero h _

end Same

/-! ### The passes -/

variable {tolerance : α} {m : Square α n} {f : Factorization α n}

/-- Substitution multiplies with the inverse. -/
lemma get_solve_eq (htol : 0 ≤ tolerance) (hf : factorize tolerance m = .ok f) (r : Vector α n) :
    (f.solve r).get = (toMatrix m)⁻¹ *ᵥ r.get := by
  have hdet : IsUnit (toMatrix m).det :=
    (Matrix.isUnit_iff_isUnit_det _).mp (isUnit_of_factorize htol hf)
  refine ((mulVec_eq_iff_of_factorize htol hf r _).mp ?_).symm
  rw [mulVec_mulVec, mul_nonsing_inv _ hdet, one_mulVec]

variable (htol : 0 ≤ tolerance) (hf : factorize tolerance m = .ok f) (a : Square α n)
  (b : Vector α n)

include htol hf

/-- A pass that corrects an iterate adds the correction of the iteration. -/
lemma get_correction (k : ℕ)
    (hx : (approximation f a b k).get = stationary (toMatrix m) (toMatrix a) b.get k) :
    (correction f a b k).get =
      (toMatrix m)⁻¹ *ᵥ (b.get - toMatrix a *ᵥ stationary (toMatrix m) (toMatrix a) b.get k) := by
  rw [correction, get_solve_eq htol hf]
  congr 1
  cases k with
  | zero => rw [stationary, mulVec_zero, sub_zero, lacking]
  | succ k =>
    rw [← hx]
    exact funext (get_residual a b _)

lemma get_approximation (k : ℕ) :
    (approximation f a b k).get = stationary (toMatrix m) (toMatrix a) b.get k := by
  induction k with
  | zero => exact funext fun i => by simp [approximation, stationary, get_eq_getElem]
  | succ k ih =>
    rw [approximation_succ, stationary, ← get_correction htol hf a b k ih, ← ih]
    exact funext (get_correct _ _)

lemma ratio_passAt (k : ℕ) :
    (passAt f a b k).ratio = stationaryRatio (toMatrix m) (toMatrix a) b.get k := by
  have hx := get_approximation htol hf a b k
  rw [passAt, Pass.ratio, greatest_eq_supNorm, greatest_eq_supNorm, hx,
    get_correction htol hf a b k hx, stationaryRatio]

omit htol hf

/-! ### Solutions -/

/-- **The stationary iteration**: what a solver returns for `A x = b` after a setup with `M`. The
two may differ. If they do not, what is returned solves the system. -/
theorem solve_stationary (s : Solver α) (htol : 0 ≤ s.settings.pivotTolerance) {n : ℕ}
    (hn : 1 ≤ n) {m : Sparse (ℕ × ℕ) α} {s' : Solver α} (hsetup : s.setup n m = .ok s')
    (a : Sparse (ℕ × ℕ) α) (b : Sparse ℕ α) :
    let x := stationary (leading n m) (leading n a) (fun i => b.get i.val)
    let ratio := stationaryRatio (leading n m) (leading n a) (fun i => b.get i.val)
    let result := (s'.solve a b).value
    (s.settings.maxIterations = 0 →
        result.2 = .error (.illConditioned (.noConvergence 0))) ∧
      (1 ≤ s.settings.maxIterations →
        (result.2 = .error (.illConditioned .inaccurateDecomposition) ↔
          exceeds (ratio 1) s.settings.illConditionedRatio = true)) ∧
      (1 ≤ s.settings.maxIterations →
        exceeds (ratio 1) s.settings.illConditionedRatio = false →
        (∀ k, IsLeast {k | 1 ≤ k ∧ reaches (ratio k) s.settings.convergenceRatio = false} k →
          k ≤ s.settings.maxIterations →
          (∃ y, result.2 = .ok y ∧
            ∀ i, y.get? i = if h : i < n then some (x (k + 1) ⟨i, h⟩) else none) ∧
          result.1.iterations = k + 1 ∧ result.1.ratio = ratio k) ∧
        ((∀ k, 1 ≤ k → k ≤ s.settings.maxIterations →
            reaches (ratio k) s.settings.convergenceRatio = true) →
          result.2 = .error (.illConditioned (.noConvergence s.settings.maxIterations)))) ∧
      (leading n a = leading n m → 0 < s.settings.convergenceRatio →
        0 ≤ s.settings.illConditionedRatio → 1 ≤ s.settings.maxIterations →
        result.1.iterations = 2 ∧ ∃ y, result.2 = .ok y ∧
          leading n a *ᵥ (fun i => y.get i.val) = fun i => b.get i.val) := by
  obtain ⟨f, hf, rfl⟩ := (setup_eq_ok_iff s s' m).mp hsetup
  have hends := refine_ends (Nat.one_le_iff_ne_zero.mp hn) s.settings f (block n a) (segment n b)
  have hx := get_approximation htol hf (block n a) (segment n b)
  have hratio := ratio_passAt htol hf (block n a) (segment n b)
  simp only [toMatrix_block, get_segment_eq] at hx hratio
  simp only [← hratio]
  have hresult {r} (h : (refine s.settings f (block n a) (segment n b)).outcome = r) :
      (Solver.solve { s with dim := n, factors := f } a b).value.2 =
        (r.map toSparse).mapError .illConditioned := by
    rw [← h]
    rfl
  refine ⟨fun hmax => ?_, fun hmax => ?_, fun hmax htrusted => ⟨fun k hk hle => ?_, fun hall => ?_⟩,
    fun hsame hconv hill hmax => ?_⟩
  · exact hresult (hends.outcome_of_eq_zero hmax)
  · rw [← hends.outcome_eq_inaccurate_iff hmax, hresult rfl]
    rcases (refine s.settings f (block n a) (segment n b)).outcome with _ | _ <;>
      simp [Except.map, Except.mapError]
  · obtain ⟨hok, hiterations, hlast⟩ := hends.of_isLeast htrusted hk hle
    refine ⟨⟨_, hresult hok, fun i => ?_⟩, hiterations, hlast⟩
    rw [get?_toSparse, hx]
  · exact hresult (hends.outcome_of_forall_reaches htrusted hall)
  · -- the first correction vanishes
    have hunit : IsUnit (leading n m) := by
      rw [← toMatrix_block]
      exact isUnit_of_factorize htol hf
    have hfirst := hratio 1
    rw [hsame] at hfirst
    have htrusted := hfirst ▸ exceeds_stationaryRatio_self hunit (fun i => b.get i.val) 0 hill
    have hstop := hfirst ▸ reaches_stationaryRatio_self hunit (fun i => b.get i.val) 0 hconv
    obtain ⟨hok, hiterations, -⟩ :=
      hends.of_isLeast htrusted ⟨⟨le_rfl, hstop⟩, fun k hk => hk.1⟩ hmax
    refine ⟨hiterations, _, hresult hok, ?_⟩
    simp only [get_toSparse, hx, hsame]
    exact mulVec_stationary hunit _ 1

/-- Against half of the factorized matrix the first correction is half of the solution, which is
too much here. Against the matrix itself the solver solves. -/
theorem solve_stationary_half :
    let solver : Solver ℚ := .new ⟨1 / 10, 1 / 3, 5, 0⟩
    let whole := ((Sparse.empty (0 : ℚ)).set (0, 1) 2).set (1, 0) 2
    let half := ((Sparse.empty (0 : ℚ)).set (0, 1) 1).set (1, 0) 1
    let b := ((Sparse.empty (0 : ℚ)).set 0 16).set 1 8
    let prepared : Solver ℚ :=
      { solver with dim := 2, factors := ⟨#v[#v[2, 0], #v[0, 2]], #v[1, 1]⟩ }
    solver.setup 2 whole = .ok prepared ∧
      (prepared.solve half b).value.2 = .error (.illConditioned .inaccurateDecomposition) ∧
      exceeds (stationaryRatio (leading 2 whole) (leading 2 half) (fun i => b.get i.val) 1)
        (1 / 3) = true ∧
      ∃ y, (prepared.solve whole b).value.2 = .ok y ∧
        leading 2 whole *ᵥ (fun i => y.get i.val) = fun i => b.get i.val := by
  intro solver whole half b prepared
  have hsetup : solver.setup 2 whole = .ok prepared :=
    (setup_eq_ok_iff _ _ _).mpr ⟨⟨#v[#v[2, 0], #v[0, 2]], #v[1, 1]⟩, by cbv, rfl⟩
  have herror : (prepared.solve half b).value.2 =
      .error (.illConditioned .inaccurateDecomposition) := by cbv
  have hhalf := solve_stationary solver (le_refl 0) (by decide) hsetup half b
  have hwhole := solve_stationary solver (le_refl 0) (by decide) hsetup whole b
  refine ⟨hsetup, herror, (hhalf.2.1 (Nat.one_le_ofNat : 1 ≤ 5)).mp herror, ?_⟩
  exact (hwhole.2.2.2 rfl (by norm_num [solver, Solver.new]) (by norm_num [solver, Solver.new])
    (Nat.one_le_ofNat : 1 ≤ 5)).2

end Simultaneous.Solver
