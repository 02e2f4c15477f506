import Mathlib
import Simultaneous.Proofs.Exact
import Simultaneous.Proofs.Passes
import Simultaneous.Proofs.Singularity
import Simultaneous.Solver.Basic

/-!
Refinement in exact arithmetic.

The first correction vanishes there, so that a solver whose matrix could be factorized returns the
one solution there is, after a single pass.
-/

namespace Simultaneous.Solver

open Matrix
open Number (Ratio exceeds reaches)

variable {α : Type} [Field α] [LinearOrder α] {n : ℕ}

lemma exceeds_zero {bound : α} (h : 0 ≤ bound) (x : α) :
    exceeds (⟨0, x⟩ : Ratio α) bound = false := by
  simp [exceeds, h]

lemma reaches_zero {bound : α} (h : 0 < bound) (x : α) :
    reaches (⟨0, x⟩ : Ratio α) bound = false := by
  simp [reaches, h]

omit [LinearOrder α] in
lemma get_residual (a : Square α n) (b x : Vector α n) (i : Fin n) :
    (residual a b x).get i = b.get i - (toMatrix a *ᵥ x.get) i := by
  rw [residual, get_ofFn, lessProducts_eq]
  rfl

omit [LinearOrder α] in
lemma correct_zero (b : Vector α n) : correct (Vector.replicate n 0) b = b :=
  vector_ext fun i => by rw [get_correct]; simp [get_eq_getElem]

variable [IsStrictOrderedRing α]

/-- If the factors solve with the matrix itself, the first solution is final. -/
lemma refine_outcome {settings : Settings α} {f : Factorization α n} {a : Square α n}
    (hc : 0 < settings.convergenceRatio) (hi : 0 ≤ settings.illConditionedRatio)
    (hm : 1 ≤ settings.maxIterations)
    (hf : ∀ (b : Vector α n) (x : Fin n → α), toMatrix a *ᵥ x = b.get ↔ x = (f.solve b).get)
    (b : Vector α n) : (refine settings f a b).outcome = .ok (f.solve b) := by
  have hfirst : approximation f a b 1 = f.solve b := correct_zero (f.solve b)
  have hres (i : Fin n) : (residual a b (f.solve b)).get i = 0 := by
    rw [get_residual, (hf b _).mpr rfl, sub_self]
  have he (i : Fin n) : (correction f a b 1).get i = 0 := by
    rw [correction, hfirst]
    have h := (hf (residual a b (f.solve b)) 0).mp (by rw [mulVec_zero]; exact (funext hres).symm)
    exact (congrFun h i).symm
  have hratio : (passAt f a b 1).ratio = ⟨0, greatest (approximation f a b 1)⟩ :=
    congrArg (Ratio.mk · _) ((greatest_eq_zero_iff _).mpr he)
  by_cases hn : n = 0
  · rw [refine_of_eq_zero hn, hfirst]
  · have htrusted := hratio ▸ exceeds_zero hi (greatest (approximation f a b 1))
    have hstop := hratio ▸ reaches_zero hc (greatest (approximation f a b 1))
    have hends := refine_ends hn settings f a b
    rw [(hends.of_isLeast htrusted ⟨⟨le_rfl, hstop⟩, fun k hk => hk.1⟩ hm).1,
      approximation_succ, hfirst]
    exact congrArg _ (vector_ext fun i => by rw [get_correct, he, add_zero])

end Simultaneous.Solver
