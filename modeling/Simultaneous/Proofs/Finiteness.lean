import Mathlib
import Simultaneous.Proofs.Dense
import Simultaneous.Proofs.Doubles
import Simultaneous.Proofs.Passes
import Simultaneous.Proofs.Stages

/-!
Solutions in doubles that are not finite.

The convergence test stops at a correction that it cannot tell from a small one. An infinite
correction of a finite solution is told, but one that is not a number is not, and neither is any
correction of an infinite solution. So a text can have a solution that is no number at all.
-/

namespace Simultaneous

open Number (parts reaches isFinite_iff isFinite_add_iff)
open Solver (Factorization block segment toSparse factorize approximation correction passAt correct
  greatest)

/-! ### Corrected solutions -/

namespace Solver

variable {n : ℕ} {x e : Vector Float n} {c : Float}

/-- If the correction does not reach the bound, it is finite where the solution is, or it is not a
number. -/
lemma isInf_eq_false_of_reaches (hc : c.isNaN = false)
    (hstop : reaches ⟨greatest e, greatest x⟩ c = false) (hx : ∀ i, (x.get i).isFinite = true)
    (i : Fin n) : (e.get i).isInf = false := by
  by_contra hinf
  have hreach := Number.reaches_of_infinity (r := ⟨greatest e, greatest x⟩)
    (Number.parts_greatest_of_isInf (Bool.eq_true_of_not_eq_false hinf))
    (Number.isSize_greatest hx) hc
  exact Bool.false_ne_true (hstop.symm.trans hreach)

lemma isFinite_correct_iff (hc : c.isNaN = false)
    (hstop : n ≠ 0 → reaches ⟨greatest e, greatest x⟩ c = false) :
    (∀ i, ((correct x e).get i).isFinite = true) ↔
      ∀ i, (x.get i).isFinite = true ∧ (e.get i).isNaN = false ∧
        (x.get i + e.get i).isInf = false := by
  simp only [get_correct, isFinite_add_iff]
  refine ⟨fun h i => ?_, fun h i => ?_⟩
  · obtain ⟨hx, he, hsum⟩ := h i
    exact ⟨hx, (isFinite_iff.mp he).1, hsum⟩
  · obtain ⟨hx, he, hsum⟩ := h i
    have hn : n ≠ 0 := fun hn => absurd i.isLt (by omega)
    exact ⟨hx, isFinite_iff.mpr ⟨he, isInf_eq_false_of_reaches hc (hstop hn) (fun j => (h j).1) i⟩,
      hsum⟩

end Solver

/-! ### Texts -/

section Values

variable {α : Type} {n : ℕ} {names : List String} (h : n = names.length) (y : Vector α n)

include h

lemma mapIdx_toSparse [Zero α] :
    (names.mapIdx fun column name => (name, (toSparse y).get column)) = names.zip y.toList := by
  refine List.ext_getElem (by simp [h]) fun i hi _ => ?_
  have hget := Solver.get_toSparse y ⟨i, by simpa [h] using hi⟩
  simp only [List.getElem_mapIdx, List.getElem_zip, Vector.getElem_toList, hget]
  rfl

lemma forall_mem_zip_iff (p : α → Prop) :
    (∀ v ∈ names.zip y.toList, p v.2) ↔ ∀ i, p (y.get i) := by
  rw [List.forall_mem_iff_getElem, Fin.forall_iff]
  simp only [List.length_zip, Vector.length_toList, ← h, min_self, List.getElem_zip,
    Vector.getElem_toList]
  rfl

end Values

/-- **Finite solutions**: the values of a solution are those of the last approximation with its
correction added. They are finite just if the approximation is, no correction is other than a
number, and no sum is too large. -/
theorem solveText_finite_iff (text : String) (s : Solution Float)
    (h : (solveText .standard text).value = .ok s) :
    ∃ (system : LinearSystem Float) (f : Factorization Float system.equationCount) (k : ℕ),
      let a := block system.equationCount system.matrix
      let b := segment system.equationCount system.rhs
      let x := approximation f a b k
      let e := correction f a b k
      (LinearSystem.ofText {} text).value = .ok system ∧ factorize 0 a = .ok f ∧
        s.values = system.names.zip (correct x e).toList ∧
        ((∀ v ∈ s.values, v.2.isFinite = true) ↔
          ∀ i, (x.get i).isFinite = true ∧ (e.get i).isNaN = false ∧
            (x.get i + e.get i).isInf = false) := by
  cases hread : (LinearSystem.ofText (Options.standard : Options Float).limits text :
    Logged (Record Float) _).value with
  | error e => exact nomatch (solveText_of_error hread).symm.trans h
  | ok system =>
    rw [solveText_of_ok hread] at h
    obtain ⟨hsquare, f, y, hf, hrefine, rfl⟩ := LinearSystem.exists_refine_of_solve h
    obtain ⟨k, rfl, hstop⟩ := Solver.exists_pass_of_refine hrefine
    refine ⟨system, f, k, hread, hf, mapIdx_toSparse hsquare _, ?_⟩
    have hc : (Options.standard : Options Float).settings.convergenceRatio.isNaN = false := by
      decide +kernel
    rw [← Solver.isFinite_correct_iff hc hstop, mapIdx_toSparse hsquare]
    exact forall_mem_zip_iff hsquare _ fun v : Float => v.isFinite = true

/-- A solution of two equations, which is finite, and so are the approximations behind it. -/
theorem solveText_finite_two :
    ∃ s : Solution Float, (solveText .standard "2x + y = 8, x - y = 1").value = .ok s ∧
      (∀ v ∈ s.values, v.2.isFinite = true) ∧
      ∃ (system : LinearSystem Float) (f : Factorization Float system.equationCount) (k : ℕ),
        (LinearSystem.ofText {} "2x + y = 8, x - y = 1").value = .ok system ∧
          ∀ i, ((approximation f (block system.equationCount system.matrix)
            (segment system.equationCount system.rhs) k).get i).isFinite = true := by
  have hfinite : ((solveText .standard "2x + y = 8, x - y = 1").value.map
      fun s : Solution Float => s.values.all (·.2.isFinite)) = .ok true := by decide +kernel
  cases h : (solveText .standard "2x + y = 8, x - y = 1" : Logged (Record Float) _).value with
  | error e => exact nomatch (congrArg (Except.map _) h).symm.trans hfinite
  | ok s =>
    have hall : ∀ v ∈ s.values, v.2.isFinite = true := by
      rw [h] at hfinite
      exact List.all_eq_true.mp (Except.ok.inj hfinite)
    obtain ⟨system, f, k, hread, -, -, hiff⟩ := solveText_finite_iff _ s h
    exact ⟨s, rfl, hall, system, f, k, hread, fun i => (hiff.mp hall i).1⟩

/-- Forward substitution overflows in the second row, and back substitution then makes the first
value no number. No entry of the correction is a number either, so its size is 0, which is nothing
next to the infinite size of the solution. -/
theorem solveText_not_a_number :
    ((solveText .standard "1^-99 x = 1^99, 1^-99 y = 1^99 x").value.map
      fun s : Solution Float => s.values.map fun v => (v.1, v.2.isNaN)) =
        .ok [("x", true), ("y", true)] := by
  decide +kernel

end Simultaneous
