import Mathlib
import Simultaneous.Proofs.Balance
import Simultaneous.Proofs.Classification
import Simultaneous.Proofs.Refinement
import Simultaneous.Proofs.Stages

/-!
Solving texts in exact arithmetic.

Over an ordered field a text that can be read comes to one of five outcomes, which the equations
that it spells decide: too few of them, too many, one without coefficients, dependent columns, or
the numbers that satisfy them all.
-/

namespace Simultaneous

open Equation Matrix
open Solver (Settings Square Factorization block segment toSparse toMatrix factorize)

variable {α : Type} [Field α] [LinearOrder α]

/-- Nothing but zero counts as zero, and corrections that vanish end the refinement. -/
structure Solver.Settings.IsExact (settings : Settings α) : Prop where
  tolerance : settings.pivotTolerance = 0
  convergence : 0 < settings.convergenceRatio
  conditioning : 0 ≤ settings.illConditionedRatio
  iterations : 1 ≤ settings.maxIterations

/-- What solving the equations comes to. -/
inductive Resolves (es : List Chain) : Except Error (Solution α) → Prop where
  | tooFew (fewer : es.length < (Chain.unknowns es).length) :
    Resolves es (.error (.tooFewEquations es.length (Chain.unknowns es).length))
  | tooMany (more : (Chain.unknowns es).length < es.length) :
    Resolves es (.error (.tooManyEquations es.length (Chain.unknowns es).length))
  | singular (square : es.length = (Chain.unknowns es).length) {i : Fin es.length}
    (first : IsLeast {i | (Chain.coefficients es i : _ → α) = 0} i) :
    Resolves es (.error (.unsolvable (.singular i)))
  | zeroPivot (square : es.length = (Chain.unknowns es).length)
    (rows : ∀ i, (Chain.coefficients es i : _ → α) ≠ 0) {c : Fin (Chain.unknowns es).length}
    (first : IsLeast
      {c | ¬LinearIndepOn α (Chain.coefficients es : Matrix _ _ α).col (Set.Iic c)} c) :
    Resolves es (.error (.unsolvable (.illConditioned (.zeroPivot c))))
  | ok (square : es.length = (Chain.unknowns es).length)
    (rows : ∀ i, (Chain.coefficients es i : _ → α) ≠ 0)
    (columns : LinearIndependent α (Chain.coefficients es : Matrix _ _ α).col) {s : Solution α}
    (names_eq : s.values.map Prod.fst = Chain.unknowns es)
    (unique : ∀ y : String → α, (∀ e ∈ es, e.Holds y) ↔
      ∀ name ∈ Chain.unknowns es, s.get? name = some (y name)) :
    Resolves es (.ok s)

/-! ### Factorizations -/

namespace Solver

variable [IsStrictOrderedRing α] {m k : ℕ} {A : Matrix (Fin m) (Fin k) α} {a : Square α m}

lemma factorize_error_of_eq (h : m = k) (ha : ∀ i j, toMatrix a i j = A i (j.cast h))
    {f : Failure} (hf : factorize 0 a = .error f) :
    (∃ i : Fin m, f = .singular i ∧ IsLeast {i | A i = 0} i) ∨
      ∃ c : Fin k, f = .illConditioned (.zeroPivot c) ∧ (∀ i, A i ≠ 0) ∧
        IsLeast {c | ¬LinearIndepOn α A.col (Set.Iic c)} c := by
  subst h
  obtain rfl : toMatrix a = A := Matrix.ext ha
  have hrow (i : Fin m) : toMatrix a i = 0 ↔ ∀ j, toMatrix a i j = 0 := funext_iff
  simp only [ne_eq, hrow, not_forall]
  exact factorize_zero_error hf

lemma factorize_ok_of_eq (h : m = k) (ha : ∀ i j, toMatrix a i j = A i (j.cast h))
    {f : Factorization α m} (hf : factorize 0 a = .ok f) :
    (∀ i, A i ≠ 0) ∧ LinearIndependent α A.col ∧ ∀ (b : Vector α m) (x : Fin k → α),
      A *ᵥ x = b.get ↔ ∀ j, x j = (f.solve b).get (j.cast h.symm) := by
  subst h
  obtain rfl : toMatrix a = A := Matrix.ext ha
  have hsolve := mulVec_eq_iff_of_factorize le_rfl hf
  refine ⟨fun i hi => ?_, ?_, fun b x => (hsolve b x).trans funext_iff⟩
  · exact not_isUnit_of_row_eq_zero hi (isUnit_of_factorize le_rfl hf)
  · exact Matrix.mulVec_injective_iff.mp (mulVec_injective_of_factorize le_rfl hf)

end Solver

/-! ### Systems -/

lemma lookup_mapIdx {β : Type} {names : List String} (hnodup : names.Nodup) (x : ℕ → β) (j : ℕ)
    (hj : j < names.length) :
    (names.mapIdx fun i name => (name, x i)).lookup names[j] = some (x j) := by
  induction names generalizing x j with
  | nil => exact absurd hj (Nat.not_lt_zero j)
  | cons name names ih =>
    obtain ⟨hname, hnames⟩ := List.nodup_cons.mp hnodup
    rw [List.mapIdx_cons]
    cases j with
    | zero => simp
    | succ j =>
      have hj' : j < names.length := Nat.lt_of_succ_lt_succ hj
      have hne : names[j] ≠ name := fun h => hname (h ▸ List.getElem_mem hj')
      rw [List.getElem_cons_succ, List.lookup_cons, beq_eq_false_iff_ne.mpr hne]
      exact ih hnames (fun i => x (i + 1)) j hj'

namespace LinearSystem

variable [IsStrictOrderedRing α] {settings : Settings α} {s : LinearSystem α} {es : List Chain}
  {limits : Limits}

/-- The system of spelled equations is solved as the equations decide. -/
lemma Means.resolves (h : s.Means es) (hspelled : ∀ e ∈ es, e.Spelled limits)
    (hexact : settings.IsExact) : Resolves es (s.solve settings).value := by
  have hnodup : (Chain.unknowns es).Nodup := nodup_eraseDups _
  have hholds := h.holds_iff hspelled
  have hget := h.get_matrix hspelled
  -- the rows and columns of the system are those of the equations
  obtain ⟨matrix, rhs, names, count⟩ := s
  obtain rfl : names = Chain.unknowns es := h.names_eq
  obtain rfl : count = es.length := h.equationCount_eq
  rcases Nat.lt_trichotomy es.length (Chain.unknowns es).length with hlt | hsquare | hlt
  · rw [solve_of_lt]
    · exact .tooFew hlt
    · exact hlt
  · have ha (i j : Fin es.length) : toMatrix (block es.length matrix) i j =
        Chain.coefficients es i (j.cast hsquare) :=
      (Solver.get_block matrix i j).trans (hget i (j.cast hsquare))
    cases hf : factorize 0 (block es.length matrix) with
    | error f =>
      rw [solve_of_factorize_error hsquare (by rw [hexact.tolerance, hf])]
      rcases Solver.factorize_error_of_eq hsquare ha hf with ⟨i, rfl, hi⟩ | ⟨c, rfl, hrows, hc⟩
      · exact .singular hsquare hi
      · exact .zeroPivot hsquare hrows hc
    | ok f =>
      obtain ⟨hrows, hcolumns, hunique⟩ := Solver.factorize_ok_of_eq hsquare ha hf
      have hrefine := Solver.refine_outcome hexact.convergence hexact.conditioning
        hexact.iterations (Solver.mulVec_eq_iff_of_factorize le_rfl hf) (segment es.length rhs)
      rw [solve_of_factorize_ok hsquare (by rw [hexact.tolerance, hf]), hrefine]
      refine .ok hsquare hrows hcolumns ?_ fun y => (hholds y).trans ?_
      · exact List.ext_getElem (by simp) (by simp)
      · rw [← Solver.get_segment_eq, hunique, List.forall_mem_iff_getElem, Fin.forall_iff]
        refine forall₂_congr fun j hj => ?_
        have hx := Solver.get_toSparse (f.solve (segment es.length rhs)) ⟨j, hsquare ▸ hj⟩
        rw [Solution.get?, lookup_mapIdx hnodup _ j hj, Option.some.injEq, hx]
        exact eq_comm
  · rw [solve_of_gt]
    · exact .tooMany hlt
    · exact hlt

end LinearSystem

/-! ### Texts -/

variable {options : Options α} {text : String}

/-- **Correctness**: a text that cannot be read comes to the fault in it, and any other spells
equations that decide what it comes to. -/
theorem solveText_exact [IsStrictOrderedRing α] (options : Options α)
    (hexact : options.settings.IsExact) (text : String) :
    match (LinearSystem.ofText options.limits text : Logged (Record α) _).value with
    | .error e => (solveText options text).value = .error (.parse e)
    | .ok _ => (∃ es, SpelledSystem options.limits es (Text.splitChars text.toList)) ∧
        ∀ es, SpelledSystem options.limits es (Text.splitChars text.toList) →
          Resolves es (solveText options text).value := by
  cases h : (LinearSystem.ofText options.limits text : Logged (Record α) _).value with
  | error e => exact solveText_of_error h
  | ok s =>
    refine ⟨LinearSystem.exists_spelled_of_ofText h, fun es hes => ?_⟩
    have hspelled : ∀ e ∈ es, e.Spelled options.limits :=
      fun e he t ht => exists_spelled_of_mem_system hes he ht
    rw [solveText_of_ok h]
    exact (LinearSystem.means_of_spelled h hes).resolves hspelled hexact

/-- Two equations over the rationals, the second with a sign behind the equal sign. -/
theorem solveText_two_equations :
    (∃ es, SpelledSystem {} es (Text.splitChars "2x - y = 3\n x =\n- 2y + .5^1".toList) ∧
      Resolves es (solveText ⟨{}, ⟨1 / 10, 1 / 2, 1, 0⟩⟩
        "2x - y = 3\n x =\n- 2y + .5^1" : Logged (Record ℚ) _).value) ∧
      (solveText ⟨{}, ⟨1 / 10, 1 / 2, 1, 0⟩⟩ "2x - y = 3\n x =\n- 2y + .5^1" :
        Logged (Record ℚ) _).value.toOption.map Solution.values =
          some [("x", 11 / 5), ("y", 7 / 5)] := by
  have h := solveText_exact (⟨{}, ⟨1 / 10, 1 / 2, 1, 0⟩⟩ : Options ℚ)
    ⟨rfl, by norm_num, by norm_num, le_rfl⟩ "2x - y = 3\n x =\n- 2y + .5^1"
  have hread : (LinearSystem.ofText {} "2x - y = 3\n x =\n- 2y + .5^1" :
    Logged (Record ℚ) _).value.toBool = true := by decide +kernel
  refine ⟨?_, by decide +kernel⟩
  split at h
  · next e he => exact nomatch (congrArg Except.toBool he).symm.trans hread
  · obtain ⟨⟨es, hes⟩, hall⟩ := h
    exact ⟨es, hes, hall es hes⟩

end Simultaneous
