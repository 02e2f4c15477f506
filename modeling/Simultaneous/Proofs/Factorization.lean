import Mathlib
import Simultaneous.Proofs.Elimination

/-!
What a factorization returns.

The elimination is run step by step; a step either takes a pivot that is not zero and keeps the
invariant, or stops because no row offers more than the tolerance. A run to the end leaves the two
triangular factors of the exchanged matrix.
-/

namespace Simultaneous.Solver

open Elimination (Factored)

variable {α : Type} {n : ℕ}
variable {tolerance : α} {a : Square α n} {s : Vector α n} {w w' : Elimination α n} {r : Fin n}

/-! ### Runs -/

section Runs

variable [Zero α] [Neg α] [LT α] [DecidableLT α] [LE α] [DecidableLE α]

/-- Rows whose scales are all accepted. -/
lemma scales_accepts (h : scales tolerance a = .ok s) :
    s = a.map greatest ∧ ∀ i, ¬greatest (a.get i) ≤ tolerance := by
  dsimp only [scales] at h
  split at h
  · exact absurd h (by simp)
  · next hnone =>
    refine ⟨(Except.ok.inj h).symm, fun i => ?_⟩
    have := List.find?_eq_none.mp hnone i (List.mem_finRange i)
    simpa [get_eq_getElem] using this

/-- The first row whose scale is not accepted. -/
lemma scales_error {f : Failure} (h : scales tolerance a = .error f) :
    ∃ i : Fin n, f = .singular i ∧ IsLeast {i | greatest (a.get i) ≤ tolerance} i := by
  dsimp only [scales] at h
  split at h
  · next row hsome =>
    obtain ⟨hrow, i, hi, hget, hbefore⟩ := List.find?_eq_some_iff_getElem.mp hsome
    refine ⟨row, (Except.error.inj h).symm, by simpa [get_eq_getElem] using hrow, ?_⟩
    intro j hj
    by_contra hlt
    rw [List.getElem_finRange] at hget
    have hji : j.val < i := by
      have := Fin.lt_def.mp (not_le.mp hlt)
      rw [← hget] at this
      simpa using this
    have := hbefore j hji
    simp only [List.getElem_finRange, Bool.not_eq_eq_eq_not, Bool.not_true,
      decide_eq_false_iff_not] at this
    exact this (by simpa [get_eq_getElem] using hj)
  · exact absurd h (by simp)

variable [Sub α] [Mul α] [Div α]

lemma steps_succ (tolerance : α) (w : Elimination α n) (k : ℕ) (hk : k + 1 ≤ n) :
    w.steps tolerance (k + 1) hk =
      (w.steps tolerance k (Nat.le_of_succ_le hk)).bind (·.step tolerance ⟨k, hk⟩) := rfl

/-- A run that succeeds has come through the step before its end. -/
lemma steps_succ_ok {k : ℕ} {hk : k + 1 ≤ n} (h : w.steps tolerance (k + 1) hk = .ok w') :
    ∃ v, w.steps tolerance k (Nat.le_of_succ_le hk) = .ok v ∧
      v.step tolerance ⟨k, hk⟩ = .ok w' := by
  rw [steps_succ] at h
  cases hv : w.steps tolerance k (Nat.le_of_succ_le hk) with
  | error e => simp [hv, Except.bind] at h
  | ok v =>
    rw [hv] at h
    exact ⟨v, rfl, h⟩

/-- A run that fails has come to a step that fails. -/
lemma steps_error {f : Failure} {k : ℕ} (hk : k ≤ n)
    (h : w.steps tolerance k hk = .error f) :
    ∃ (r : Fin n) (v : Elimination α n), w.steps tolerance r r.isLt.le = .ok v ∧
      v.step tolerance r = .error f := by
  induction k with
  | zero => exact absurd h (by simp [Elimination.steps])
  | succ k ih =>
    rw [steps_succ] at h
    cases hw : w.steps tolerance k (Nat.le_of_succ_le hk) with
    | error g =>
      rw [hw] at h
      exact ih _ (hw.trans (congrArg _ (Except.error.inj h)))
    | ok v =>
      rw [hw] at h
      exact ⟨⟨k, hk⟩, v, hw, h⟩

lemma factorize_eq (tolerance : α) (a : Square α n) :
    factorize tolerance a = (scales tolerance a).bind fun s =>
      ((Elimination.start a s).steps tolerance n le_rfl).bind fun w => .ok ⟨w.lu, w.pivots⟩ := rfl

lemma factorize_ok {f : Factorization α n} (h : factorize tolerance a = .ok f) :
    ∃ s w, scales tolerance a = .ok s ∧
      (Elimination.start a s).steps tolerance n le_rfl = .ok w ∧ f = ⟨w.lu, w.pivots⟩ := by
  rw [factorize_eq] at h
  cases hs : scales tolerance a with
  | error g => simp [hs, Except.bind] at h
  | ok s =>
    rw [hs] at h
    cases hw : (Elimination.start a s).steps tolerance n le_rfl with
    | error g => simp [hw, Except.bind] at h
    | ok w =>
      simp only [hw, Except.bind] at h
      exact ⟨s, w, rfl, hw, (Except.ok.inj h).symm⟩

end Runs

/-! ### The factors -/

variable [Field α]

lemma Elimination.Factored.lower_mul_upper (h : Factored a s w n le_rfl) :
    lower w.lu * upper w.lu = toMatrix (exchangeAll w.pivots a) := by
  ext i j
  rw [Matrix.mul_apply, ← sum_lt_all]
  exact (h.finished i j (.inl i.isLt)).symm

variable [LinearOrder α]

/-! ### Steps -/

lemma step_eq (tolerance : α) (w : Elimination α n) (r : Fin n) :
    w.step tolerance r =
      if (({ w with lu := reduceColumn w.lu r } : Elimination α n).choose r).2 ≤ tolerance then
        .error (.illConditioned (.zeroPivot r))
      else
        .ok (w.advance r (({ w with lu := reduceColumn w.lu r } : Elimination α n).choose r).1) :=
  rfl

variable [IsStrictOrderedRing α]

/-- What row `i` offers once column `r` is reduced. -/
lemma offer_reduceColumn (w : Elimination α n) {r i : Fin n} (hi : r ≤ i) :
    ({ w with lu := reduceColumn w.lu r } : Elimination α n).offer r i =
      |reduced w.lu i r r / w.scale.get i| := by
  rw [offer_eq, toMatrix_reduceColumn, if_pos ⟨hi, rfl⟩]

/-- A step that succeeds divides by a pivot that is not zero. -/
lemma step_ok (htol : 0 ≤ tolerance) (h : w.step tolerance r = .ok w') :
    ∃ l, r ≤ l ∧ reduced w.lu l r r ≠ 0 ∧ w' = w.advance r l := by
  obtain ⟨hl, -, ho⟩ := choose_spec ({ w with lu := reduceColumn w.lu r } : Elimination α n) r
  rw [step_eq] at h
  split_ifs at h with hle
  refine ⟨_, hl, ?_, (Except.ok.inj h).symm⟩
  intro hz
  have hpos := htol.trans_lt (not_le.mp hle)
  rw [ho hpos.ne', offer_reduceColumn w hl, hz, zero_div, abs_zero] at hpos
  exact lt_irrefl _ hpos

/-- A step fails only if every row offers at most the tolerance. -/
lemma step_error {f : Failure} (h : w.step tolerance r = .error f) :
    f = .illConditioned (.zeroPivot r) ∧
      ∀ i, r ≤ i → |reduced w.lu i r r / w.scale.get i| ≤ tolerance := by
  obtain ⟨-, hmax, -⟩ := choose_spec ({ w with lu := reduceColumn w.lu r } : Elimination α n) r
  rw [step_eq] at h
  split_ifs at h with hle
  refine ⟨(Except.error.inj h).symm, fun i hi => ?_⟩
  rw [← offer_reduceColumn w hi]
  exact (hmax i hi).trans hle

/-- The invariant holds after every run of steps. -/
lemma factored_steps (htol : 0 ≤ tolerance) {k : ℕ} (hk : k ≤ n)
    (h : (Elimination.start a s).steps tolerance k hk = .ok w) : Factored a s w k hk := by
  induction k generalizing w with
  | zero =>
    obtain rfl : Elimination.start a s = w := Except.ok.inj h
    exact Elimination.factored_start a s
  | succ k ih =>
    obtain ⟨v, hv, hstep⟩ := steps_succ_ok h
    obtain ⟨l, hl, hne, rfl⟩ := step_ok htol hstep
    exact (ih _ hv).advance hl hne

/-- **The factorization**: the pivots point forwards, no diagonal entry is zero, and the triangles
multiply to the matrix with its rows exchanged as the pivots say. -/
theorem lower_mul_upper_of_factorize (htol : 0 ≤ tolerance) {f : Factorization α n}
    (h : factorize tolerance a = .ok f) :
    (∀ r : Fin n, r ≤ f.pivots.get r ∧ (f.pivots.get r).val < n) ∧
      (∀ r : Fin n, toMatrix f.lu r r ≠ 0) ∧
      lower f.lu * upper f.lu = toMatrix (exchangeAll f.pivots a) := by
  obtain ⟨s, w, -, hw, rfl⟩ := factorize_ok h
  have hf := factored_steps htol le_rfl hw
  exact ⟨fun r => ⟨hf.pivot_ge r r.isLt, (w.pivots.get r).isLt⟩,
    fun r => hf.diagonal_ne r r.isLt, hf.lower_mul_upper⟩

/-- The first row offers no pivot here, so the rows are exchanged. -/
theorem lower_mul_upper_of_exchange :
    factorize (0 : ℚ) #v[#v[0, 1], #v[2, 3]] = .ok ⟨#v[#v[2, 3 / 2], #v[0, 1]], #v[1, 1]⟩ ∧
      lower (#v[#v[2, 3 / 2], #v[0, 1]] : Square ℚ 2) * upper #v[#v[2, 3 / 2], #v[0, 1]] =
        toMatrix (exchangeAll #v[1, 1] #v[#v[0, 1], #v[2, 3]]) := by
  have h : factorize (0 : ℚ) #v[#v[0, 1], #v[2, 3]] =
      .ok ⟨#v[#v[2, 3 / 2], #v[0, 1]], #v[1, 1]⟩ := by cbv
  exact ⟨h, (lower_mul_upper_of_factorize le_rfl h).2.2⟩

end Simultaneous.Solver
