import Mathlib
import Simultaneous.Solver.Refinement

/-!
The passes of a refinement.

A refinement walks along a sequence of solutions, each the one before it with its correction
added, and stops behind the first correction that does not reach the convergence ratio. The
sequence does not depend on the settings, which say only where the walk stops. This holds whatever
the arithmetic is.
-/

namespace Simultaneous.Solver

open Number (Ratio RatioOrder exceeds reaches)

variable {α : Type} {n : ℕ} [Zero α] [Add α] [Sub α] [Mul α] [Div α]

/-! ### The sequence -/

/-- What pass `k` has to make up for if it corrects `x`. The first pass takes the right-hand side
as it is. -/
def lacking (a : Square α n) (b x : Vector α n) : ℕ → Vector α n
  | 0 => b
  | _ + 1 => residual a b x

/-- The solution that pass `k` corrects. -/
def approximation (f : Factorization α n) (a : Square α n) (b : Vector α n) : ℕ → Vector α n
  | 0 => Vector.replicate n 0
  | k + 1 => correct (approximation f a b k) (f.solve (lacking a b (approximation f a b k) k))

/-- The correction of pass `k`. -/
def correction (f : Factorization α n) (a : Square α n) (b : Vector α n) (k : ℕ) : Vector α n :=
  f.solve (lacking a b (approximation f a b k) k)

omit [Zero α] [Sub α] [Mul α] [Div α] in
lemma get_correct (x e : Vector α n) (i : Fin n) : (correct x e).get i = x.get i + e.get i := by
  simp [correct, get_eq_getElem]

lemma approximation_succ (f : Factorization α n) (a : Square α n) (b : Vector α n) (k : ℕ) :
    approximation f a b (k + 1) = correct (approximation f a b k) (correction f a b k) := rfl

variable [Neg α] [LT α] [DecidableLT α]

/-- What pass `k` weighs. -/
def passAt (f : Factorization α n) (a : Square α n) (b : Vector α n) (k : ℕ) : Pass α :=
  ⟨greatest (approximation f a b k), greatest (correction f a b k)⟩

variable [One α] [RatioOrder α] {settings : Settings α} {f : Factorization α n} {a : Square α n}
  {b y : Vector α n}

/-! ### One pass -/

/-- The first pass to weigh a correction gives up on one that is too large. -/
lemma refineFrom_distrusted
    (h : exceeds (passAt f a b 1).ratio settings.illConditionedRatio = true)
    (done : List (Pass α)) (left : ℕ) :
    refineFrom settings f a b 1 (approximation f a b 1) done left =
      ⟨.error .inaccurateDecomposition, 1, 0, (passAt f a b 1 :: done).reverse⟩ := by
  rw [refineFrom.eq_def]
  exact if_pos h

variable {k : ℕ}
  (htrust : k = 0 → exceeds (passAt f a b 1).ratio settings.illConditionedRatio = false)

omit [One α] in
include htrust in
lemma skips_of_trusted : ¬((decide (k + 1 = 1) &&
    exceeds (passAt f a b (k + 1)).ratio settings.illConditionedRatio) = true) := by
  cases k with
  | zero => simpa using htrust rfl
  | succ k => simp

include htrust in
/-- A correction that does not reach the convergence ratio is the last one. -/
lemma refineFrom_stop
    (hstop : reaches (passAt f a b (k + 1)).ratio settings.convergenceRatio = false)
    (done : List (Pass α)) (left : ℕ) :
    refineFrom settings f a b (k + 1) (approximation f a b (k + 1)) done left =
      ⟨.ok (approximation f a b (k + 2)), k + 2, (passAt f a b (k + 1)).ratio,
        (passAt f a b (k + 1) :: done).reverse⟩ := by
  rw [refineFrom.eq_def]
  exact (if_neg (skips_of_trusted htrust)).trans (if_neg (Bool.eq_false_iff.mp hstop))

include htrust in
/-- One that reaches it leads to the next pass. -/
lemma refineFrom_next
    (hreach : reaches (passAt f a b (k + 1)).ratio settings.convergenceRatio = true)
    (done : List (Pass α)) (left : ℕ) :
    refineFrom settings f a b (k + 1) (approximation f a b (k + 1)) done (left + 1) =
      refineFrom settings f a b (k + 2) (approximation f a b (k + 2))
        (passAt f a b (k + 1) :: done) left := by
  rw [refineFrom.eq_def]
  exact (if_neg (skips_of_trusted htrust)).trans (if_pos hreach)

include htrust in
/-- If there is no next pass, the refinement gives up. -/
lemma refineFrom_give_up
    (hreach : reaches (passAt f a b (k + 1)).ratio settings.convergenceRatio = true)
    (done : List (Pass α)) :
    refineFrom settings f a b (k + 1) (approximation f a b (k + 1)) done 0 =
      ⟨.error (.noConvergence settings.maxIterations), k + 2, (passAt f a b (k + 1)).ratio,
        (passAt f a b (k + 1) :: done).reverse⟩ := by
  rw [refineFrom.eq_def]
  exact (if_neg (skips_of_trusted htrust)).trans (if_pos hreach)

/-! ### Many passes -/

lemma reverse_append_passes {β : Type} (p : ℕ → β) (done : List β) (k m : ℕ) :
    (p k :: done).reverse ++ (List.range' (k + 1) m).map p =
      done.reverse ++ (List.range' k (m + 1)).map p := by
  simp [List.range'_succ]

include htrust in
/-- The passes up to the first that does not reach the convergence ratio are carried out. -/
lemma refineFrom_stops {l d left : ℕ} (hl : k + 1 + d = l) (hleft : d ≤ left)
    (hreach : ∀ j, k + 1 ≤ j → j < l →
      reaches (passAt f a b j).ratio settings.convergenceRatio = true)
    (hstop : reaches (passAt f a b l).ratio settings.convergenceRatio = false)
    (done : List (Pass α)) :
    refineFrom settings f a b (k + 1) (approximation f a b (k + 1)) done left =
      ⟨.ok (approximation f a b (l + 1)), l + 1, (passAt f a b l).ratio,
        done.reverse ++ (List.range' (k + 1) (d + 1)).map (passAt f a b)⟩ := by
  induction d generalizing k done left with
  | zero =>
    obtain rfl : k + 1 = l := hl
    rw [refineFrom_stop htrust hstop]
    simp
  | succ d ih =>
    obtain ⟨left, rfl⟩ : ∃ m, left = m + 1 := ⟨left - 1, by omega⟩
    have hrest := ih (k := k + 1) (fun h => absurd h k.succ_ne_zero) (by omega)
      (Nat.le_of_succ_le_succ hleft) (fun j hj => hreach j (Nat.le_of_succ_le hj))
      (passAt f a b (k + 1) :: done)
    rw [refineFrom_next htrust (hreach _ le_rfl (by omega)), hrest, reverse_append_passes]

include htrust in
/-- If all the passes that are left reach the convergence ratio, the refinement gives up. -/
lemma refineFrom_gives_up {l left : ℕ} (hl : k + 1 + left = l)
    (hreach : ∀ j, k + 1 ≤ j → j ≤ l →
      reaches (passAt f a b j).ratio settings.convergenceRatio = true)
    (done : List (Pass α)) :
    refineFrom settings f a b (k + 1) (approximation f a b (k + 1)) done left =
      ⟨.error (.noConvergence settings.maxIterations), l + 1, (passAt f a b l).ratio,
        done.reverse ++ (List.range' (k + 1) (left + 1)).map (passAt f a b)⟩ := by
  induction left generalizing k done with
  | zero =>
    obtain rfl : k + 1 = l := hl
    rw [refineFrom_give_up htrust (hreach _ le_rfl le_rfl)]
    simp
  | succ left ih =>
    have hrest := ih (k := k + 1) (fun h => absurd h k.succ_ne_zero) (by omega)
      (fun j hj => hreach j (Nat.le_of_succ_le hj)) (passAt f a b (k + 1) :: done)
    rw [refineFrom_next htrust (hreach _ le_rfl (by omega)), hrest, reverse_append_passes]

/-! ### All passes -/

/-- How a refinement of at least one unknown ends. The passes that are weighed count from 1. -/
inductive Ends (settings : Settings α) (f : Factorization α n) (a : Square α n) (b : Vector α n) :
    Refinement α n → Prop where
  | forbidden (none : settings.maxIterations = 0) :
    Ends settings f a b ⟨.error (.noConvergence 0), 1, 0, []⟩
  | distrusted (some : 1 ≤ settings.maxIterations)
    (large : exceeds (passAt f a b 1).ratio settings.illConditionedRatio = true) :
    Ends settings f a b ⟨.error .inaccurateDecomposition, 1, 0, [passAt f a b 1]⟩
  | converged {k : ℕ} (pos : 1 ≤ k) (allowed : k ≤ settings.maxIterations)
    (trusted : exceeds (passAt f a b 1).ratio settings.illConditionedRatio = false)
    (before : ∀ j, 1 ≤ j → j < k →
      reaches (passAt f a b j).ratio settings.convergenceRatio = true)
    (stops : reaches (passAt f a b k).ratio settings.convergenceRatio = false) :
    Ends settings f a b ⟨.ok (approximation f a b (k + 1)), k + 1, (passAt f a b k).ratio,
      (List.range' 1 k).map (passAt f a b)⟩
  | exhausted (some : 1 ≤ settings.maxIterations)
    (trusted : exceeds (passAt f a b 1).ratio settings.illConditionedRatio = false)
    (all : ∀ j, 1 ≤ j → j ≤ settings.maxIterations →
      reaches (passAt f a b j).ratio settings.convergenceRatio = true) :
    Ends settings f a b ⟨.error (.noConvergence settings.maxIterations),
      settings.maxIterations + 1, (passAt f a b settings.maxIterations).ratio,
      (List.range' 1 settings.maxIterations).map (passAt f a b)⟩

/-- A refinement without unknowns has nothing to weigh. -/
lemma refine_of_eq_zero (hn : n = 0) (settings : Settings α) (f : Factorization α n)
    (a : Square α n) (b : Vector α n) :
    refine settings f a b = ⟨.ok (approximation f a b 1), 1, 0, []⟩ :=
  if_pos hn

/-- **Every refinement ends** in one of these ways. -/
theorem refine_ends (hn : n ≠ 0) (settings : Settings α) (f : Factorization α n)
    (a : Square α n) (b : Vector α n) : Ends settings f a b (refine settings f a b) := by
  rw [refine, if_neg hn]
  rcases hmax : settings.maxIterations with _ | left
  · exact .forbidden hmax
  have hsome : 1 ≤ settings.maxIterations := by omega
  change Ends settings f a b (refineFrom settings f a b 1 (approximation f a b 1) [] left)
  by_cases hlarge : exceeds (passAt f a b 1).ratio settings.illConditionedRatio = true
  · rw [refineFrom_distrusted hlarge]
    exact .distrusted hsome hlarge
  have htrust := Bool.eq_false_iff.mpr hlarge
  by_cases hstop : ∃ k, 1 ≤ k ∧ k ≤ settings.maxIterations ∧
      reaches (passAt f a b k).ratio settings.convergenceRatio = false
  · classical
    -- the first pass that does not reach the ratio
    obtain ⟨hpos, hallowed, hstops⟩ := Nat.find_spec hstop
    have hbefore (j : ℕ) (hj : 1 ≤ j) (hjk : j < Nat.find hstop) :
        reaches (passAt f a b j).ratio settings.convergenceRatio = true := by
      by_contra hne
      exact Nat.find_min hstop hjk
        ⟨hj, hjk.le.trans hallowed, Bool.eq_false_iff.mpr hne⟩
    obtain ⟨d, hd⟩ := Nat.exists_eq_add_of_le hpos
    rw [refineFrom_stops (k := 0) (fun _ => htrust) hd.symm (by omega) hbefore hstops,
      List.reverse_nil, List.nil_append, Nat.zero_add, Nat.add_comm d, ← hd]
    exact .converged hpos hallowed htrust hbefore hstops
  · have hall (j : ℕ) (hj : 1 ≤ j) (hjm : j ≤ settings.maxIterations) :
        reaches (passAt f a b j).ratio settings.convergenceRatio = true := by
      by_contra hne
      exact hstop ⟨j, hj, hjm, Bool.eq_false_iff.mpr hne⟩
    rw [refineFrom_gives_up (k := 0) (l := settings.maxIterations) (fun _ => htrust) (by omega)
      hall, ← hmax]
    exact .exhausted hsome htrust hall

/-- A refined solution is an approximation with its correction added, and that correction did not
reach the convergence ratio. -/
lemma exists_pass_of_refine (h : (refine settings f a b).outcome = .ok y) :
    ∃ k, y = correct (approximation f a b k) (correction f a b k) ∧
      (n ≠ 0 → reaches (passAt f a b k).ratio settings.convergenceRatio = false) := by
  by_cases hn : n = 0
  · rw [refine_of_eq_zero hn] at h
    exact ⟨0, (Except.ok.inj h).symm, fun hne => absurd hn hne⟩
  · have hends := refine_ends hn settings f a b
    generalize refine settings f a b = r at h hends
    cases hends with
    | forbidden => exact nomatch h
    | distrusted => exact nomatch h
    | @converged k _ _ _ _ hstops => exact ⟨k, (Except.ok.inj h).symm, fun _ => hstops⟩
    | exhausted => exact nomatch h

/-! ### Reading off the outcome -/

variable {r : Refinement α n}

/-- The ends of a refinement exclude each other. -/
lemma Ends.eq {r' : Refinement α n} (h : Ends settings f a b r) (h' : Ends settings f a b r') :
    r = r' := by
  cases h with
  | forbidden hnone =>
    cases h' with
    | forbidden => rfl
    | distrusted hsome => omega
    | converged hpos hallowed => omega
    | exhausted hsome => omega
  | distrusted hsome hlarge =>
    cases h' with
    | forbidden hnone => omega
    | distrusted => rfl
    | converged _ _ htrusted => exact absurd (htrusted.symm.trans hlarge) Bool.false_ne_true
    | exhausted _ htrusted => exact absurd (htrusted.symm.trans hlarge) Bool.false_ne_true
  | @converged k hpos hallowed htrusted hbefore hstops =>
    cases h' with
    | forbidden hnone => omega
    | distrusted _ hlarge => exact absurd (htrusted.symm.trans hlarge) Bool.false_ne_true
    | @converged l hpos' _ _ hbefore' hstops' =>
      rcases lt_trichotomy k l with hkl | rfl | hlk
      · exact absurd (hstops.symm.trans (hbefore' k hpos hkl)) Bool.false_ne_true
      · rfl
      · exact absurd (hstops'.symm.trans (hbefore l hpos' hlk)) Bool.false_ne_true
    | exhausted _ _ hall =>
      exact absurd (hstops.symm.trans (hall k hpos hallowed)) Bool.false_ne_true
  | exhausted hsome htrusted hall =>
    cases h' with
    | forbidden hnone => omega
    | distrusted _ hlarge => exact absurd (htrusted.symm.trans hlarge) Bool.false_ne_true
    | @converged l hpos hallowed _ _ hstops =>
      exact absurd (hstops.symm.trans (hall l hpos hallowed)) Bool.false_ne_true
    | exhausted => rfl

lemma Ends.outcome_of_eq_zero (h : Ends settings f a b r) (hmax : settings.maxIterations = 0) :
    r.outcome = .error (.noConvergence 0) := by
  cases h with
  | forbidden => rfl
  | distrusted hsome => omega
  | converged hpos hallowed => omega
  | exhausted hsome => omega

lemma Ends.outcome_eq_inaccurate_iff (h : Ends settings f a b r)
    (hmax : 1 ≤ settings.maxIterations) : r.outcome = .error .inaccurateDecomposition ↔
      exceeds (passAt f a b 1).ratio settings.illConditionedRatio = true := by
  cases h with
  | forbidden hnone => omega
  | distrusted _ hlarge => simp [hlarge]
  | converged _ _ htrusted => simp [htrusted]
  | exhausted _ htrusted => simp [htrusted]

lemma Ends.of_isLeast (h : Ends settings f a b r)
    (htrusted : exceeds (passAt f a b 1).ratio settings.illConditionedRatio = false) {k : ℕ}
    (hk : IsLeast {k | 1 ≤ k ∧
      reaches (passAt f a b k).ratio settings.convergenceRatio = false} k)
    (hmax : k ≤ settings.maxIterations) :
    r.outcome = .ok (approximation f a b (k + 1)) ∧ r.iterations = k + 1 ∧
      r.ratio = (passAt f a b k).ratio := by
  obtain ⟨⟨hpos, hstop⟩, hleast⟩ := hk
  cases h with
  | forbidden hnone => omega
  | distrusted _ hlarge => exact absurd (htrusted.symm.trans hlarge) Bool.false_ne_true
  | @converged l hl _ _ hbefore hstops =>
    have hkl : k ≤ l := hleast ⟨hl, hstops⟩
    obtain rfl : k = l := hkl.antisymm (not_lt.mp fun hlt =>
      Bool.false_ne_true (hstop.symm.trans (hbefore k hpos hlt)))
    exact ⟨rfl, rfl, rfl⟩
  | exhausted _ _ hall =>
    exact absurd (hstop.symm.trans (hall k hpos hmax)) Bool.false_ne_true

lemma Ends.outcome_of_forall_reaches (h : Ends settings f a b r)
    (htrusted : exceeds (passAt f a b 1).ratio settings.illConditionedRatio = false)
    (hall : ∀ k, 1 ≤ k → k ≤ settings.maxIterations →
      reaches (passAt f a b k).ratio settings.convergenceRatio = true) :
    r.outcome = .error (.noConvergence settings.maxIterations) := by
  cases h with
  | forbidden hnone => rw [hnone]
  | distrusted _ hlarge => exact absurd (htrusted.symm.trans hlarge) Bool.false_ne_true
  | @converged l hl hallowed _ _ hstops =>
    exact absurd (hstops.symm.trans (hall l hl hallowed)) Bool.false_ne_true
  | exhausted => rfl

/-! ### The same passes -/

section Congr

variable {f' : Factorization α n} {a' : Square α n} {b' : Vector α n}
  (h : ∀ x, f'.solve (residual a' b' x) = f.solve (residual a b x))

include h

lemma refineFrom_congr (k : ℕ) (x : Vector α n) (done : List (Pass α)) (left : ℕ) :
    refineFrom settings f' a' b' k x done left = refineFrom settings f a b k x done left := by
  induction left generalizing k x done with
  | zero =>
    rw [refineFrom.eq_def, refineFrom.eq_def settings f, h]
  | succ left ih =>
    rw [refineFrom.eq_def, refineFrom.eq_def settings f, h]
    simp only [ih]

/-- A refinement depends on its factors and its system only through the corrections. -/
lemma refine_congr (hfirst : f'.solve b' = f.solve b) :
    refine settings f' a' b' = refine settings f a b := by
  simp only [refine, hfirst, refineFrom_congr h]

end Congr

end Simultaneous.Solver
