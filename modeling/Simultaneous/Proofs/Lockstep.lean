import Mathlib
import Simultaneous.Proofs.Elimination

/-!
Eliminations in lockstep.

Two eliminations that a relation ties together before each step, and whose steps keep it or fail
alike, end tied together or with the same failure. The elimination in place is tied to the one that
exchanges scales: a step finishes row `r`, so the scale of that row is not looked at again, and it
is enough to write it over the scale of the row that goes to place `l`.
-/

namespace Simultaneous.Solver

/-! ### Runs side by side -/

/-- Two runs end in the same failure, or in results that are related. -/
inductive Lockstep {β γ : Type} (R : β → γ → Prop) :
    Except Failure β → Except Failure γ → Prop where
  | error (f : Failure) : Lockstep R (.error f) (.error f)
  | ok {x : β} {y : γ} (h : R x y) : Lockstep R (.ok x) (.ok y)

namespace Lockstep

variable {β γ β' γ' : Type} {R : β → γ → Prop} {S : β' → γ' → Prop}

lemma bind {x : Except Failure β} {y : Except Failure γ} {f : β → Except Failure β'}
    {g : γ → Except Failure γ'} (h : Lockstep R x y)
    (hnext : ∀ c d, R c d → Lockstep S (f c) (g d)) : Lockstep S (x.bind f) (y.bind g) := by
  cases h with
  | error e => exact .error e
  | ok hcd => exact hnext _ _ hcd

lemma mono {x : Except Failure β} {y : Except Failure γ} {R' : β → γ → Prop} (h : Lockstep R x y)
    (himp : ∀ c d, R c d → R' c d) : Lockstep R' x y := by
  cases h with
  | error e => exact .error e
  | ok hcd => exact .ok (himp _ _ hcd)

lemma eq {x y : Except Failure β} (h : Lockstep (fun c d => d = c) x y) : y = x := by
  cases h with
  | error f => rfl
  | ok hcd => rw [hcd]

lemma eq_error {f : Failure} {y : Except Failure γ} (h : Lockstep R (.error f) y) :
    y = .error f := by
  cases h with
  | error f => rfl

lemma exists_of_ok {x : β} {y : Except Failure γ} (h : Lockstep R (.ok x) y) :
    ∃ z, y = .ok z ∧ R x z := by
  cases h with
  | ok hxz => exact ⟨_, rfl, hxz⟩

end Lockstep

variable {α : Type} {n : ℕ}

namespace Elimination

/-- The first `k` steps, whatever a step does. -/
def stepsBy (step : Elimination α n → Fin n → Except Failure (Elimination α n))
    (w : Elimination α n) : (k : ℕ) → k ≤ n → Except Failure (Elimination α n)
  | 0, _ => .ok w
  | k + 1, hk => (stepsBy step w k (Nat.le_of_succ_le hk)).bind (step · ⟨k, hk⟩)

/-- A relation that each step keeps is kept by a run. -/
lemma lockstep_stepsBy {step step' : Elimination α n → Fin n → Except Failure (Elimination α n)}
    {w w' : Elimination α n}
    (R : (k : ℕ) → k ≤ n → Elimination α n → Elimination α n → Prop)
    (hstart : R 0 (Nat.zero_le n) w w')
    (hstep : ∀ (r : Fin n) (v v' : Elimination α n), R r r.isLt.le v v' →
      Lockstep (R (r + 1) r.isLt) (step v r) (step' v' r)) (k : ℕ) (hk : k ≤ n) :
    Lockstep (R k hk) (stepsBy step w k hk) (stepsBy step' w' k hk) := by
  induction k with
  | zero => exact .ok hstart
  | succ k ih => exact (ih (Nat.le_of_succ_le hk)).bind (hstep ⟨k, hk⟩)

/-! ### Steps in place -/

/-- Rows `r` and `l` exchanged, the scale of row `r` kept for place `l` alone. -/
def exchangeInPlace (w : Elimination α n) (r l : Fin n) : Elimination α n where
  lu := w.lu.swap r l r.isLt l.isLt
  scale := w.scale.set l (w.scale.get r) l.isLt
  pivots := w.pivots.set r l r.isLt

/-- Eliminations that differ at most in the scales of the first `k` rows. -/
structure SameFrom (k : ℕ) (w w' : Elimination α n) : Prop where
  lu_eq : w'.lu = w.lu
  pivots_eq : w'.pivots = w.pivots
  scale_eq : ∀ i : Fin n, k ≤ i.val → w'.scale.get i = w.scale.get i

lemma SameFrom.refl (w : Elimination α n) : SameFrom 0 w w := ⟨rfl, rfl, fun _ _ => rfl⟩

variable {w w' : Elimination α n} {r : Fin n}

lemma SameFrom.exchange (h : SameFrom r w w') (l : Fin n) :
    SameFrom (r + 1) (w.exchange r l) (w'.exchangeInPlace r l) where
  lu_eq := by rw [Elimination.exchange, exchangeInPlace, h.lu_eq]
  pivots_eq := by rw [Elimination.exchange, exchangeInPlace, h.pivots_eq]
  scale_eq i hi := by
    have hne : i ≠ r := fun hir => by subst hir; omega
    change (w'.scale.set l (w'.scale.get r) l.isLt).get i = (w.scale.swap r l r.isLt l.isLt).get i
    rw [← get_set_get _ hne, get_set, get_set]
    split_ifs with hil
    · exact h.scale_eq r le_rfl
    · exact h.scale_eq i (by omega)

variable [Zero α] [Neg α] [LT α] [DecidableLT α] [Div α]

/-- The search looks at no offer of the rows before `r`. -/
lemma choose_congr (h : ∀ i, r ≤ i → w'.offer r i = w.offer r i) : w'.choose r = w.choose r := by
  unfold choose
  congr 1
  funext best i
  by_cases hi : r ≤ i
  · rw [h i hi]
  · rw [if_neg fun hbetter => hi hbetter.1, if_neg fun hbetter => hi hbetter.1]

lemma SameFrom.choose_eq (h : SameFrom r w w') : w'.choose r = w.choose r := by
  refine choose_congr fun i hi => ?_
  rw [offer, offer, h.lu_eq, h.scale_eq i hi]

variable [Sub α] [Mul α] [LE α] [DecidableLE α] (tolerance : α)

lemma steps_eq_stepsBy (w : Elimination α n) (k : ℕ) (hk : k ≤ n) :
    w.steps tolerance k hk = stepsBy (step tolerance) w k hk := by
  induction k with
  | zero => rfl
  | succ k ih =>
    have hsteps : w.steps tolerance (k + 1) hk =
        (w.steps tolerance k (Nat.le_of_succ_le hk)).bind (step tolerance · ⟨k, hk⟩) := rfl
    rw [hsteps, ih, stepsBy]

/-- Step `r` in place. -/
def stepInPlace (w : Elimination α n) (r : Fin n) : Except Failure (Elimination α n) :=
  let w := { w with lu := reduceColumn w.lu r }
  let (pivot, offer) := w.choose r
  if offer ≤ tolerance then .error (.illConditioned (.zeroPivot r))
  else
    let w := w.exchangeInPlace r pivot
    .ok { w with lu := reduceRow w.lu r }

lemma lockstep_stepInPlace (h : SameFrom r w w') :
    Lockstep (SameFrom (r + 1)) (w.step tolerance r) (w'.stepInPlace tolerance r) := by
  have hreduced : SameFrom r { w with lu := reduceColumn w.lu r }
      { w' with lu := reduceColumn w'.lu r } := ⟨by rw [h.lu_eq], h.pivots_eq, h.scale_eq⟩
  rw [step, stepInPlace, hreduced.choose_eq]
  dsimp only
  split_ifs with hle
  · exact .error _
  · have hex := hreduced.exchange
      (({ w with lu := reduceColumn w.lu r } : Elimination α n).choose r).1
    exact .ok ⟨by rw [hex.lu_eq], hex.pivots_eq, hex.scale_eq⟩

/-- A run in place differs from the run in the scales of finished rows alone. -/
lemma lockstep_stepsInPlace (w : Elimination α n) (k : ℕ) (hk : k ≤ n) :
    Lockstep (SameFrom k) (w.steps tolerance k hk) (stepsBy (stepInPlace tolerance) w k hk) := by
  rw [steps_eq_stepsBy]
  exact lockstep_stepsBy (fun k _ => SameFrom k) (.refl w)
    (fun r v v' => lockstep_stepInPlace tolerance) k hk

end Elimination

/-! ### Factorizations in place -/

variable [Zero α] [Neg α] [LT α] [DecidableLT α] [Div α] [Sub α] [Mul α] [LE α] [DecidableLE α]

/-- A factorization that works on one square and one vector of scales. -/
def factorizeInPlace (tolerance : α) (a : Square α n) : Except Failure (Factorization α n) := do
  let scale ← scales tolerance a
  let w ← Elimination.stepsBy (Elimination.stepInPlace tolerance) (.start a scale) n (Nat.le_refl n)
  return ⟨w.lu, w.pivots⟩

/-- **The scales need no exchange**: in any arithmetic the factorization in place comes to the
factors and the pivots of the one that exchanges them, or to its failure. -/
lemma factorizeInPlace_eq (tolerance : α) (a : Square α n) :
    factorizeInPlace tolerance a = factorize tolerance a := by
  have hscales : Lockstep (fun s s' => s' = s) (scales tolerance a) (scales tolerance a) := by
    cases scales tolerance a with
    | error f => exact .error f
    | ok s => exact .ok rfl
  refine Lockstep.eq (hscales.bind fun s s' hs => ?_)
  subst hs
  refine (Elimination.lockstep_stepsInPlace tolerance _ n le_rfl).bind fun w w' hw => ?_
  refine .ok ?_
  rw [hw.lu_eq, hw.pivots_eq]

end Simultaneous.Solver
