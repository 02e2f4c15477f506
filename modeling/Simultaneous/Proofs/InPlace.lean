import Mathlib
import Simultaneous.Proofs.Stages

/-!
Setups and solutions in place.

A setup and a solution can be carried out as work on one solver, whose fields are assigned one
after the other, and which keeps what has been assigned when a failure ends the work. A setup
assigns the factors last of all. A solution sets the counters to 0 before it starts, and the passes
assign them again. So a failure leaves neither the factors of another matrix nor the counters of an
earlier solution, and the work comes to what is said of the solver that a setup or a solution
returns.
-/

namespace Simultaneous.Solver

open Number (RatioOrder exceeds reaches)

variable {α : Type}

/-! ### Work -/

/-- Work on a solver, which may end in a failure. -/
abbrev Work (α β : Type) := ExceptT Failure (StateM (Solver α)) β

/-- What the work comes to, and the solver as it leaves it. -/
def Work.on {β : Type} (w : Work α β) (s : Solver α) : Except Failure β × Solver α :=
  (w.run.run s).run

section

variable {β γ : Type} (s t : Solver α)

@[simp] lemma on_pure (c : β) : (pure c : Work α β).on s = (.ok c, s) := rfl

@[simp] lemma on_throw (f : Failure) : (throw f : Work α β).on s = (.error f, s) := rfl

@[simp] lemma on_get : (get : Work α (Solver α)).on s = (.ok s, s) := rfl

@[simp] lemma on_set : (set t : Work α PUnit).on s = (.ok ⟨⟩, t) := rfl

@[simp] lemma on_modify (g : Solver α → Solver α) :
    (modify g : Work α PUnit).on s = (.ok ⟨⟩, g s) := rfl

@[simp] lemma on_liftM (r : Except Failure β) : (liftM r : Work α β).on s = (r, s) := rfl

/-- A failure ends the work, and what was assigned before stays. -/
@[simp] lemma on_bind (w : Work α β) (next : β → Work α γ) :
    (w >>= next).on s =
      match w.on s with
      | (.ok c, s') => (next c).on s'
      | (.error f, s') => (.error f, s') := by
  have hbind : (w >>= next).on s =
      ((ExceptT.bindCont next (w.on s).1).run (w.on s).2).run := rfl
  rw [hbind]
  rcases w.on s with ⟨f | c, s'⟩ <;> rfl

end

/-! ### Setups -/

/-- Factorizes the leading block of a matrix, and keeps the factors. -/
def setupInPlace [Zero α] [Sub α] [Mul α] [Div α] [Neg α] [LT α] [DecidableLT α] [LE α]
    [DecidableLE α] (n : ℕ) (a : Sparse (ℕ × ℕ) α) : Work α Unit := do
  let s ← get
  let factors ← factorize s.settings.pivotTolerance (block n a)
  set { s with dim := n, factors }

/-- **A setup in place** that fails leaves the solver as it was. -/
lemma on_setupInPlace [Zero α] [Sub α] [Mul α] [Div α] [Neg α] [LT α] [DecidableLT α] [LE α]
    [DecidableLE α] (n : ℕ) (a : Sparse (ℕ × ℕ) α) (s : Solver α) :
    (setupInPlace n a).on s =
      match s.setup n a with
      | .ok t => (.ok (), t)
      | .error f => (.error f, s) := by
  rw [setupInPlace, setup_eq]
  cases hf : factorize s.settings.pivotTolerance (block n a) <;> simp [hf, Except.map]

/-! ### Passes -/

variable [RatioOrder α]

/-- Weighs the correction of pass `k` and says whether it is the last one. There is nothing to
weigh the first against. -/
def weigh (k : ℕ) (p : Pass α) : Work α Bool := do
  let s ← get
  if k = 0 then return false
  else if k = 1 && exceeds p.ratio s.settings.illConditionedRatio then
    throw (.illConditioned .inaccurateDecomposition)
  else do
    set { s with ratio := p.ratio }
    return !reaches p.ratio s.settings.convergenceRatio

lemma on_weigh (k : ℕ) (p : Pass α) (s : Solver α) :
    (weigh k p).on s =
      if k = 0 then (.ok false, s)
      else if k = 1 && exceeds p.ratio s.settings.illConditionedRatio then
        (.error (.illConditioned .inaccurateDecomposition), s)
      else (.ok !reaches p.ratio s.settings.convergenceRatio, { s with ratio := p.ratio }) := by
  simp only [weigh, on_bind, on_get]
  split_ifs <;> rfl

variable [Zero α] [Add α] [Sub α] [Mul α] [Div α] [Neg α] [LT α] [DecidableLT α] {n : ℕ}

/-- Pass `k`, which corrects `x` by what makes up for `r`, and those after it, of which `left` are
allowed. -/
def passesInPlace (f : Factorization α n) (a : Square α n) (b : Vector α n) (k : ℕ)
    (x r : Vector α n) (left : ℕ) : Work α (Vector α n) := do
  let e := f.solve r
  let last ← weigh k ⟨greatest x, greatest e⟩
  modify fun s => { s with iterations := k + 1 }
  if last || n = 0 then return correct x e
  else
    match left with
    | 0 => do
      let s ← get
      throw (.illConditioned (.noConvergence s.settings.maxIterations))
    | left + 1 => passesInPlace f a b (k + 1) (correct x e) (residual a b (correct x e)) left

/-- A pass behind the first, with the counters that it assigns. -/
lemma on_passesInPlace_eq (hn : n ≠ 0) (f : Factorization α n) (a : Square α n) (b : Vector α n)
    {k : ℕ} (hk : k ≠ 0) (x r : Vector α n) (left : ℕ) (s : Solver α) :
    (passesInPlace f a b k x r left).on s =
      let e := f.solve r
      let p : Pass α := ⟨greatest x, greatest e⟩
      let s' := { s with iterations := k + 1, ratio := p.ratio }
      if k = 1 && exceeds p.ratio s.settings.illConditionedRatio then
        (.error (.illConditioned .inaccurateDecomposition), s)
      else if reaches p.ratio s.settings.convergenceRatio then
        match left with
        | 0 => (.error (.illConditioned (.noConvergence s.settings.maxIterations)), s')
        | left + 1 =>
          (passesInPlace f a b (k + 1) (correct x e) (residual a b (correct x e)) left).on s'
      else (.ok (correct x e), s') := by
  rw [passesInPlace.eq_def, on_bind, on_weigh, if_neg hk]
  dsimp only
  split_ifs with hdistrust hreach
  · rfl
  · cases left <;> simp [hn, hreach]
  · rw [Bool.eq_false_iff.mpr hreach]
    rfl

variable [One α]

/-- The passes behind the first come to a refinement. The counters must be those that the first
pass leaves, since the second may give up before it assigns them. -/
lemma on_passesInPlace (hn : n ≠ 0) (f : Factorization α n) (a : Square α n) (b : Vector α n)
    {k : ℕ} (hk : k ≠ 0) (x : Vector α n) (done : List (Pass α)) (left : ℕ) {s : Solver α}
    (hfirst : k = 1 → s = { s with iterations := 1, ratio := 0 }) :
    (passesInPlace f a b k x (residual a b x) left).on s =
      let r := refineFrom s.settings f a b k x done left
      (r.outcome.mapError .illConditioned,
        { s with iterations := r.iterations, ratio := r.ratio }) := by
  induction left generalizing k x done s with
  | zero =>
    rw [on_passesInPlace_eq hn f a b hk, refineFrom.eq_def]
    dsimp only
    split_ifs with hdistrust
    · have hone : k = 1 := of_decide_eq_true (Bool.and_eq_true_iff.mp hdistrust).1
      exact congrArg (Prod.mk _) (hfirst hone)
    · rfl
    · rfl
  | succ left ih =>
    rw [on_passesInPlace_eq hn f a b hk, refineFrom.eq_def]
    dsimp only
    split_ifs with hdistrust
    · have hone : k = 1 := of_decide_eq_true (Bool.and_eq_true_iff.mp hdistrust).1
      exact congrArg (Prod.mk _) (hfirst hone)
    · exact ih (Nat.succ_ne_zero k) _ _ fun hone => absurd (Nat.succ.inj hone) hk
    · rfl

/-! ### Solutions -/

/-- Sets the counters to 0, and refines the solution of `A * x = b` from nothing. -/
def solveInPlace (a : Sparse (ℕ × ℕ) α) (b : Sparse ℕ α) : Work α (Sparse ℕ α) := do
  modify fun s => { s with iterations := 0, ratio := 0 }
  let s ← get
  let x ← passesInPlace s.factors (block s.dim a) (segment s.dim b) 0 (Vector.replicate s.dim 0)
    (segment s.dim b) s.settings.maxIterations
  return toSparse x

/-- **A solution in place** has the answer and the counters of a solution. -/
lemma on_solveInPlace (a : Sparse (ℕ × ℕ) α) (b : Sparse ℕ α) (s : Solver α) :
    (solveInPlace a b).on s = ((s.solve a b).value.2, (s.solve a b).value.1) := by
  rw [solveInPlace]
  simp only [on_bind, on_modify, on_get]
  rw [passesInPlace.eq_def, on_bind, on_weigh, if_pos rfl]
  simp only [on_bind, on_modify, Bool.false_or, decide_eq_true_eq]
  split_ifs with hn
  · rw [on_pure, solve, refine, if_pos hn]
    rfl
  · rw [solve, refine, if_neg hn]
    cases hmax : s.settings.maxIterations with
    | zero =>
      simp only [on_bind, on_get, on_throw, hmax]
      rfl
    | succ left =>
      dsimp only
      rw [on_passesInPlace hn _ _ _ Nat.one_ne_zero _ [] left fun _ => rfl]
      dsimp only
      generalize refineFrom s.settings s.factors (block s.dim a) (segment s.dim b) 1
        (correct (Vector.replicate s.dim 0) (s.factors.solve (segment s.dim b))) [] left = r
      obtain ⟨outcome, iterations, ratio, passes⟩ := r
      cases outcome <;> rfl

end Simultaneous.Solver
