import Mathlib
import Simultaneous.Proofs.GuardedSteps
import Simultaneous.Proofs.Histories

/-!
A solver under guard.

The solver is run again on bare arrays, with every place, every length, every scale and every pivot
checked that it comes across in setups and solutions. The checks hold in every solver that calls
lead to, since the factors that it keeps are those of a setup. So a check never fails, and the
solver under guard answers as the solver does.
-/

namespace Simultaneous.Solver

open Number (Ratio RatioOrder exceeds reaches)

variable {α ε : Type} {n : ℕ}

/-! ### Sums and residuals -/

/-- The sum of two arrays of one length. -/
def guardedAdd [Add α] (x e : Array α) : Guarded ε (Array α) :=
  if x.size = e.size then .ok (Array.zipWith (· + ·) x e) else .error (.slip .length)

lemma guardedAdd_toArray [Add α] (x e : Vector α n) :
    (guardedAdd x.toArray e.toArray : Guarded ε _) = .ok (correct x e).toArray := by
  rw [guardedAdd, if_pos (by simp)]
  rfl

/-- What `x` lacks, for rows as long as `x` and as many as there are right-hand sides. -/
def guardedResidual [Sub α] [Mul α] (a : Array (Array α)) (b x : Array α) : Guarded ε (Array α) :=
  if a.size = b.size ∧ ∀ row ∈ a, row.size = x.size then
    each 0 b.size b fun r i => do
      let t ← readAt r i
      let t ← lessEach 0 x.size t (readEntry a i) (readAt x)
      writeAt r i t
  else .error (.slip .length)

lemma guardedResidual_toArray [Sub α] [Mul α] (a : Square α n) (b x : Vector α n) :
    (guardedResidual (rows a) b.toArray x.toArray : Guarded ε _) =
      .ok (residual a b x).toArray := by
  have hlengths : (rows a).size = b.toArray.size ∧ ∀ row ∈ rows a, row.size = x.toArray.size := by
    simp [rows]
  have hx : x.toArray.size = n := x.size_toArray
  rw [guardedResidual, if_pos hlengths, hx, b.size_toArray]
  refine each_of_writes b (residual a b x) fun i => ?_
  -- the right-hand side is still in its place when its turn comes
  have hlacks : (overwritten b (residual a b x) i).get i = b.get i :=
    (get_overwritten i b _ i).trans (if_neg (lt_irrefl _))
  have hless : (lessEach 0 n (b.get i) (readEntry (rows a) i) (readAt x.toArray) : Guarded ε α) =
      .ok ((residual a b x).get i) := by
    rw [residual, get_ofFn]
    refine lessEach_eq _ (a.get i).get x.get (fun m => ?_) fun m => ?_
    · rw [Nat.zero_add]
      exact readEntry_rows a i m
    · rw [Nat.zero_add]
      exact readAt_toArray x m
  rw [readAt_toArray, ok_bind, hlacks, hless, ok_bind, writeAt_toArray]

/-! ### Refinements -/

section Refinements

variable [Zero α] [One α] [Add α] [Sub α] [Mul α] [Div α] [Neg α] [LT α] [DecidableLT α]
  [RatioOrder α]

/-- The outcome of a refinement on bare arrays, its iterations and its ratio. -/
abbrev BareRefinement (α : Type) := Except Conditioning (Array α) × ℕ × Ratio α

/-- Pass `k` and those after it under guard; `r` is what `x` lacks. -/
def guardedRefineFrom (settings : Settings α) (lu : Array (Array α)) (pivots : Array ℕ)
    (a : Array (Array α)) (b : Array α) (k : ℕ) (x r : Array α) (left : ℕ) :
    Guarded Empty (BareRefinement α) := do
  let e ← guardedSubstitute lu pivots r
  let pass : Pass α := ⟨greatestIn x, greatestIn e⟩
  if k = 1 && exceeds pass.ratio settings.illConditionedRatio then
    return (.error .inaccurateDecomposition, 1, 0)
  else do
    let x ← guardedAdd x e
    let r ← guardedResidual a b x
    if reaches pass.ratio settings.convergenceRatio then
      match left with
      | 0 => return (.error (.noConvergence settings.maxIterations), k + 1, pass.ratio)
      | left + 1 => guardedRefineFrom settings lu pivots a b (k + 1) x r left
    else return (.ok x, k + 1, pass.ratio)

/-- A refinement under guard. -/
def guardedRefine (settings : Settings α) (lu : Array (Array α)) (pivots : Array ℕ)
    (a : Array (Array α)) (b : Array α) : Guarded Empty (BareRefinement α) := do
  let e ← guardedSubstitute lu pivots b
  let x ← guardedAdd (Array.replicate pivots.size 0) e
  let r ← guardedResidual a b x
  if pivots.size = 0 then return (.ok x, 1, 0)
  else
    match settings.maxIterations with
    | 0 => return (.error (.noConvergence 0), 1, 0)
    | left + 1 => guardedRefineFrom settings lu pivots a b 1 x r left

/-- A refinement on bare arrays. -/
def Refinement.bare (r : Refinement α n) : BareRefinement α :=
  (r.outcome.map Vector.toArray, r.iterations, r.ratio)

variable {settings : Settings α} {f : Factorization α n}

lemma guardedRefineFrom_bare (hf : f.Sound) (a : Square α n) (b : Vector α n) (k : ℕ)
    (x : Vector α n) (done : List (Pass α)) (left : ℕ) :
    guardedRefineFrom settings f.bare.1 f.bare.2 (rows a) b.toArray k x.toArray
      (residual a b x).toArray left = .ok (refineFrom settings f a b k x done left).bare := by
  induction left generalizing k x done with
  | zero =>
    rw [guardedRefineFrom, guardedSubstitute_bare hf, ok_bind, refineFrom.eq_def]
    dsimp only
    rw [guardedAdd_toArray, ok_bind, guardedResidual_toArray, ok_bind, greatestIn_toArray,
      greatestIn_toArray]
    split_ifs <;> rfl
  | succ left ih =>
    rw [guardedRefineFrom, guardedSubstitute_bare hf, ok_bind, refineFrom.eq_def]
    dsimp only
    rw [guardedAdd_toArray, ok_bind, guardedResidual_toArray, ok_bind, greatestIn_toArray,
      greatestIn_toArray]
    split_ifs
    · rfl
    · exact ih (k + 1) _ _
    · rfl

/-- **A refinement under guard** does not slip on sound factors. -/
lemma guardedRefine_bare (hf : f.Sound) (a : Square α n) (b : Vector α n) :
    guardedRefine settings f.bare.1 f.bare.2 (rows a) b.toArray =
      .ok (refine settings f a b).bare := by
  have hsize : f.bare.2.size = n := by simp [Factorization.bare]
  have hzeros : Array.replicate n (0 : α) = (Vector.replicate n 0).toArray := rfl
  rw [guardedRefine, guardedSubstitute_bare hf, ok_bind, hsize, hzeros, guardedAdd_toArray, ok_bind,
    guardedResidual_toArray, ok_bind, refine]
  split_ifs with hn
  · rfl
  · cases settings.maxIterations with
    | zero => rfl
    | succ left => exact guardedRefineFrom_bare hf a b 1 _ [] left

end Refinements

/-! ### Calls -/

/-- A solver on bare arrays. -/
structure BareSolver (α : Type) where
  settings : Settings α
  lu : Array (Array α)
  pivots : Array ℕ
  iterations : ℕ
  ratio : Ratio α

/-- The bare arrays of a solver. -/
def bare (s : Solver α) : BareSolver α where
  settings := s.settings
  lu := rows s.factors.lu
  pivots := (s.factors.pivots.map Fin.val).toArray
  iterations := s.iterations
  ratio := s.ratio

/-- The leading block of a matrix, row by row. -/
def bareBlock (n : ℕ) (a : Sparse (ℕ × ℕ) α) : Array (Array α) :=
  Array.ofFn fun i : Fin n => Array.ofFn fun j : Fin n => a.get (i.val, j.val)

def bareSegment (n : ℕ) (b : Sparse ℕ α) : Array α := Array.ofFn fun i : Fin n => b.get i.val

lemma rows_block (n : ℕ) (a : Sparse (ℕ × ℕ) α) : rows (block n a) = bareBlock n a := by
  refine Array.ext (by simp [bareBlock]) fun i _ _ => ?_
  simp [rows, block, bareBlock]

lemma toArray_segment (n : ℕ) (b : Sparse ℕ α) : (segment n b).toArray = bareSegment n b := rfl

section Calls

variable [Zero α]

/-- The entries of an array, each stored in its place. -/
def bareSparse (x : Array α) : Sparse ℕ α :=
  x.toList.zipIdx.foldl (fun s entry => s.set entry.2 entry.1) (.empty 0)

lemma bareSparse_toArray (x : Vector α n) : bareSparse x.toArray = toSparse x := by
  have hentries : x.toArray.toList.zipIdx = (List.finRange n).map fun i => (x.get i, i.val) := by
    refine List.ext_getElem (by simp) fun i _ _ => ?_
    simp [get_eq_getElem]
  rw [bareSparse, hentries, List.foldl_map]
  rfl

variable [One α] [Add α] [Sub α] [Mul α] [Div α] [Neg α] [LT α] [DecidableLT α] [LE α]
  [DecidableLE α] [RatioOrder α]

namespace BareSolver

def new (settings : Settings α) : BareSolver α := ⟨settings, #[], #[], 0, 0⟩

omit [Add α] [Sub α] [Mul α] [Div α] [Neg α] [LT α] [DecidableLT α] [LE α] [DecidableLE α]
  [RatioOrder α] in
lemma bare_new (settings : Settings α) : (Solver.new settings).bare = new settings := by
  simp [bare, Solver.new, new, rows]

/-- The answer to a call and the solver after it, unless the call slips. -/
def call (s : BareSolver α) :
    Call α → Except Slip (Except Failure (Option (Sparse ℕ α)) × BareSolver α)
  | .setup n a =>
    match guardedFactorize s.settings.pivotTolerance (bareBlock n a) with
    | .ok (lu, pivots) => .ok (.ok none, { s with lu, pivots })
    | .error (.failure f) => .ok (.error f, s)
    | .error (.slip e) => .error e
  | .solve a b =>
    let n := s.pivots.size
    match guardedRefine s.settings s.lu s.pivots (bareBlock n a) (bareSegment n b) with
    | .ok (outcome, iterations, ratio) =>
      .ok (((outcome.map bareSparse).mapError .illConditioned).map some,
        { s with iterations, ratio })
    | .error (.slip e) => .error e

/-- The solver after calls in turn, unless one of them slips. -/
def after (s : BareSolver α) (calls : List (Call α)) : Except Slip (BareSolver α) :=
  calls.foldlM (fun s c => do
    let (_, s) ← s.call c
    return s) s

end BareSolver

variable [Proportions α] {s : Solver α}

/-- **A call under guard** does not slip on sound factors. -/
lemma bare_call (htol : 0 ≤ s.settings.pivotTolerance) (hs : s.factors.Sound) (c : Call α) :
    s.bare.call c = .ok ((s.call c).1, (s.call c).2.bare) := by
  cases c with
  | setup n a =>
    have hguarded : guardedFactorize s.bare.settings.pivotTolerance (bareBlock n a) =
        ((factorize s.settings.pivotTolerance (block n a)).map (·.bare)).mapError .failure := by
      rw [← rows_block]
      exact guardedFactorize_rows htol (block n a)
    rw [BareSolver.call, hguarded, call_setup, setup_eq]
    cases factorize s.settings.pivotTolerance (block n a) <;> rfl
  | solve a b =>
    have hsize : s.bare.pivots.size = s.dim := by simp [bare]
    have hguarded : guardedRefine s.bare.settings s.bare.lu s.bare.pivots (bareBlock s.dim a)
        (bareSegment s.dim b) = .ok (s.refinement a b).bare := by
      rw [← rows_block, ← toArray_segment]
      exact guardedRefine_bare hs (block s.dim a) (segment s.dim b)
    rw [BareSolver.call, hsize, hguarded, call_solve]
    have hsparse : ((s.refinement a b).outcome.map Vector.toArray).map bareSparse =
        (s.refinement a b).outcome.map toSparse := by
      cases (s.refinement a b).outcome with
      | error e => rfl
      | ok x => exact congrArg Except.ok (bareSparse_toArray x)
    rw [Refinement.bare]
    dsimp only
    rw [hsparse]
    rfl

/-! ### Histories -/

variable {settings : Settings α} {last : Option (ℕ × Sparse (ℕ × ℕ) α)}

omit [Add α] [RatioOrder α] in
/-- Factors of a setup are sound, and so are those that a solver has at first. -/
lemma GoesBy.sound (htol : 0 ≤ settings.pivotTolerance) (h : s.GoesBy settings last) :
    s.factors.Sound := by
  obtain ⟨settings', dim, factors, iterations, ratio⟩ := s
  cases last with
  | none =>
    obtain ⟨rfl, -⟩ := Sigma.mk.inj (Except.ok.inj h.factorsOf_eq)
    exact ⟨fun r => r.elim0, fun r => r.elim0⟩
  | some p =>
    obtain ⟨f, hf, heq⟩ := h.exists_factorize
    obtain ⟨rfl, heq⟩ := Sigma.mk.inj heq
    obtain rfl := eq_of_heq heq
    exact sound_of_factorize htol hf

/-- No call of a history slips. -/
lemma bare_after (htol : 0 ≤ settings.pivotTolerance) (h : s.GoesBy settings last)
    (calls : List (Call α)) : s.bare.after calls = .ok (s.after calls).bare := by
  induction calls generalizing s last with
  | nil => rfl
  | cons c calls ih =>
    have htol' : 0 ≤ s.settings.pivotTolerance := h.settings_eq ▸ htol
    rw [BareSolver.after, List.foldlM_cons, bare_call htol' (h.sound htol)]
    exact ih (h.call c)

end Calls

/-- **Nothing slips.** Whatever the entries are, numbers or not, a solver whose pivot tolerance is
not below 0 comes through any history of setups and solutions, and through the next call, without
a place outside its array, a scale that is not above 0 or a pivot that is 0 or not a number; and
the guards do not change what it comes to. -/
theorem bare_call_after (settings : Settings Float) (htol : 0 ≤ settings.pivotTolerance)
    (calls : List (Call Float)) :
    let s := (new settings).after calls
    (BareSolver.new settings).after calls = .ok s.bare ∧
      (∀ c, s.bare.call c = .ok ((s.call c).1, (s.call c).2.bare)) ∧
      s.bare.lu.size = s.dim ∧ (∀ row ∈ s.bare.lu, row.size = s.dim) ∧
      s.bare.pivots.size = s.dim ∧
      ∀ r < s.dim, (∃ p, s.bare.pivots[r]? = some p ∧ r ≤ p ∧ p < s.dim) ∧
        ∃ row d, s.bare.lu[r]? = some row ∧ row[r]? = some d ∧ d.isNaN = false ∧
          (d == 0) = false := by
  intro s
  have hs : s.GoesBy settings _ := (goesBy_new settings).after calls
  have hsound := hs.sound htol
  refine ⟨BareSolver.bare_new settings ▸ bare_after htol (goesBy_new settings) calls,
    bare_call (hs.settings_eq.symm ▸ htol) hsound, size_rows _, ?_, ?_, fun r hr => ?_⟩
  · simp [bare, rows]
  · simp [bare]
  · refine ⟨⟨s.factors.pivots.get ⟨r, hr⟩, ?_, hsound.pivot_ge ⟨r, hr⟩, Fin.isLt _⟩,
      (s.factors.lu.get ⟨r, hr⟩).toArray, toMatrix s.factors.lu ⟨r, hr⟩ ⟨r, hr⟩, ?_, ?_,
      Number.sided_iff.mp (hsound.diagonal ⟨r, hr⟩)⟩
    · simp [bare, hr, get_eq_getElem]
    · simp [bare, rows, hr, get_eq_getElem]
    · simp [toMatrix, hr, get_eq_getElem]

/-- The first matrix has an entry that is not a number and one that is infinite, and is given up.
The second has -0 in the place of the first pivot. -/
theorem bare_call_after_nan :
    let a : Sparse (ℕ × ℕ) Float :=
      (((Sparse.empty 0).set (0, 0) (0 / 0)).set (0, 1) (1 / 0)).set (1, 0) 2
    let a' : Sparse (ℕ × ℕ) Float :=
      (((Sparse.empty 0).set (0, 0) (-0)).set (0, 1) 2).set (1, 0) 4
    let b : Sparse ℕ Float := (Sparse.empty 0).set 0 6
    let calls : List (Call Float) := [.setup 2 a, .setup 2 a', .solve a' b]
    let s := (new .standard).after calls
    s.dim = 2 ∧ (BareSolver.new .standard).after calls = .ok s.bare ∧
      (s.call (.setup 2 a)).1.toBool = false ∧
      s.bare.call (.setup 2 a) = .ok ((s.call (.setup 2 a)).1, (s.call (.setup 2 a)).2.bare) ∧
      ∃ row d, s.bare.lu[0]? = some row ∧ row[0]? = some d ∧ (d == 0) = false := by
  intro a a' b calls s
  have hdim : s.dim = 2 := by decide +kernel
  have hfails : (s.call (.setup 2 a)).1.toBool = false := by decide +kernel
  obtain ⟨hafter, hcall, -, -, -, hplaces⟩ :=
    bare_call_after .standard (by decide +kernel) calls
  obtain ⟨-, row, d, hrow, hd, -, hne⟩ := hplaces 0 (by rw [hdim]; decide)
  exact ⟨hdim, hafter, hfails, hcall (.setup 2 a), row, d, hrow, hd, hne⟩

end Simultaneous.Solver
