import Mathlib
import Simultaneous.Proofs.Exact
import Simultaneous.Proofs.InPlace

/-!
Solvers with a past.

A solver is set up and solves in any order, and goes on after a failure. All that it keeps of its
past are the factors of the last setup that did not fail, and the counters of the last solution,
which the next solution sets anew. Of a matrix or a right-hand side it sees no more than what the
places of the leading block read as. So solvers whose last setups agree there solve alike.
-/

namespace Simultaneous.Solver

open Number (RatioOrder)

variable {α : Type}

/-! ### What a solver sees -/

/-- Matrices that read alike in the leading block. -/
def SameBlock (n : ℕ) (a a' : Sparse (ℕ × ℕ) α) : Prop :=
  ∀ i j, i < n → j < n → a.get (i, j) = a'.get (i, j)

/-- Vectors that read alike in the first places. -/
def SameSegment (n : ℕ) (b b' : Sparse ℕ α) : Prop :=
  ∀ i, i < n → b.get i = b'.get i

/-- Setups of one size, with matrices that read alike there. -/
def SameSetup (p q : ℕ × Sparse (ℕ × ℕ) α) : Prop := p.1 = q.1 ∧ SameBlock p.1 p.2 q.2

lemma block_congr {n : ℕ} {a a' : Sparse (ℕ × ℕ) α} (h : SameBlock n a a') :
    block n a = block n a' := by
  refine Vector.ext fun i hi => Vector.ext fun j hj => ?_
  simpa [block] using h i j hi hj

lemma segment_congr {n : ℕ} {b b' : Sparse ℕ α} (h : SameSegment n b b') :
    segment n b = segment n b' := by
  refine Vector.ext fun i hi => ?_
  simpa [segment] using h i hi

variable [Zero α] [One α] [Sub α] [Mul α] [Div α] [Neg α] [LT α] [DecidableLT α]

/-- Solvers with the same factors solve alike what reads alike, whatever their counters are. -/
lemma solve_congr [Add α] [RatioOrder α] {s t : Solver α} (hsettings : s.settings = t.settings)
    (hfactors : (⟨s.dim, s.factors⟩ : Σ n, Factorization α n) = ⟨t.dim, t.factors⟩)
    {a a' : Sparse (ℕ × ℕ) α} {b b' : Sparse ℕ α} (ha : SameBlock s.dim a a')
    (hb : SameSegment s.dim b b') : s.solve a b = t.solve a' b' := by
  obtain ⟨settings, dim, factors, iterations, ratio⟩ := s
  obtain ⟨settings', dim', factors', iterations', ratio'⟩ := t
  obtain rfl : settings = settings' := hsettings
  obtain ⟨rfl, heq⟩ := Sigma.mk.inj hfactors
  obtain rfl := eq_of_heq heq
  simp only [solve, block_congr ha, segment_congr hb]

/-! ### What a solver keeps -/

variable [LE α] [DecidableLE α] {settings : Settings α}
  {last last' : Option (ℕ × Sparse (ℕ × ℕ) α)} {s t : Solver α}

/-- The factors of a setup, or those of a new solver if there was none. -/
def factorsOf (settings : Settings α) :
    Option (ℕ × Sparse (ℕ × ℕ) α) → Except Failure (Σ n, Factorization α n)
  | none => .ok ⟨0, (new settings).factors⟩
  | some (n, a) => (factorize settings.pivotTolerance (block n a)).map (Sigma.mk n)

lemma factorsOf_congr (h : Option.Rel SameSetup last last') :
    factorsOf settings last = factorsOf settings last' := by
  cases h with
  | none => rfl
  | @some p q h =>
    obtain ⟨n, a⟩ := p
    obtain ⟨n', a'⟩ := q
    obtain ⟨rfl, h⟩ := h
    rw [factorsOf, factorsOf, block_congr h]

/-- A solver goes by its settings and a setup. -/
structure GoesBy (s : Solver α) (settings : Settings α) (last : Option (ℕ × Sparse (ℕ × ℕ) α)) :
    Prop where
  settings_eq : s.settings = settings
  factorsOf_eq : factorsOf settings last = .ok ⟨s.dim, s.factors⟩

lemma goesBy_new (settings : Settings α) : (new settings).GoesBy settings none := ⟨rfl, rfl⟩

namespace GoesBy

/-- The setup that a solver goes by has not failed. -/
lemma exists_factorize {p : ℕ × Sparse (ℕ × ℕ) α} (h : s.GoesBy settings (some p)) :
    ∃ f, factorize settings.pivotTolerance (block p.1 p.2) = .ok f ∧
      (⟨p.1, f⟩ : Σ n, Factorization α n) = ⟨s.dim, s.factors⟩ := by
  have hfactors := h.factorsOf_eq
  rw [factorsOf] at hfactors
  cases hf : factorize settings.pivotTolerance (block p.1 p.2) with
  | error f =>
    rw [hf] at hfactors
    exact nomatch hfactors
  | ok f =>
    rw [hf] at hfactors
    exact ⟨f, rfl, Except.ok.inj hfactors⟩

lemma dim_eq (h : s.GoesBy settings last) : s.dim = last.elim 0 Prod.fst := by
  cases last with
  | none => exact (congrArg Sigma.fst (Except.ok.inj h.factorsOf_eq)).symm
  | some p =>
    obtain ⟨f, -, hfactors⟩ := h.exists_factorize
    exact (congrArg Sigma.fst hfactors).symm

lemma setup (h : s.GoesBy settings last) {n : ℕ} {a : Sparse (ℕ × ℕ) α}
    (hsetup : s.setup n a = .ok t) : t.GoesBy settings (some (n, a)) := by
  obtain ⟨factors, hfactors, rfl⟩ := (setup_eq_ok_iff s t a).mp hsetup
  rw [h.settings_eq] at hfactors
  exact ⟨h.settings_eq, congrArg (Except.map (Sigma.mk n)) hfactors⟩

end GoesBy

/-! ### Calls -/

inductive Call (α : Type) where
  | setup (n : ℕ) (a : Sparse (ℕ × ℕ) α)
  | solve (a : Sparse (ℕ × ℕ) α) (b : Sparse ℕ α)

variable [Add α] [RatioOrder α]

/-- What a call does. A setup has no answer but that it did not fail. -/
def Call.work : Call α → Work α (Option (Sparse ℕ α))
  | .setup n a => do
    setupInPlace n a
    return none
  | .solve a b => do
    let x ← solveInPlace a b
    return some x

/-- The answer to a call, and the solver after it. -/
def call (s : Solver α) (c : Call α) : Except Failure (Option (Sparse ℕ α)) × Solver α :=
  c.work.on s

lemma call_setup (s : Solver α) (n : ℕ) (a : Sparse (ℕ × ℕ) α) :
    s.call (.setup n a) =
      match s.setup n a with
      | .ok t => (.ok none, t)
      | .error f => (.error f, s) := by
  rw [call, Call.work, on_bind, on_setupInPlace]
  cases s.setup n a <;> rfl

lemma call_solve (s : Solver α) (a : Sparse (ℕ × ℕ) α) (b : Sparse ℕ α) :
    s.call (.solve a b) = ((s.solve a b).value.2.map some, (s.solve a b).value.1) := by
  rw [call, Call.work, on_bind, on_solveInPlace]
  cases (s.solve a b).value.2 <;> rfl

/-- The last setup that did not fail, once a call has got its answer. -/
def Call.accepted (c : Call α) (answer : Except Failure (Option (Sparse ℕ α)))
    (before : Option (ℕ × Sparse (ℕ × ℕ) α)) : Option (ℕ × Sparse (ℕ × ℕ) α) :=
  match c with
  | .setup n a =>
    match answer with
    | .ok _ => some (n, a)
    | .error _ => before
  | .solve _ _ => before

lemma GoesBy.call (h : s.GoesBy settings last) (c : Call α) :
    (s.call c).2.GoesBy settings (c.accepted (s.call c).1 last) := by
  cases c with
  | solve a b =>
    rw [call_solve]
    exact ⟨h.settings_eq, h.factorsOf_eq⟩
  | setup n a =>
    rw [call_setup]
    cases hsetup : s.setup n a with
    | error f => exact h
    | ok s' => exact h.setup hsetup

/-! ### Histories -/

/-- The solver after calls in turn, whatever answers they get. -/
def after (s : Solver α) (calls : List (Call α)) : Solver α :=
  calls.foldl (fun s c => (s.call c).2) s

/-- The last setup that did not fail, `before` being the one before the calls. -/
def lastSetup (s : Solver α) (before : Option (ℕ × Sparse (ℕ × ℕ) α)) :
    List (Call α) → Option (ℕ × Sparse (ℕ × ℕ) α)
  | [] => before
  | c :: calls => (s.call c).2.lastSetup (c.accepted (s.call c).1 before) calls

lemma GoesBy.after (h : s.GoesBy settings last) (calls : List (Call α)) :
    (s.after calls).GoesBy settings (s.lastSetup last calls) := by
  induction calls generalizing s last with
  | nil => exact h
  | cons c calls ih => exact ih (h.call c)

/-- **A solver has no memory** but of the last setup that did not fail. If the last setups of two
solvers are of one size and read alike there, or if there are none, then both solve alike, to the
last counter and record, what reads alike up to that size. A setup that fails leaves the solver as
it was, and to solve again gives the same again. -/
theorem solve_of_histories (settings : Settings α) (calls calls' : List (Call α))
    (hlast : Option.Rel SameSetup ((new settings).lastSetup none calls)
      ((new settings).lastSetup none calls')) :
    let s := (new settings).after calls
    let t := (new settings).after calls'
    s.dim = ((new settings).lastSetup none calls).elim 0 Prod.fst ∧ t.dim = s.dim ∧
      (∀ a a' b b', SameBlock s.dim a a' → SameSegment s.dim b b' →
        s.call (.solve a b) = t.call (.solve a' b') ∧
          (s.solve a b).log = (t.solve a' b').log) ∧
      (∀ n a f, (s.call (.setup n a)).1 = .error f → (s.call (.setup n a)).2 = s) ∧
      ∀ a b, s.call (.solve a b) = ((s.solve a b).value.2.map some, (s.solve a b).value.1) ∧
        (s.call (.solve a b)).2.call (.solve a b) = s.call (.solve a b) := by
  intro s t
  have hs := (goesBy_new settings).after calls
  have ht := (goesBy_new settings).after calls'
  have hfactors : (⟨s.dim, s.factors⟩ : Σ n, Factorization α n) = ⟨t.dim, t.factors⟩ :=
    Except.ok.inj (hs.factorsOf_eq.symm.trans ((factorsOf_congr hlast).trans ht.factorsOf_eq))
  have hsettings : s.settings = t.settings := hs.settings_eq.trans ht.settings_eq.symm
  refine ⟨hs.dim_eq, (congrArg Sigma.fst hfactors).symm, fun a a' b b' ha hb => ?_,
    fun n a f hf => ?_, fun a b => ⟨call_solve s a b, ?_⟩⟩
  · rw [call_solve, call_solve, solve_congr hsettings hfactors ha hb]
    exact ⟨rfl, rfl⟩
  · rw [call_setup] at hf ⊢
    cases hsetup : s.setup n a with
    | error f => rfl
    | ok s' =>
      rw [hsetup] at hf
      exact nomatch hf
  · rw [call_solve, call_solve]
    rfl

/-- The second setup of the one solver fails, and the other one has been set up for nothing
before. Their matrices differ behind the first place. -/
theorem solve_of_histories_with_failure :
    let a : Sparse (ℕ × ℕ) ℚ := (Sparse.empty 0).set (0, 0) 2
    let a' : Sparse (ℕ × ℕ) ℚ := (((Sparse.empty 7).set (0, 0) 2).set (0, 1) 0)
    let b : Sparse ℕ ℚ := (Sparse.empty 0).set 0 3
    let s := (new .standard).after [.setup 1 a, .setup 2 a, .solve a b]
    let t := (new .standard).after [.setup 0 a, .setup 1 a']
    s.dim = 1 ∧ s.call (.solve a b) = t.call (.solve a' b) := by
  intro a a' b s t
  have hs : ((new .standard).lastSetup none [.setup 1 a, .setup 2 a, .solve a b]).map
      (fun p => (p.1, p.2.get (0, 0))) = some (1, 2) := by
    decide +kernel
  have ht : ((new .standard).lastSetup none [.setup 0 a, .setup 1 a']).map
      (fun p => (p.1, p.2.get (0, 0))) = some (1, 2) := by
    decide +kernel
  obtain ⟨⟨n, m⟩, hp, hm⟩ := Option.map_eq_some_iff.mp hs
  obtain ⟨⟨n', m'⟩, hq, hm'⟩ := Option.map_eq_some_iff.mp ht
  obtain ⟨rfl, hm⟩ := Prod.mk.inj hm
  obtain ⟨rfl, hm'⟩ := Prod.mk.inj hm'
  have hone {a a' : Sparse (ℕ × ℕ) ℚ} (h : a.get (0, 0) = a'.get (0, 0)) : SameBlock 1 a a' := by
    intro i j hi hj
    obtain rfl := Nat.lt_one_iff.mp hi
    obtain rfl := Nat.lt_one_iff.mp hj
    exact h
  have hlast : Option.Rel SameSetup
      ((new .standard).lastSetup none [.setup 1 a, .setup 2 a, .solve a b])
      ((new .standard).lastSetup none [.setup 0 a, .setup 1 a']) := by
    rw [hp, hq]
    exact .some ⟨rfl, hone (hm.trans hm'.symm)⟩
  obtain ⟨hdim, -, hsolve, -, -⟩ := solve_of_histories .standard _ _ hlast
  rw [hp] at hdim
  refine ⟨hdim, (hsolve a a' b b ?_ fun i _ => rfl).1⟩
  rw [hdim]
  exact hone (by decide +kernel)

end Simultaneous.Solver
