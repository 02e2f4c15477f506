import Mathlib
import Simultaneous.Proofs.DoubleOrder
import Simultaneous.Proofs.Factorization
import Simultaneous.Proofs.Passes
import Simultaneous.Proofs.Stages

/-!
Stricter settings.

A tolerance does not choose the pivots, and a budget of passes does not choose the corrections. They
only say when to give up. So a smaller tolerance finds the same factors if a greater one finds any,
and gives up no earlier, and a greater budget finds the same solution in the same passes if a
smaller one was enough. This holds whatever the arithmetic is, as long as it compares transitively.
-/

namespace Simultaneous.Solver

open Number (RatioOrder exceeds reaches)

variable {α : Type} {n : ℕ}

/-! ### Tolerances -/

/-- A failure that is found no later than another one: the rows are looked at first, from the top
down, and then the columns are. -/
inductive Failure.NoLater : Failure → Failure → Prop where
  | row {i' i : ℕ} (h : i' ≤ i) : NoLater (.singular i') (.singular i)
  | row_column (i c : ℕ) : NoLater (.singular i) (.illConditioned (.zeroPivot c))
  | column {c' c : ℕ} (h : c' ≤ c) :
    NoLater (.illConditioned (.zeroPivot c')) (.illConditioned (.zeroPivot c))

section Tolerances

lemma le_of_stricter [LE α] [IsTrans α (· ≤ ·)] {t₁ t₂ : α} (ht : t₁ ≤ t₂) {x : α} (h : x ≤ t₁) :
    x ≤ t₂ := IsTrans.trans x t₁ t₂ h ht

variable [Zero α] [Neg α] [LT α] [DecidableLT α] [LE α] [DecidableLE α]

section

variable [Sub α] [Mul α] [Div α] {t : α} {w v : Elimination α n} {r : Fin n}

/-- The pivot of a step is chosen without a look at the tolerance. -/
lemma exists_step_eq (w : Elimination α n) (r : Fin n) :
    ∃ offer next, ∀ t : α,
      w.step t r = if offer ≤ t then .error (.illConditioned (.zeroPivot r)) else .ok next :=
  ⟨_, _, fun _ => rfl⟩

lemma eq_of_step_error {f : Failure} (h : w.step t r = .error f) :
    f = .illConditioned (.zeroPivot r) := by
  obtain ⟨offer, next, hstep⟩ := exists_step_eq w r
  rw [hstep] at h
  split_ifs at h
  exact (Except.error.inj h).symm

/-- A run that succeeds has succeeded in all of its stages. -/
lemma exists_steps_of_le {k m : ℕ} {hk : k ≤ n} (h : w.steps t k hk = .ok v) (hm : m ≤ k) :
    ∃ u, w.steps t m (hm.trans hk) = .ok u := by
  induction k generalizing v with
  | zero =>
    obtain rfl : m = 0 := Nat.le_zero.mp hm
    exact ⟨v, h⟩
  | succ k ih =>
    rcases Nat.le_succ_iff.mp hm with hle | rfl
    · obtain ⟨u, hu, -⟩ := steps_succ_ok h
      exact ih hu hle
    · exact ⟨v, h⟩

end

variable [IsTrans α (· ≤ ·)] {t₁ t₂ : α} (ht : t₁ ≤ t₂) {a : Square α n} {s : Vector α n}

include ht

lemma scales_of_stricter (h : scales t₂ a = .ok s) : scales t₁ a = .ok s := by
  obtain ⟨rfl, haccepts⟩ := scales_accepts h
  cases h₁ : scales t₁ a with
  | ok s' => rw [(scales_accepts h₁).1]
  | error f =>
    obtain ⟨i, rfl, hi⟩ := scales_error h₁
    exact absurd (le_of_stricter ht hi.1) (haccepts i)

/-- The first row that is too small is still too small, and so may be one above it. -/
lemma exists_singular_of_stricter {f : Failure} (h : scales t₁ a = .error f) :
    ∃ i' i : ℕ, i' ≤ i ∧ f = .singular i ∧ scales t₂ a = .error (.singular i') := by
  obtain ⟨i, rfl, hi⟩ := scales_error h
  cases h₂ : scales t₂ a with
  | ok s => exact absurd (le_of_stricter ht hi.1) ((scales_accepts h₂).2 i)
  | error f' =>
    obtain ⟨i', rfl, hi'⟩ := scales_error h₂
    exact ⟨i', i, hi'.2 (le_of_stricter ht hi.1), rfl, rfl⟩

variable [Sub α] [Mul α] [Div α] {w v : Elimination α n} {r : Fin n} {k : ℕ} {hk : k ≤ n}

lemma step_of_stricter (h : w.step t₂ r = .ok v) : w.step t₁ r = .ok v := by
  obtain ⟨offer, next, hstep⟩ := exists_step_eq w r
  rw [hstep] at h ⊢
  split_ifs at h with hle
  rwa [if_neg fun hle₁ => hle (le_of_stricter ht hle₁)]

lemma steps_of_stricter (h : w.steps t₂ k hk = .ok v) : w.steps t₁ k hk = .ok v := by
  induction k generalizing v with
  | zero => exact h
  | succ k ih =>
    obtain ⟨u, hu, hstep⟩ := steps_succ_ok h
    rw [steps_succ, ih hu]
    exact step_of_stricter ht hstep

/-- The column where no row offers enough still has none that does, unless the elimination does not
come as far. -/
lemma exists_zeroPivot_of_stricter {f : Failure} (h : w.steps t₁ k hk = .error f) :
    ∃ c' c : ℕ, c' ≤ c ∧ f = .illConditioned (.zeroPivot c) ∧
      w.steps t₂ k hk = .error (.illConditioned (.zeroPivot c')) := by
  cases h₂ : w.steps t₂ k hk with
  | ok v => exact nomatch (steps_of_stricter ht h₂).symm.trans h
  | error f' =>
    obtain ⟨r, v, hv, hstep⟩ := steps_error hk h
    obtain ⟨r', v', hv', hstep'⟩ := steps_error hk h₂
    obtain rfl := eq_of_step_error hstep
    obtain rfl := eq_of_step_error hstep'
    refine ⟨r', r, ?_, rfl, rfl⟩
    -- otherwise step `r` succeeds with the greater tolerance, and then with the smaller one
    by_contra hlt
    obtain ⟨u, hu⟩ := exists_steps_of_le hv' (not_le.mp hlt)
    obtain ⟨v₁, hv₁, hstep₁⟩ := steps_succ_ok (steps_of_stricter ht hu)
    obtain rfl : v = v₁ := Except.ok.inj (hv.symm.trans hv₁)
    exact nomatch hstep.symm.trans hstep₁

lemma factorize_of_stricter {f : Factorization α n} (h : factorize t₂ a = .ok f) :
    factorize t₁ a = .ok f := by
  obtain ⟨s, w, hs, hw, rfl⟩ := factorize_ok h
  rw [factorize_eq, scales_of_stricter ht hs]
  simp only [Except.bind, steps_of_stricter ht hw]

lemma exists_noLater_of_stricter {f : Failure} (h : factorize t₁ a = .error f) :
    ∃ f', factorize t₂ a = .error f' ∧ f'.NoLater f := by
  rw [factorize_eq] at h ⊢
  cases hs₁ : scales t₁ a with
  | error g =>
    rw [hs₁] at h
    obtain rfl : g = f := Except.error.inj h
    obtain ⟨i', i, hle, rfl, hs₂⟩ := exists_singular_of_stricter ht hs₁
    rw [hs₂]
    exact ⟨_, rfl, .row hle⟩
  | ok s =>
    cases hw₁ : (Elimination.start a s).steps t₁ n le_rfl with
    | ok w => simp [hs₁, hw₁, Except.bind] at h
    | error g =>
      simp only [hs₁, hw₁, Except.bind] at h
      obtain rfl : g = f := Except.error.inj h
      obtain ⟨c', c, hle, rfl, hw₂⟩ := exists_zeroPivot_of_stricter ht hw₁
      cases hs₂ : scales t₂ a with
      | error g =>
        obtain ⟨i, rfl, -⟩ := scales_error hs₂
        exact ⟨_, rfl, .row_column i c⟩
      | ok s' =>
        obtain rfl : s' = s := Except.ok.inj ((scales_of_stricter ht hs₂).symm.trans hs₁)
        simp only [Except.bind, hw₂]
        exact ⟨_, rfl, .column hle⟩

end Tolerances

/-! ### Budgets -/

section Budgets

variable [Zero α] [One α] [Add α] [Sub α] [Mul α] [Div α] [Neg α] [LT α] [DecidableLT α]
  [RatioOrder α] {settings : Settings α} {f : Factorization α n} {a : Square α n}
  {b x : Vector α n}

/-- The settings with another budget of passes. -/
def Settings.allowing (settings : Settings α) (m : ℕ) : Settings α :=
  { settings with maxIterations := m }

/-- A refinement that succeeds is carried out alike with a greater budget. -/
lemma refine_of_allowing {m₁ m₂ : ℕ} (hm : m₁ ≤ m₂)
    (h : (refine (settings.allowing m₁) f a b).outcome = .ok x) :
    refine (settings.allowing m₂) f a b = refine (settings.allowing m₁) f a b := by
  by_cases hn : n = 0
  · rw [refine_of_eq_zero hn, refine_of_eq_zero hn]
  have hends₁ := refine_ends hn (settings.allowing m₁) f a b
  have hends₂ := refine_ends hn (settings.allowing m₂) f a b
  refine hends₂.eq ?_
  generalize refine (settings.allowing m₁) f a b = r at h hends₁
  cases hends₁ with
  | forbidden => exact nomatch h
  | distrusted => exact nomatch h
  | exhausted => exact nomatch h
  | converged hpos hallowed htrusted hbefore hstops =>
    exact .converged hpos (hallowed.trans hm) htrusted hbefore hstops

/-- Only the first correction can be distrusted, and any budget that is not empty comes to it. -/
lemma distrusted_of_allowing {m₁ m₂ : ℕ} (h₁ : 1 ≤ m₁) (h₂ : 1 ≤ m₂) :
    (refine (settings.allowing m₁) f a b).outcome = .error .inaccurateDecomposition ↔
      (refine (settings.allowing m₂) f a b).outcome = .error .inaccurateDecomposition := by
  by_cases hn : n = 0
  · rw [refine_of_eq_zero hn, refine_of_eq_zero hn]
  · rw [(refine_ends hn _ f a b).outcome_eq_inaccurate_iff h₁,
      (refine_ends hn _ f a b).outcome_eq_inaccurate_iff h₂]
    rfl

end Budgets

/-! ### Solvers -/

/-- The settings with another tolerance. -/
def Settings.tolerating (settings : Settings α) (t : α) : Settings α :=
  { settings with pivotTolerance := t }

/-- The solver under other settings. -/
def under (s : Solver α) (settings : Settings α) : Solver α := { s with settings }

variable [Zero α] [One α] [Add α] [Sub α] [Mul α] [Div α] [Neg α] [LT α] [DecidableLT α] [LE α]
  [DecidableLE α] [IsTrans α (· ≤ ·)] [RatioOrder α]

/-- **Settings are inert** as long as they do not make a solver give up. With a smaller tolerance a
setup that succeeds keeps the same factors, and one that fails has failed no later with the greater
one. With a greater budget a solution is the same to the last counter and record, and the factors
are distrusted in the same cases. -/
theorem inert_of_stricter (s : Solver α) (t₁ t₂ : α) (ht : t₁ ≤ t₂) (m₁ m₂ : ℕ) (hm : m₁ ≤ m₂) :
    (∀ (n : ℕ) (a : Sparse (ℕ × ℕ) α),
      let setup t := (s.under (s.settings.tolerating t)).setup n a
      (∀ u, setup t₂ = .ok u → setup t₁ = .ok (u.under (s.settings.tolerating t₁))) ∧
        ∀ f, setup t₁ = .error f → ∃ f', setup t₂ = .error f' ∧ f'.NoLater f) ∧
    ∀ (a : Sparse (ℕ × ℕ) α) (b : Sparse ℕ α),
      let solve m := (s.under (s.settings.allowing m)).solve a b
      (∀ x, (solve m₁).value.2 = .ok x →
        solve m₂ =
          { value := ((solve m₁).value.1.under (s.settings.allowing m₂), .ok x)
            log := (solve m₁).log }) ∧
        (1 ≤ m₁ →
          ((solve m₁).value.2 = .error (.illConditioned .inaccurateDecomposition) ↔
            (solve m₂).value.2 = .error (.illConditioned .inaccurateDecomposition))) := by
  refine ⟨fun n a => ⟨fun u hu => ?_, fun f hf => ?_⟩, fun a b => ⟨fun x hx => ?_, fun h₁ => ?_⟩⟩
  · obtain ⟨f, hf, rfl⟩ := (setup_eq_ok_iff _ _ _).mp hu
    exact (setup_eq_ok_iff _ _ _).mpr ⟨f, factorize_of_stricter ht hf, rfl⟩
  · obtain ⟨f', hf', hlater⟩ :=
      exists_noLater_of_stricter ht ((setup_eq_error_iff _ _ _).mp hf)
    exact ⟨f', (setup_eq_error_iff _ _ _).mpr hf', hlater⟩
  · obtain ⟨y, hy, -⟩ := (solve_eq_ok_iff _ a b).mp hx
    have hsame := refine_of_allowing hm hy
    rw [← hx]
    simp only [Solver.solve, under] at hsame ⊢
    rw [hsame]
  · rw [solve_eq_error_iff, solve_eq_error_iff]
    exact distrusted_of_allowing h₁ (h₁.trans hm)

/-- Doubles, with a tolerance that two pivots are above, and three passes that are enough. -/
theorem inert_of_stricter_doubles :
    let solver : Solver Float := .new .standard
    let a := ((((Sparse.empty (0 : Float)).set (0, 0) 1).set (0, 1) 3).set (1, 0) 4).set (1, 1) 1
    let b := ((Sparse.empty (0 : Float)).set 0 7).set 1 6
    let strict := solver.settings.tolerating 0.25
    let tolerant := solver.settings.tolerating 0
    ∃ u x, (solver.under strict).setup 2 a = .ok u ∧
      (solver.under tolerant).setup 2 a = .ok (u.under tolerant) ∧
      ((u.under (u.settings.allowing 3)).solve a b).value.2 = .ok x ∧
      ((u.under (u.settings.allowing 200)).solve a b).value.2 = .ok x := by
  intro solver a b strict tolerant
  have hruns : ((solver.under strict).setup 2 a).toOption.map (fun u =>
      ((u.under (u.settings.allowing 3)).solve a b).value.2.toBool) = some true := by
    decide +kernel
  cases hu : (solver.under strict).setup 2 a with
  | error f => exact nomatch (congrArg Except.toOption hu ▸ hruns)
  | ok u =>
    rw [hu] at hruns
    cases hx : ((u.under (u.settings.allowing 3)).solve a b).value.2 with
    | error f => exact nomatch (congrArg Except.toBool hx).symm.trans (Option.some.inj hruns)
    | ok x =>
      obtain ⟨hsetup, -⟩ := inert_of_stricter solver 0 0.25 (by decide +kernel) 0 0 le_rfl
      obtain ⟨-, hsolve⟩ := inert_of_stricter u 0 0.25 (by decide +kernel) 3 200 (by decide)
      have hmore := congrArg (fun solved => solved.value.2) ((hsolve a b).1 x hx)
      exact ⟨u, x, rfl, (hsetup 2 a).1 u hu, hx, hmore⟩

end Simultaneous.Solver
