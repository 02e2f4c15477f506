import Mathlib
import Simultaneous.Proofs.Classification
import Simultaneous.Proofs.Lockstep
import Simultaneous.Proofs.Refinement

/-!
Equations multiplied by factors.

A row offers its entry in a column in proportion to its scale, and a factor of the row is a factor
of both. So the elimination of multiples takes the same pivots, one step as the other. The factor
stays with the columns of `L`, and the rows of `U` are divided by it. The refinement then finds the
same corrections, since a multiple of a residual is solved with a multiple of the matrix.
-/

namespace Simultaneous.Solver

open Matrix

variable {α : Type} {n : ℕ} [Field α] [LinearOrder α]

/-! ### Eliminations of multiples -/

/-- An elimination after `k` steps, and that of the multiples of its rows by the factors `e`. The
finished rows of `U` are the same. -/
structure Elimination.Multiple (e : Fin n → α) (k : ℕ) (w w' : Elimination α n) : Prop where
  pivots_eq : w'.pivots = w.pivots
  scale_eq : ∀ i, w'.scale.get i = |e i| * w.scale.get i
  scaled : ∀ i j : Fin n, k ≤ i.val ∨ j ≤ i → toMatrix w'.lu i j = e i * toMatrix w.lu i j
  kept : ∀ i j : Fin n, i.val < k → i < j → toMatrix w'.lu i j = toMatrix w.lu i j

namespace Elimination.Multiple

variable {e : Fin n → α} {w w' : Elimination α n} {r l : Fin n} (h : Multiple e r w w')

include h

/-- A reduction takes multiples of finished entries of `L` times the same entries of `U`. -/
lemma reduced_eq {i j : Fin n} (hi : r ≤ i) (hj : r ≤ j) :
    reduced w'.lu i j r = e i * reduced w.lu i j r := by
  have hsum : ∑ m : Fin n with m.val < r.val, toMatrix w'.lu i m * toMatrix w'.lu m j =
      e i * ∑ m : Fin n with m.val < r.val, toMatrix w.lu i m * toMatrix w.lu m j := by
    rw [Finset.mul_sum]
    refine Finset.sum_congr rfl fun m hm => ?_
    have hm : m < r := Fin.lt_def.mpr (Finset.mem_filter.mp hm).2
    rw [h.scaled i m (.inl hi), h.kept m j hm (hm.trans_le hj), mul_assoc]
  rw [Solver.reduced_eq, Solver.reduced_eq, hsum, h.scaled i j (.inl hi), mul_sub]

/-- **One step** exchanges the factors with the rows. -/
lemma advance (he : ∀ i, e i ≠ 0) (hl : r ≤ l) :
    Multiple (fun i => e (Equiv.swap r l i)) (r + 1) (w.advance r l) (w'.advance r l) where
  pivots_eq := vector_ext fun i => by rw [pivots_advance, pivots_advance, h.pivots_eq]
  scale_eq i := by rw [scale_advance, scale_advance, h.scale_eq]
  scaled i j hij := by
    rcases lt_or_ge i r with hi | hi
    · -- a finished row, in the lower triangle
      have hj : j ≤ i := hij.resolve_left fun hle => by have := Fin.lt_def.mp hi; omega
      rw [advance_rest w' hl (.inl hi), advance_rest w hl (.inl hi), swap_eq_of_lt hl hi,
        h.scaled i j (.inr hj)]
    · have hi' : r ≤ Equiv.swap r l i := le_swap hl hi
      rcases eq_or_ne j r with rfl | hj
      · -- the column of this step
        rw [advance_column w' hl hi, advance_column w hl hi, h.reduced_eq hi' le_rfl]
      · have hrest : i < r ∨ j < r ∨ r < i ∧ r < j := by
          simp only [Fin.lt_def, Fin.le_def, ne_eq, Fin.ext_iff] at hi hij hj ⊢
          omega
        rw [advance_rest w' hl hrest, advance_rest w hl hrest, h.scaled _ j (.inl hi')]
  kept i j hi hij := by
    rcases lt_or_ge i r with hir | hir
    · rw [advance_rest w' hl (.inl hir), advance_rest w hl (.inl hir), swap_eq_of_lt hl hir,
        h.kept i j hir hij]
    · -- the row of this step, divided by its factor
      obtain rfl : i = r := Fin.ext (by have := Fin.le_def.mp hir; omega)
      rw [advance_row w' hl hij, advance_row w hl hij, h.reduced_eq hl hij.le,
        h.reduced_eq hl le_rfl, mul_div_mul_left _ _ (he l)]

variable [IsStrictOrderedRing α]

/-- The factor of a row is a factor of its scale too, so that its offer is the same. -/
lemma choose_eq (he : ∀ i, e i ≠ 0) :
    ({ w' with lu := reduceColumn w'.lu r } : Elimination α n).choose r =
      ({ w with lu := reduceColumn w.lu r } : Elimination α n).choose r := by
  refine choose_congr fun i hi => ?_
  have hfactor : |e i| ≠ 0 := abs_ne_zero.mpr (he i)
  rw [offer_reduceColumn w' hi, offer_reduceColumn w hi, h.reduced_eq hi le_rfl, h.scale_eq,
    abs_div, abs_mul, abs_mul, abs_abs, mul_div_mul_left _ _ hfactor, abs_div]

/-- Both steps fail, or both take the same row. -/
lemma lockstep_step (tolerance : α) (he : ∀ i, e i ≠ 0) :
    Lockstep (fun v v' => ∃ l, v = w.advance r l ∧
        Multiple (fun i => e (Equiv.swap r l i)) (r + 1) v v')
      (w.step tolerance r) (w'.step tolerance r) := by
  rw [step_eq, step_eq, h.choose_eq he]
  split_ifs with hsmall
  · exact .error _
  · have hl := (choose_spec ({ w with lu := reduceColumn w.lu r } : Elimination α n) r).1
    exact .ok ⟨_, rfl, h.advance he hl⟩

end Elimination.Multiple

/-! ### Factorizations of multiples -/

/-- The factors of a matrix, and those of the matrix whose rows are multiplied by `d`: the factors
of the rows that stand in each place are on the rows of `L`. -/
structure Factorization.Multiple (d : Vector α n) (f f' : Factorization α n) : Prop where
  pivots_eq : f'.pivots = f.pivots
  upper_eq : upper f'.lu = upper f.lu
  lower_eq : lower f'.lu = diagonal (exchangeAll f.pivots d).get * lower f.lu

variable [IsStrictOrderedRing α] {d : Vector α n} {a a' : Square α n}

lemma greatest_multiple {c : α} (hc : c ≠ 0) {u v : Vector α n}
    (h : ∀ i, v.get i = c * u.get i) : greatest v = |c| * greatest u := by
  have hpos : 0 < |c| := abs_pos.mpr hc
  refine eq_of_forall_ge_iff fun t => ?_
  have hentry (i : Fin n) : |v.get i| ≤ t ↔ |u.get i| ≤ t / |c| := by
    rw [h i, abs_mul, le_div_iff₀' hpos]
  rw [← le_div_iff₀' hpos, greatest_le_iff, greatest_le_iff, le_div_iff₀' hpos, mul_zero]
  simp only [hentry]

section

variable (hd : ∀ i, d.get i ≠ 0) (h : ∀ i j, toMatrix a' i j = d.get i * toMatrix a i j)

include hd h

/-- A row of zeros stays one, and the other scales are multiplied. -/
lemma lockstep_scales :
    Lockstep (fun s s' => ∀ i, s'.get i = |d.get i| * s.get i) (scales 0 a) (scales 0 a') := by
  have hscale (i : Fin n) : greatest (a'.get i) = |d.get i| * greatest (a.get i) :=
    greatest_multiple (hd i) (h i)
  have hzero (i : Fin n) : greatest (a'.get i) ≤ 0 ↔ greatest (a.get i) ≤ 0 := by
    rw [get_eq_zero_iff, get_eq_zero_iff]
    simp [h, hd i]
  cases hs : scales 0 a with
  | error g =>
    obtain ⟨i, rfl, hi⟩ := scales_error hs
    cases hs' : scales 0 a' with
    | error g' =>
      obtain ⟨i', rfl, hi'⟩ := scales_error hs'
      simp only [hzero] at hi'
      rw [hi.unique hi']
      exact .error _
    | ok s' => exact absurd ((hzero i).mpr hi.1) ((scales_ok hs').2 i).not_ge
  | ok s =>
    obtain ⟨rfl, habove⟩ := scales_ok hs
    cases hs' : scales 0 a' with
    | error g' =>
      obtain ⟨i, rfl, hi⟩ := scales_error hs'
      exact absurd ((hzero i).mp hi.1) (habove i).not_ge
    | ok s' =>
      obtain ⟨rfl, -⟩ := scales_ok hs'
      refine .ok fun i => ?_
      rw [get_map, get_map, hscale]

/-- The runs go side by side, and the factors are exchanged with the rows. -/
lemma lockstep_steps {s s' : Vector α n} (hs : ∀ i, s'.get i = |d.get i| * s.get i)
    (tolerance : α) (k : ℕ) (hk : k ≤ n) :
    Lockstep (fun w w' => w.Multiple (exchangeFirst w.pivots d k hk).get k w')
      ((Elimination.start a s).steps tolerance k hk)
      ((Elimination.start a' s').steps tolerance k hk) := by
  rw [Elimination.steps_eq_stepsBy, Elimination.steps_eq_stepsBy]
  refine Elimination.lockstep_stepsBy
    (fun k hk w w' => w.Multiple (exchangeFirst w.pivots d k hk).get k w') ?_ ?_ k hk
  · exact ⟨rfl, hs, fun i j _ => h i j, fun i j hi => absurd hi (Nat.not_lt_zero _)⟩
  · intro r v v' hv
    have hfactor (i : Fin n) : (exchangeFirst v.pivots d r r.isLt.le).get i ≠ 0 := by
      rw [get_exchangeFirst]
      exact hd _
    refine (hv.lockstep_step tolerance hfactor).mono ?_
    rintro w w' ⟨l, rfl, hw⟩
    rwa [← funext (get_exchangeFirst_advance d)] at hw

/-- **Implicit scaling**: the factorizations end in the same failure, or in factors that differ by
the factors of the rows. -/
lemma lockstep_factorize :
    Lockstep (Factorization.Multiple d) (factorize 0 a) (factorize 0 a') := by
  rw [factorize_eq, factorize_eq]
  refine (lockstep_scales hd h).bind fun s s' hs => ?_
  refine (lockstep_steps hd h hs 0 n le_rfl).bind fun w w' hw => .ok ⟨hw.pivots_eq, ?_, ?_⟩
  · ext i j
    rcases lt_trichotomy i j with hij | rfl | hij
    · rw [upper_of_lt hij, upper_of_lt hij, hw.kept i j i.isLt hij]
    · rw [upper_self, upper_self]
    · rw [upper_of_gt hij, upper_of_gt hij]
  · ext i j
    rw [diagonal_mul]
    rcases le_or_gt j i with hij | hij
    · rw [lower_of_le hij, lower_of_le hij, hw.scaled i j (.inr hij)]
      rfl
    · rw [lower_of_lt hij, lower_of_lt hij, mul_zero]

end

/-! ### Solutions -/

section

variable {f f' : Factorization α n} {b b' : Vector α n}
  (h : ∀ i j, toMatrix a' i j = d.get i * toMatrix a i j)
  (hb : ∀ i, b'.get i = d.get i * b.get i)

include h

omit [LinearOrder α] [IsStrictOrderedRing α] in
lemma mulVec_multiple (x : Fin n → α) (i : Fin n) :
    (toMatrix a' *ᵥ x) i = d.get i * (toMatrix a *ᵥ x) i := by
  simp only [mulVec, dotProduct, h, mul_assoc, Finset.mul_sum]

include hb

omit [LinearOrder α] [IsStrictOrderedRing α] in
/-- A residual is multiplied with the equations. -/
lemma get_residual_multiple (x : Vector α n) (i : Fin n) :
    (residual a' b' x).get i = d.get i * (residual a b x).get i := by
  rw [get_residual, get_residual, mulVec_multiple h, hb, mul_sub]

/-- The factors of both matrices solve both systems alike. -/
lemma solve_multiple (hf : factorize 0 a = .ok f) (hf' : factorize 0 a' = .ok f') :
    f'.solve b' = f.solve b := by
  have hsolve : toMatrix a *ᵥ (f.solve b).get = b.get :=
    (mulVec_eq_iff_of_factorize le_rfl hf b _).mpr rfl
  have hsolve' : toMatrix a' *ᵥ (f.solve b).get = b'.get := by
    ext i
    rw [mulVec_multiple h, hsolve, hb]
  have heq := (mulVec_eq_iff_of_factorize le_rfl hf' b' _).mp hsolve'
  exact vector_ext fun i => (congrFun heq i).symm

/-- The refinements are the same, pass by pass. -/
lemma refine_multiple [Number.RatioOrder α] (settings : Settings α) (hf : factorize 0 a = .ok f)
    (hf' : factorize 0 a' = .ok f') : refine settings f' a' b' = refine settings f a b :=
  refine_congr (fun x => solve_multiple h (get_residual_multiple h hb x) hf hf')
    (solve_multiple h hb hf hf')

end

/-- **Implicit scaling** makes a setup indifferent to factors of the equations. With tolerance 0
the multiples of a matrix have the same failure, or else the same pivots and the same `U`, and the
factors go to `L` in the order in which the rows stand there. If the right-hand side is multiplied
too, the solution is the same, and so are the passes that it takes. -/
theorem setup_of_multiples [Number.RatioOrder α] (s : Solver α)
    (htol : s.settings.pivotTolerance = 0) (a a' : Sparse (ℕ × ℕ) α) (d : Vector α n)
    (hd : ∀ i, d.get i ≠ 0)
    (h : ∀ i j : Fin n, a'.get (i.val, j.val) = d.get i * a.get (i.val, j.val)) :
    (∃ e, s.setup n a = .error e ∧ s.setup n a' = .error e) ∨
      ∃ f f' : Factorization α n,
        s.setup n a = .ok { s with dim := n, factors := f } ∧
        s.setup n a' = .ok { s with dim := n, factors := f' } ∧
        f'.pivots = f.pivots ∧ upper f'.lu = upper f.lu ∧
        lower f'.lu = diagonal (exchangeAll f.pivots d).get * lower f.lu ∧
        ∀ b b' : Sparse ℕ α, (∀ i : Fin n, b'.get i.val = d.get i * b.get i.val) →
          let solved := ({ s with dim := n, factors := f } : Solver α).solve a b
          let solved' := ({ s with dim := n, factors := f' } : Solver α).solve a' b'
          solved'.value.2 = solved.value.2 ∧
            solved'.value.1.iterations = solved.value.1.iterations ∧
            solved'.value.1.ratio = solved.value.1.ratio ∧ solved'.log = solved.log := by
  have hblock (i j : Fin n) : toMatrix (block n a') i j = d.get i * toMatrix (block n a) i j := by
    rw [toMatrix_block, toMatrix_block]
    exact h i j
  have hfactorize := lockstep_factorize hd hblock
  rw [setup_eq, setup_eq, htol]
  cases hf : factorize 0 (block n a) with
  | error e =>
    rw [hf] at hfactorize
    rw [hfactorize.eq_error]
    exact .inl ⟨e, rfl, rfl⟩
  | ok f =>
    rw [hf] at hfactorize
    obtain ⟨f', hf', hmultiple⟩ := hfactorize.exists_of_ok
    rw [hf']
    refine .inr ⟨f, f', rfl, rfl, hmultiple.pivots_eq, hmultiple.upper_eq, hmultiple.lower_eq,
      fun b b' hb => ?_⟩
    have hsegment (i : Fin n) : (segment n b').get i = d.get i * (segment n b).get i := by
      rw [get_segment, get_segment, hb]
    have hrefine := refine_multiple hblock hsegment s.settings hf hf'
    simp only [solve, hrefine, and_self]

/-- The first row is exchanged, and its factor goes with it. -/
theorem setup_of_multiples_exchanged :
    let solver : Solver ℚ := .new ⟨1 / 10, 1 / 2, 3, 0⟩
    let a := (((Sparse.empty (0 : ℚ)).set (0, 1) 3).set (1, 0) 2).set (1, 1) 1
    let a' := (((Sparse.empty (0 : ℚ)).set (0, 1) (-6)).set (1, 0) 10).set (1, 1) 5
    let b := ((Sparse.empty (0 : ℚ)).set 0 3).set 1 4
    let b' := ((Sparse.empty (0 : ℚ)).set 0 (-6)).set 1 20
    let prepared : Solver ℚ :=
      { solver with dim := 2, factors := ⟨#v[#v[2, 1 / 2], #v[0, 3]], #v[1, 1]⟩ }
    let prepared' : Solver ℚ :=
      { solver with dim := 2, factors := ⟨#v[#v[10, 1 / 2], #v[0, -6]], #v[1, 1]⟩ }
    solver.setup 2 a = .ok prepared ∧ solver.setup 2 a' = .ok prepared' ∧
      lower (#v[#v[10, 1 / 2], #v[0, -6]] : Square ℚ 2) =
        diagonal (Vector.get #v[5, -2]) * lower #v[#v[2, 1 / 2], #v[0, 3]] ∧
      (prepared'.solve a' b').value.2 = (prepared.solve a b).value.2 := by
  intro solver a a' b b' prepared prepared'
  have hsetup : solver.setup 2 a = .ok prepared :=
    (setup_eq_ok_iff _ _ _).mpr ⟨⟨#v[#v[2, 1 / 2], #v[0, 3]], #v[1, 1]⟩, by cbv, rfl⟩
  have hsetup' : solver.setup 2 a' = .ok prepared' :=
    (setup_eq_ok_iff _ _ _).mpr ⟨⟨#v[#v[10, 1 / 2], #v[0, -6]], #v[1, 1]⟩, by cbv, rfl⟩
  obtain ⟨e, herror, -⟩ | ⟨f, f', hok, hok', -, -, hlower, hsolve⟩ :=
    setup_of_multiples solver rfl a a' #v[-2, 5] (by decide +kernel) (by decide +kernel)
  · rw [hsetup] at herror
    cases herror
  · obtain rfl : f = ⟨#v[#v[2, 1 / 2], #v[0, 3]], #v[1, 1]⟩ := by
      simpa [prepared] using hok.symm.trans hsetup
    obtain rfl : f' = ⟨#v[#v[10, 1 / 2], #v[0, -6]], #v[1, 1]⟩ := by
      simpa [prepared'] using hok'.symm.trans hsetup'
    exact ⟨hsetup, hsetup', hlower, (hsolve b b' (by decide +kernel)).1⟩

end Simultaneous.Solver
