import Mathlib
import Simultaneous.Proofs.Dense

/-!
The elimination as a factorization.

While the elimination is under way its one matrix holds finished columns of `L`, finished rows of
`U` and, in the block below and right of them, coefficients that no step has touched. The
invariant `Factored` reads all three off the rows of the original matrix as the exchanges so far
have ordered them, and one step keeps it.
-/

namespace Simultaneous.Solver

variable {α β : Type} {n : ℕ}

/-! ### Exchanges -/

/-- Entry 0 exchanged with entry `p[0]`, then entry 1 with entry `p[1]`, and so on below `k`. -/
def exchangeFirst (p : Vector (Fin n) n) (v : Vector β n) : (k : ℕ) → k ≤ n → Vector β n
  | 0, _ => v
  | k + 1, hk =>
    (exchangeFirst p v k (Nat.le_of_succ_le hk)).swap k (p.get ⟨k, hk⟩) hk (p.get ⟨k, hk⟩).isLt

/-- All exchanges. On a square they exchange rows. -/
def exchangeAll (p : Vector (Fin n) n) (v : Vector β n) : Vector β n :=
  exchangeFirst p v n le_rfl

/-- Where the entry came from that stands at a place after the first `k` exchanges. -/
def origin (p : Vector (Fin n) n) : (k : ℕ) → k ≤ n → Equiv.Perm (Fin n)
  | 0, _ => 1
  | k + 1, hk => origin p k (Nat.le_of_succ_le hk) * Equiv.swap ⟨k, hk⟩ (p.get ⟨k, hk⟩)

lemma get_exchangeFirst_succ (p : Vector (Fin n) n) (v : Vector β n) (r i : Fin n) :
    (exchangeFirst p v (r + 1) r.isLt).get i =
      (exchangeFirst p v r r.isLt.le).get (Equiv.swap r (p.get r) i) :=
  get_swap _ r (p.get r) i

lemma get_exchangeFirst (p : Vector (Fin n) n) (v : Vector β n) (k : ℕ) (hk : k ≤ n) (i : Fin n) :
    (exchangeFirst p v k hk).get i = v.get (origin p k hk i) := by
  induction k generalizing i with
  | zero => rfl
  | succ k ih =>
    rw [get_exchangeFirst_succ p v ⟨k, hk⟩ i]
    exact ih (Nat.le_of_succ_le hk) _

lemma exchangeFirst_congr {p q : Vector (Fin n) n} (v : Vector β n) {k : ℕ} (hk : k ≤ n)
    (h : ∀ r : Fin n, r.val < k → p.get r = q.get r) :
    exchangeFirst p v k hk = exchangeFirst q v k hk := by
  induction k with
  | zero => rfl
  | succ k ih =>
    refine vector_ext fun i => ?_
    rw [get_exchangeFirst_succ p v ⟨k, hk⟩ i, get_exchangeFirst_succ q v ⟨k, hk⟩ i,
      ih (Nat.le_of_succ_le hk) fun r hr => h r (by omega), h ⟨k, hk⟩ (Nat.lt_succ_self k)]

/-- An exchange with a later place leaves the places before it alone. -/
lemma swap_eq_of_lt {r l i : Fin n} (hl : r ≤ l) (hi : i < r) : Equiv.swap r l i = i :=
  Equiv.swap_apply_of_ne_of_ne hi.ne (hi.trans_le hl).ne

lemma le_swap {r l i : Fin n} (hl : r ≤ l) (hi : r ≤ i) : r ≤ Equiv.swap r l i := by
  rw [Equiv.swap_apply_def]
  split_ifs
  · exact hl
  · exact le_rfl
  · exact hi

/-! ### The choice of a pivot -/

section Choice

variable [Field α] [LinearOrder α] [IsStrictOrderedRing α]

lemma offer_eq (w : Elimination α n) (r i : Fin n) :
    w.offer r i = |toMatrix w.lu i r / w.scale.get i| :=
  magnitude_eq_abs _

omit [IsStrictOrderedRing α] in
/-- The search keeps a best offer that no row looked at so far beats. -/
lemma foldl_offer_spec (w : Elimination α n) (r : Fin n) (l : List (Fin n)) (best : Fin n × α)
    (hr : r ≤ best.1) (ho : best.2 ≠ 0 → best.2 = w.offer r best.1) :
    let b := l.foldl (fun best i =>
      if r ≤ i ∧ best.2 < w.offer r i then (i, w.offer r i) else best) best
    r ≤ b.1 ∧ best.2 ≤ b.2 ∧ (∀ i ∈ l, r ≤ i → w.offer r i ≤ b.2) ∧
      (b.2 ≠ 0 → b.2 = w.offer r b.1) := by
  induction l generalizing best with
  | nil => exact ⟨hr, le_rfl, by simp, ho⟩
  | cons i l ih =>
    simp only [List.foldl_cons]
    split_ifs with hi
    · obtain ⟨h1, h2, h3, h4⟩ := ih (i, w.offer r i) hi.1 fun _ => rfl
      refine ⟨h1, hi.2.le.trans h2, ?_, h4⟩
      intro j hj hrj
      rcases List.mem_cons.mp hj with rfl | hj
      · exact h2
      · exact h3 j hj hrj
    · obtain ⟨h1, h2, h3, h4⟩ := ih best hr ho
      refine ⟨h1, h2, ?_, h4⟩
      intro j hj hrj
      rcases List.mem_cons.mp hj with rfl | hj
      · exact (not_lt.mp fun h => hi ⟨hrj, h⟩).trans h2
      · exact h3 j hj hrj

omit [IsStrictOrderedRing α] in
/-- The chosen offer is the greatest, and it is the offer of the chosen row unless it is 0. -/
lemma choose_spec (w : Elimination α n) (r : Fin n) :
    r ≤ (w.choose r).1 ∧ (∀ i, r ≤ i → w.offer r i ≤ (w.choose r).2) ∧
      ((w.choose r).2 ≠ 0 → (w.choose r).2 = w.offer r (w.choose r).1) := by
  obtain ⟨h1, -, h3, h4⟩ :=
    foldl_offer_spec w r (List.finRange n) (r, 0) le_rfl fun h => absurd rfl h
  unfold Elimination.choose
  rw [Fin.foldl_eq_foldl_finRange]
  exact ⟨h1, fun i hi => h3 i (List.mem_finRange i) hi, h4⟩

end Choice

/-! ### One step -/

/-- What a step makes of the elimination if it takes row `l` for its pivot. -/
def Elimination.advance [Field α] (w : Elimination α n) (r l : Fin n) : Elimination α n :=
  let w := ({ w with lu := reduceColumn w.lu r } : Elimination α n).exchange r l
  { w with lu := reduceRow w.lu r }

section Advance

variable [Field α] (w : Elimination α n) {r l : Fin n}

lemma pivots_advance (i : Fin n) :
    (w.advance r l).pivots.get i = if i = r then l else w.pivots.get i :=
  get_set _ r i l

lemma scale_advance (i : Fin n) :
    (w.advance r l).scale.get i = w.scale.get (Equiv.swap r l i) :=
  get_swap _ r l i

lemma toMatrix_exchange (i j : Fin n) :
    toMatrix (({ w with lu := reduceColumn w.lu r } : Elimination α n).exchange r l).lu i j =
      if r ≤ Equiv.swap r l i ∧ j = r then reduced w.lu (Equiv.swap r l i) r r
      else toMatrix w.lu (Equiv.swap r l i) j := by
  rw [← toMatrix_reduceColumn]
  exact toMatrix_swap _ r l i j

lemma advance_column (hl : r ≤ l) {i : Fin n} (hi : r ≤ i) :
    toMatrix (w.advance r l).lu i r = reduced w.lu (Equiv.swap r l i) r r := by
  unfold Elimination.advance
  rw [toMatrix_reduceRow, if_neg (fun h => lt_irrefl _ h.2), toMatrix_exchange,
    if_pos ⟨le_swap hl hi, rfl⟩]

lemma advance_row (hl : r ≤ l) {j : Fin n} (hj : r < j) :
    toMatrix (w.advance r l).lu r j = reduced w.lu l j r / reduced w.lu l r r := by
  have hpivot : Equiv.swap r l r = l := Equiv.swap_apply_left r l
  unfold Elimination.advance
  rw [toMatrix_reduceRow, if_pos ⟨rfl, hj⟩, toMatrix_exchange, hpivot, if_pos ⟨hl, rfl⟩]
  congr 1
  rw [reduced_eq, reduced_eq, toMatrix_exchange, hpivot, if_neg (fun h => hj.ne' h.2)]
  congr 1
  refine Finset.sum_congr rfl fun m hm => ?_
  -- the rows and columns before `r` are where they were
  have hm : m < r := Fin.lt_def.mpr (Finset.mem_filter.mp hm).2
  rw [toMatrix_exchange, toMatrix_exchange, hpivot, swap_eq_of_lt hl hm,
    if_neg (fun h => hm.ne h.2), if_neg (fun h => hj.ne' h.2)]

lemma advance_rest (hl : r ≤ l) {i j : Fin n} (h : i < r ∨ j < r ∨ r < i ∧ r < j) :
    toMatrix (w.advance r l).lu i j = toMatrix w.lu (Equiv.swap r l i) j := by
  unfold Elimination.advance
  rw [toMatrix_reduceRow, if_neg, toMatrix_exchange, if_neg]
  · rintro ⟨hi, rfl⟩
    rcases h with h | h | h
    · rw [swap_eq_of_lt hl h] at hi
      exact absurd h (not_lt.mpr hi)
    · exact lt_irrefl _ h
    · exact lt_irrefl _ h.2
  · rintro ⟨rfl, hj⟩
    rcases h with h | h | h
    · exact lt_irrefl _ h
    · exact lt_asymm h hj
    · exact lt_irrefl _ h.1

end Advance

/-! ### The invariant -/

/-- The lower triangle of a square, with its diagonal. -/
def lower [Zero α] (a : Square α n) : Matrix (Fin n) (Fin n) α :=
  fun i j => if j ≤ i then toMatrix a i j else 0

/-- The upper triangle of a square, with a diagonal of ones. -/
def upper [Zero α] [One α] (a : Square α n) : Matrix (Fin n) (Fin n) α :=
  fun i j => if i < j then toMatrix a i j else if i = j then 1 else 0

section Triangles

variable [Zero α] [One α] {a : Square α n} {i j : Fin n}

omit [One α] in
lemma lower_of_le (h : j ≤ i) : lower a i j = toMatrix a i j := if_pos h

omit [One α] in
lemma lower_of_lt (h : i < j) : lower a i j = 0 := if_neg (not_le.mpr h)

lemma upper_of_lt (h : i < j) : upper a i j = toMatrix a i j := if_pos h

lemma upper_of_gt (h : j < i) : upper a i j = 0 := by
  rw [upper, if_neg h.le.not_gt, if_neg h.ne']

@[simp] lemma upper_self : upper a i i = 1 := by
  rw [upper, if_neg (lt_irrefl i), if_pos rfl]

end Triangles

section Invariant

variable [Field α]

/-- The elimination of `a` with the row scales `s` after `k` steps: the exchanged rows of `a` are
the product of the finished parts as far as a step has reached, and stand untouched beyond. -/
structure Elimination.Factored (a : Square α n) (s : Vector α n) (w : Elimination α n) (k : ℕ)
    (hk : k ≤ n) : Prop where
  pivot_ge : ∀ r : Fin n, r.val < k → r ≤ w.pivots.get r
  diagonal_ne : ∀ r : Fin n, r.val < k → toMatrix w.lu r r ≠ 0
  scale_eq : w.scale = exchangeFirst w.pivots s k hk
  finished : ∀ i j : Fin n, i.val < k ∨ j.val < k →
    toMatrix (exchangeFirst w.pivots a k hk) i j =
      ∑ m : Fin n with m.val < k, lower w.lu i m * upper w.lu m j
  untouched : ∀ i j : Fin n, k ≤ i.val → k ≤ j.val →
    toMatrix (exchangeFirst w.pivots a k hk) i j = toMatrix w.lu i j

open Elimination (Factored)

lemma Elimination.factored_start (a : Square α n) (s : Vector α n) :
    Factored a s (.start a s) 0 (Nat.zero_le n) where
  pivot_ge r hr := absurd hr (Nat.not_lt_zero _)
  diagonal_ne r hr := absurd hr (Nat.not_lt_zero _)
  scale_eq := rfl
  finished i j h := absurd h (by simp)
  untouched i j _ _ := rfl

variable {a : Square α n} {s : Vector α n} {w : Elimination α n} {r l : Fin n}

/-- The exchanges of a step are those before it and its own. -/
lemma get_exchangeFirst_advance (v : Vector β n) (i : Fin n) :
    (exchangeFirst (w.advance r l).pivots v (r + 1) r.isLt).get i =
      (exchangeFirst w.pivots v r r.isLt.le).get (Equiv.swap r l i) := by
  rw [get_exchangeFirst_succ, pivots_advance, if_pos rfl]
  congr 1
  refine exchangeFirst_congr v r.isLt.le fun m hm => ?_
  rw [pivots_advance, if_neg (Fin.ne_of_lt hm)]

/-- The product of the finished parts changes by one summand in a step. -/
lemma sum_advance (hl : r ≤ l) (i j : Fin n) :
    ∑ m : Fin n with m.val < r.val + 1,
        lower (w.advance r l).lu i m * upper (w.advance r l).lu m j =
      ∑ m : Fin n with m.val < r.val,
        lower w.lu (Equiv.swap r l i) m * upper w.lu m j +
      lower (w.advance r l).lu i r * upper (w.advance r l).lu r j := by
  rw [sum_lt_succ]
  congr 1
  refine Finset.sum_congr rfl fun m hm => ?_
  have hm : m < r := Fin.lt_def.mpr (Finset.mem_filter.mp hm).2
  congr 1
  · rcases lt_or_ge i r with hi | hi
    · rw [swap_eq_of_lt hl hi]
      simp only [lower, advance_rest w hl (.inl hi), swap_eq_of_lt hl hi]
    · rw [lower_of_le (hm.le.trans hi), lower_of_le (hm.le.trans (le_swap hl hi)),
        advance_rest w hl (.inr (.inl hm))]
  · simp only [upper, advance_rest w hl (.inl hm), swap_eq_of_lt hl hm]

/-- Right of the finished columns and below the finished rows the sum of a reduction is the
product of the finished parts. -/
lemma sum_lower_mul_upper {i j : Fin n} (hi : r ≤ i) (hj : r ≤ j) :
    ∑ m : Fin n with m.val < r.val, lower w.lu i m * upper w.lu m j =
      ∑ m : Fin n with m.val < r.val, toMatrix w.lu i m * toMatrix w.lu m j := by
  refine Finset.sum_congr rfl fun m hm => ?_
  have hm : m < r := Fin.lt_def.mpr (Finset.mem_filter.mp hm).2
  rw [lower_of_le (hm.le.trans hi), upper_of_lt (hm.trans_le hj)]

/-- **One step keeps the invariant**, provided that it divides by something. -/
lemma Elimination.Factored.advance (h : Factored a s w r r.isLt.le) (hl : r ≤ l)
    (hne : reduced w.lu l r r ≠ 0) : Factored a s (w.advance r l) (r + 1) r.isLt where
  pivot_ge m hm := by
    rw [pivots_advance]
    split_ifs with hmr
    · exact hmr ▸ hl
    · exact h.pivot_ge m (by have := Fin.val_ne_of_ne hmr; omega)
  diagonal_ne m hm := by
    rcases eq_or_ne m r with rfl | hmr
    · rw [advance_column w hl le_rfl, Equiv.swap_apply_left]
      exact hne
    · have hlt : m < r := Fin.lt_def.mpr (by have := Fin.val_ne_of_ne hmr; omega)
      rw [advance_rest w hl (.inl hlt), swap_eq_of_lt hl hlt]
      exact h.diagonal_ne m hlt
  scale_eq := by
    refine vector_ext fun i => ?_
    rw [scale_advance, get_exchangeFirst_advance, ← h.scale_eq]
  finished i j hij := by
    have hex : toMatrix (exchangeFirst (w.advance r l).pivots a (r + 1) r.isLt) i j =
        toMatrix (exchangeFirst w.pivots a r r.isLt.le) (Equiv.swap r l i) j := by
      unfold toMatrix
      rw [get_exchangeFirst_advance]
    rw [hex, sum_advance hl]
    rcases lt_or_ge i r with hi | hi
    · -- a row that was finished before
      rw [lower_of_lt hi, zero_mul, add_zero, swap_eq_of_lt hl hi]
      exact h.finished i j (.inl hi)
    have hi' : r ≤ Equiv.swap r l i := le_swap hl hi
    rcases lt_trichotomy j r with hj | rfl | hj
    · -- a column that was finished before
      rw [upper_of_gt hj, mul_zero, add_zero]
      exact h.finished _ j (.inr hj)
    · -- the column of this step
      rw [upper_self, mul_one, lower_of_le hi, advance_column w hl hi, reduced_eq,
        sum_lower_mul_upper hi' le_rfl, h.untouched _ j hi' le_rfl]
      ring
    · -- the row of this step
      obtain rfl : i = r := Fin.ext (by have := Fin.le_def.mp hi; have := Fin.lt_def.mp hj; omega)
      rw [Equiv.swap_apply_left] at *
      rw [lower_of_le le_rfl, upper_of_lt hj, advance_column w hl le_rfl, advance_row w hl hj,
        Equiv.swap_apply_left, mul_div_cancel₀ _ hne, sum_lower_mul_upper hi' hj.le,
        reduced_eq, h.untouched _ j hi' hj.le]
      ring
  untouched i j hi hj := by
    have hi : r < i := Fin.lt_def.mpr (by omega)
    have hj : r < j := Fin.lt_def.mpr (by omega)
    rw [advance_rest w hl (.inr (.inr ⟨hi, hj⟩)), ← h.untouched _ j (le_swap hl hi.le) hj.le]
    unfold toMatrix
    rw [get_exchangeFirst_advance]

end Invariant

end Simultaneous.Solver
