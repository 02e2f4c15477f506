import Mathlib
import Simultaneous.Proofs.Elimination

/-!
Substitution into the triangular factors.

The forward pass exchanges entries of the right-hand side only when it comes to them, while the
entries before them already hold results. It still solves with the lower triangle for all
exchanges, since a pivot never points backwards. The backward pass solves with the upper triangle.
-/

namespace Simultaneous.Solver

open Matrix

variable {α : Type} {n : ℕ} [Field α]

/-! ### Triangles on vectors -/

lemma lower_mulVec (a : Square α n) (v : Fin n → α) (r : Fin n) :
    (lower a *ᵥ v) r =
      ∑ m : Fin n with m.val < r.val, toMatrix a r m * v m + toMatrix a r r * v r := by
  have hsplit : (lower a *ᵥ v) r =
      ∑ m : Fin n with m.val < r.val + 1, lower a r m * v m := by
    rw [mulVec, dotProduct]
    refine (Finset.sum_filter_of_ne fun m _ hm => ?_).symm
    by_contra hlt
    exact hm (by rw [lower_of_lt (Fin.lt_def.mpr (by omega)), zero_mul])
  rw [hsplit, sum_lt_succ, lower_of_le le_rfl]
  congr 1
  refine Finset.sum_congr rfl fun m hm => ?_
  rw [lower_of_le (Fin.le_def.mpr (Finset.mem_filter.mp hm).2.le)]

lemma upper_mulVec (a : Square α n) (v : Fin n → α) (r : Fin n) :
    (upper a *ᵥ v) r = v r + ∑ m : Fin n with r < m, toMatrix a r m * v m := by
  have hsplit : (upper a *ᵥ v) r = ∑ m : Fin n with r ≤ m, upper a r m * v m := by
    rw [mulVec, dotProduct]
    refine (Finset.sum_filter_of_ne fun m _ hm => ?_).symm
    by_contra hlt
    exact hm (by rw [upper_of_gt (not_le.mp hlt), zero_mul])
  have hset : (Finset.univ.filter fun m : Fin n => r ≤ m)
      = insert r (Finset.univ.filter fun m : Fin n => r < m) := by
    ext m
    simp only [Finset.mem_filter, Finset.mem_univ, true_and, Finset.mem_insert]
    rw [le_iff_eq_or_lt, eq_comm]
  rw [hsplit, hset, Finset.sum_insert (by simp), upper_self, one_mul]
  congr 1
  refine Finset.sum_congr rfl fun m hm => ?_
  rw [upper_of_lt (Finset.mem_filter.mp hm).2]

/-! ### Forward -/

variable {f : Factorization α n}

lemma get_forward_succ (f : Factorization α n) (b : Vector α n) (r i : Fin n) :
    (f.forward b (r + 1) r.isLt).get i =
      if i = r then
        ((f.forward b r r.isLt.le).get (f.pivots.get r) -
          ∑ m : Fin n with m.val < r.val, toMatrix f.lu r m *
            (f.forward b r r.isLt.le).get (Equiv.swap r (f.pivots.get r) m)) / toMatrix f.lu r r
      else (f.forward b r r.isLt.le).get (Equiv.swap r (f.pivots.get r) i) := by
  set y := (f.forward b r r.isLt.le).swap r (f.pivots.get r) r.isLt (f.pivots.get r).isLt with hy
  have hget (m : Fin n) :
      y.get m = (f.forward b r r.isLt.le).get (Equiv.swap r (f.pivots.get r) m) :=
    get_swap _ r (f.pivots.get r) m
  have hr : y.get r = (f.forward b r r.isLt.le).get (f.pivots.get r) := by
    rw [hget, Equiv.swap_apply_left]
  have hstep : f.forward b (r + 1) r.isLt =
      y.set r (lessProducts (y.get r) (fun m : Fin r => toMatrix f.lu r (m.castLE r.isLt.le))
        (fun m => y.get (m.castLE r.isLt.le)) / toMatrix f.lu r r) r.isLt := rfl
  rw [hstep, get_set, lessProducts_eq, hr,
    sum_castLE r.isLt.le fun m => toMatrix f.lu r m * y.get m]
  simp only [hget]

/-- After `k` entries the forward pass has solved the first `k` equations and exchanged the other
right-hand sides. -/
lemma forward_spec (hp : ∀ r, r ≤ f.pivots.get r) (hd : ∀ r, toMatrix f.lu r r ≠ 0)
    (b : Vector α n) {k : ℕ} (hk : k ≤ n) :
    (∀ i : Fin n, i.val < k →
      (lower f.lu *ᵥ (f.forward b k hk).get) i = (exchangeFirst f.pivots b k hk).get i) ∧
      ∀ i : Fin n, k ≤ i.val →
        (f.forward b k hk).get i = (exchangeFirst f.pivots b k hk).get i := by
  induction k with
  | zero => exact ⟨fun i hi => absurd hi (Nat.not_lt_zero _), fun i _ => rfl⟩
  | succ k ih =>
    obtain ⟨hdone, hrest⟩ := ih (Nat.le_of_succ_le hk)
    let r : Fin n := ⟨k, hk⟩
    have hex (i : Fin n) := get_exchangeFirst_succ f.pivots b r i
    have hprev {m : Fin n} (hm : m < r) :
        (f.forward b (k + 1) hk).get m = (f.forward b k (Nat.le_of_succ_le hk)).get m := by
      rw [get_forward_succ f b r m, if_neg hm.ne, swap_eq_of_lt (hp r) hm]
    have hsame {i : Fin n} (hi : i ≤ r) :
        ∑ m : Fin n with m.val < i.val, toMatrix f.lu i m * (f.forward b (k + 1) hk).get m =
          ∑ m : Fin n with m.val < i.val,
            toMatrix f.lu i m * (f.forward b k (Nat.le_of_succ_le hk)).get m := by
      refine Finset.sum_congr rfl fun m hm => ?_
      rw [hprev ((Fin.lt_def.mpr (Finset.mem_filter.mp hm).2).trans_le hi)]
    refine ⟨fun i hi => ?_, fun i hi => ?_⟩
    · rcases (Fin.le_def.mpr (Nat.lt_succ_iff.mp hi) : i ≤ r).lt_or_eq with hlt | rfl
      · -- an equation that was solved before
        rw [hex i, swap_eq_of_lt (hp r) hlt, ← hdone i hlt, lower_mulVec, lower_mulVec,
          hsame hlt.le, hprev hlt]
      · -- the equation of this step
        have hswap : ∑ m : Fin n with m.val < r.val, toMatrix f.lu r m *
            (f.forward b k (Nat.le_of_succ_le hk)).get (Equiv.swap r (f.pivots.get r) m) =
            ∑ m : Fin n with m.val < r.val, toMatrix f.lu r m *
              (f.forward b k (Nat.le_of_succ_le hk)).get m := by
          refine Finset.sum_congr rfl fun m hm => ?_
          rw [swap_eq_of_lt (hp r) (Fin.lt_def.mpr (Finset.mem_filter.mp hm).2)]
        rw [lower_mulVec, hsame le_rfl, hex r, get_forward_succ f b r r, if_pos rfl, hswap,
          Equiv.swap_apply_left, ← hrest _ (hp r), mul_div_cancel₀ _ (hd r)]
        ring
    · have hgt : r < i := Fin.lt_def.mpr hi
      rw [hex i, get_forward_succ f b r i, if_neg hgt.ne']
      exact hrest _ (le_swap (hp r) hgt.le)

/-! ### Backward -/

lemma behind_lt {k : ℕ} (hk : k + 1 ≤ n) (j : Fin k) : n - k + j < n := by omega

lemma sum_behind {β : Type} [AddCommMonoid β] {k : ℕ} (hk : k + 1 ≤ n) {r : Fin n}
    (hr : r.val = n - (k + 1)) (g : Fin n → β) :
    ∑ j : Fin k, g ⟨n - k + j, behind_lt hk j⟩ = ∑ m : Fin n with r < m, g m := by
  refine Finset.sum_bij (fun (j : Fin k) _ => (⟨n - k + j, behind_lt hk j⟩ : Fin n)) ?_ ?_ ?_ ?_
  · intro j _
    simp only [Finset.mem_filter, Finset.mem_univ, true_and, Fin.lt_def]
    omega
  · intro j _ j' _ h
    have := congrArg Fin.val h
    exact Fin.ext (by simp only at this; omega)
  · intro m hm
    have hlt := Fin.lt_def.mp (Finset.mem_filter.mp hm).2
    exact ⟨⟨m - (n - k), by omega⟩, Finset.mem_univ _, Fin.ext (by simp only; omega)⟩
  · intro j _
    rfl

lemma get_backward_succ (f : Factorization α n) (y : Vector α n) {k : ℕ} (hk : k + 1 ≤ n)
    {r : Fin n} (hr : r.val = n - (k + 1)) (i : Fin n) :
    (f.backward y (k + 1) hk).get i =
      if i = r then
        (f.backward y k (Nat.le_of_succ_le hk)).get r -
          ∑ m : Fin n with r < m,
            toMatrix f.lu r m * (f.backward y k (Nat.le_of_succ_le hk)).get m
      else (f.backward y k (Nat.le_of_succ_le hk)).get i := by
  obtain ⟨_, hlt⟩ := r
  obtain rfl := hr
  set z := f.backward y k (Nat.le_of_succ_le hk) with hz
  let r : Fin n := ⟨n - (k + 1), hlt⟩
  have hstep : f.backward y (k + 1) hk =
      z.set r (lessProducts (z.get r) (fun j : Fin k => toMatrix f.lu r ⟨n - k + j, by omega⟩)
        (fun j => z.get ⟨n - k + j, by omega⟩)) r.isLt := rfl
  rw [hstep, get_set, lessProducts_eq,
    sum_behind (r := r) hk rfl fun m => toMatrix f.lu r m * z.get m]

/-- After `k` entries the backward pass has solved the last `k` equations. -/
lemma backward_spec (f : Factorization α n) (y : Vector α n) {k : ℕ} (hk : k ≤ n) :
    (∀ i : Fin n, n - k ≤ i.val →
      (upper f.lu *ᵥ (f.backward y k hk).get) i = y.get i) ∧
      ∀ i : Fin n, i.val < n - k → (f.backward y k hk).get i = y.get i := by
  induction k with
  | zero => exact ⟨fun i hi => absurd hi (by omega), fun i _ => rfl⟩
  | succ k ih =>
    obtain ⟨hdone, hrest⟩ := ih (Nat.le_of_succ_le hk)
    let r : Fin n := ⟨n - (k + 1), by omega⟩
    have hget (i : Fin n) := get_backward_succ f y hk (r := r) rfl i
    have hsame {i : Fin n} (hi : r ≤ i) :
        ∑ m : Fin n with i < m, toMatrix f.lu i m * (f.backward y (k + 1) hk).get m =
          ∑ m : Fin n with i < m,
            toMatrix f.lu i m * (f.backward y k (Nat.le_of_succ_le hk)).get m := by
      refine Finset.sum_congr rfl fun m hm => ?_
      rw [hget m, if_neg (hi.trans_lt (Finset.mem_filter.mp hm).2).ne']
    refine ⟨fun i hi => ?_, fun i hi => ?_⟩
    · rcases (Fin.le_def.mpr hi : r ≤ i).eq_or_lt with rfl | hlt
      · -- the equation of this step
        rw [upper_mulVec, hsame le_rfl, hget r, if_pos rfl, sub_add_cancel]
        exact hrest r (by simp only [r]; omega)
      · -- an equation that was solved before
        have hi' : n - k ≤ i.val := by have := Fin.lt_def.mp hlt; simp only [r] at this; omega
        rw [← hdone i hi', upper_mulVec, upper_mulVec, hsame hlt.le, hget i, if_neg hlt.ne']
    · have hne : i ≠ r := fun h => by subst h; simp [r] at hi
      rw [hget i, if_neg hne]
      exact hrest i (by omega)

/-! ### Both -/

/-- Substitution solves with the product of the triangles for the exchanged right-hand side. -/
lemma lower_mulVec_upper_mulVec_solve (hp : ∀ r, r ≤ f.pivots.get r)
    (hd : ∀ r, toMatrix f.lu r r ≠ 0) (b : Vector α n) :
    lower f.lu *ᵥ (upper f.lu *ᵥ (f.solve b).get) = (exchangeAll f.pivots b).get := by
  have hback : upper f.lu *ᵥ (f.solve b).get = (f.forward b n le_rfl).get :=
    funext fun i => (backward_spec f _ le_rfl).1 i (by omega)
  rw [hback]
  exact funext fun i => (forward_spec hp hd b le_rfl).1 i i.isLt

end Simultaneous.Solver
