import Mathlib
import Simultaneous.Proofs.Singularity

/-!
Substitution as an inverse.

Pivots that point forwards and a diagonal without zeros are all that substitution asks for: both
triangles can then be inverted, and substitution finds the one vector that their product takes to
the exchanged right-hand side. The forward pass needs no other vector to exchange entries with. The
entry that it takes out makes room for the one that it is about to replace.
-/

namespace Simultaneous.Solver

open Matrix

variable {α : Type} {n : ℕ}

/-! ### In place -/

namespace Factorization

variable [Sub α] [Mul α] [Div α] (f : Factorization α n) (b : Vector α n)

/-- The forward pass on one vector. Entry `p` is taken out, entry `r` is written over it, and the
result of the step is written over entry `r`. -/
def forwardInPlace : (k : ℕ) → k ≤ n → Vector α n
  | 0, _ => b
  | k + 1, hk =>
    let r : Fin n := ⟨k, hk⟩
    let p := f.pivots.get r
    let y := forwardInPlace k (Nat.le_of_succ_le hk)
    let taken := y.get p
    let y := y.set p (y.get r) p.isLt
    let before (j : Fin k) : Fin n := j.castLE (Nat.le_of_lt hk)
    let t := lessProducts taken
      (fun j => (f.lu.get r).get (before j)) (fun j => y.get (before j))
    y.set r (t / (f.lu.get r).get r) r.isLt

/-- Both passes on one vector. -/
def solveInPlace : Vector α n :=
  f.backward (f.forwardInPlace b n (Nat.le_refl n)) n (Nat.le_refl n)

lemma forwardInPlace_eq {k : ℕ} (hk : k ≤ n) : f.forwardInPlace b k hk = f.forward b k hk := by
  induction k with
  | zero => rfl
  | succ k ih =>
    rw [forwardInPlace, forward, ih]
    generalize f.forward b k (Nat.le_of_succ_le hk) = y
    let r : Fin n := ⟨k, hk⟩
    let p := f.pivots.get r
    let before (j : Fin k) : Fin n := j.castLE (Nat.le_of_lt hk)
    let overwritten := y.set p (y.get r) p.isLt
    let exchanged := y.swap r p r.isLt p.isLt
    have htaken : y.get p = exchanged.get r := by
      rw [get_swap, Equiv.swap_apply_left]
    have hbefore : (fun j => overwritten.get (before j)) = fun j => exchanged.get (before j) :=
      funext fun j => get_set_get y (Fin.ne_of_lt j.isLt) p
    have hset (x : α) : overwritten.set r x r.isLt = exchanged.set r x r.isLt := by
      refine vector_ext fun i => ?_
      rw [get_set overwritten r i x, get_set exchanged r i x]
      split_ifs with hi
      · rfl
      · exact get_set_get y hi p
    let row (j : Fin k) : α := (f.lu.get r).get (before j)
    calc overwritten.set r
          (lessProducts (y.get p) row (fun j => overwritten.get (before j)) /
            (f.lu.get r).get r) r.isLt
        = exchanged.set r
          (lessProducts (y.get p) row (fun j => overwritten.get (before j)) /
            (f.lu.get r).get r) r.isLt := hset _
      _ = exchanged.set r
          (lessProducts (exchanged.get r) row (fun j => exchanged.get (before j)) /
            (f.lu.get r).get r) r.isLt := by rw [htaken, hbefore]

lemma solveInPlace_eq : f.solveInPlace b = f.solve b := by
  rw [solveInPlace, forwardInPlace_eq, solve]

end Factorization

/-! ### Triangles -/

variable [Field α] {a : Square α n}

lemma lower_mulVec_injective (hd : ∀ r, toMatrix a r r ≠ 0) :
    Function.Injective (lower a).mulVec := by
  intro u v huv
  rw [← sub_eq_zero]
  refine funext fun i => eq_zero_of_lower_mulVec (k := n) (fun r _ => hd r) (fun r _ => ?_) i.isLt
  rw [mulVec_sub, huv, sub_self]
  rfl

lemma upper_mulVec_injective (a : Square α n) : Function.Injective (upper a).mulVec := by
  intro u v huv
  rw [← sub_eq_zero]
  refine funext fun i => eq_zero_of_upper_mulVec (a := a) fun m _ => .inr ?_
  rw [mulVec_sub, huv, sub_self]
  rfl

/-! ### Solutions -/

/-- **Substitution inverts the product of the triangles**: what it leaves in the place of `b` is
the only `z` with `L * (U * z) = P * b`. With the factors of a matrix `A` it is the only solution
of `A * z = b`. -/
theorem solveInPlace_iff [LinearOrder α] [IsStrictOrderedRing α] (f : Factorization α n)
    (b : Vector α n) :
    f.solveInPlace b = f.solve b ∧
      ((∀ r, r ≤ f.pivots.get r) → (∀ r, toMatrix f.lu r r ≠ 0) → ∀ z : Fin n → α,
        lower f.lu *ᵥ (upper f.lu *ᵥ z) = (exchangeAll f.pivots b).get ↔
          z = (f.solveInPlace b).get) ∧
      ∀ (tolerance : α) (a : Square α n), 0 ≤ tolerance → factorize tolerance a = .ok f →
        ∀ z : Fin n → α, toMatrix a *ᵥ z = b.get ↔ z = (f.solveInPlace b).get := by
  rw [f.solveInPlace_eq b]
  refine ⟨rfl, fun hp hd z => ⟨fun hz => ?_, fun hz => ?_⟩, fun tolerance a htol hf z => ?_⟩
  · have hsolve := lower_mulVec_upper_mulVec_solve hp hd b
    exact upper_mulVec_injective f.lu (lower_mulVec_injective hd (hz.trans hsolve.symm))
  · rw [hz]
    exact lower_mulVec_upper_mulVec_solve hp hd b
  · exact mulVec_eq_iff_of_factorize htol hf b z

/-- Both exchanges take the last entry, so the entries go round. -/
theorem solveInPlace_iff_of_round :
    let a : Square ℚ 3 := #v[#v[-2, 3, 1], #v[0, -2, -3], #v[-1, 0, -1]]
    let f : Factorization ℚ 3 := ⟨#v[#v[-1, 0, 1], #v[-2, 3, 1], #v[0, -2, -1]], #v[2, 2, 2]⟩
    let b : Vector ℚ 3 := #v[7, -13, -4]
    factorize 0 a = .ok f ∧ f.solveInPlace b = #v[1, 2, 3] ∧
      exchangeAll f.pivots b = #v[-4, 7, -13] ∧
      lower f.lu *ᵥ (upper f.lu *ᵥ (f.solveInPlace b).get) = (exchangeAll f.pivots b).get ∧
      toMatrix a *ᵥ (f.solveInPlace b).get = b.get := by
  intro a f b
  have hf : factorize 0 a = .ok f := by cbv
  obtain ⟨-, htriangles, hmatrix⟩ := solveInPlace_iff f b
  refine ⟨hf, by decide +kernel, by decide, ?_, ?_⟩
  · exact (htriangles (by decide) (by decide +kernel) _).mpr rfl
  · exact (hmatrix 0 a le_rfl hf _).mpr rfl

end Simultaneous.Solver
