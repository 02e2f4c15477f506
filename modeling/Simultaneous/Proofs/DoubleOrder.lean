import Mathlib
import Simultaneous.Proofs.Doubles

/-!
The order of doubles.

What is not a number compares with nothing, not even with itself. All other doubles stand in a line,
with both zeros in one place, so that comparisons of doubles are transitive whatever they compare,
and equality is symmetric, too.
-/

namespace Simultaneous.Number

open Float.Model
open Float.Model.UnpackedFloat (Sign)

/-- The place of a number in the order of doubles: the infinities at the ends, and the magnitudes by
their exponents and then by their mantissas. -/
def rank : UnpackedFloat → ℤ ×ₗ ℤ ×ₗ ℤ
  | .infinity .negative => toLex (-2, toLex (0, 0))
  | .finite .negative m e _ => toLex (-1, toLex (-e, -m))
  | .finite .positive m e _ => toLex (1, toLex (e, m))
  | .infinity .positive => toLex (2, toLex (0, 0))
  | _ => toLex (0, toLex (0, 0))

variable {u v : UnpackedFloat} {x y z : Float}

lemma compare_eq_lt_iff : u.compare v = some .lt ↔
    u.isNaN = false ∧ v.isNaN = false ∧ rank u < rank v := by
  rcases u with (_ | _) | _ | _ | ⟨_ | _, m, e, hm⟩ <;>
    rcases v with (_ | _) | _ | _ | ⟨_ | _, m', e', hm'⟩ <;>
    simp [UnpackedFloat.compare, UnpackedFloat.isNaN, rank, Prod.Lex.toLex_lt_toLex,
      Ordering.then_eq_lt, Ordering.then_eq_gt, compare_lt_iff_lt, compare_gt_iff_gt]
  rfl

lemma compare_eq_eq_iff : u.compare v = some .eq ↔
    u.isNaN = false ∧ v.isNaN = false ∧ rank u = rank v := by
  rcases u with (_ | _) | _ | _ | ⟨_ | _, m, e, hm⟩ <;>
    rcases v with (_ | _) | _ | _ | ⟨_ | _, m', e', hm'⟩ <;>
    simp [UnpackedFloat.compare, UnpackedFloat.isNaN, rank, Ordering.then_eq_eq]
  all_goals rfl

lemma lt_iff_rank : x < y ↔
    x.isNaN = false ∧ y.isNaN = false ∧ rank (parts x) < rank (parts y) :=
  lt_iff.trans compare_eq_lt_iff

lemma le_iff_rank : x ≤ y ↔
    x.isNaN = false ∧ y.isNaN = false ∧ rank (parts x) ≤ rank (parts y) := by
  have hle : x ≤ y ↔ (parts x).compare (parts y) = some .lt ∨
      (parts x).compare (parts y) = some .eq := by
    rw [le_iff]
    rcases (parts x).compare (parts y) with _ | _ | _ | _ <;> decide
  rw [hle, compare_eq_lt_iff, compare_eq_eq_iff, le_iff_lt_or_eq, isNaN_eq, isNaN_eq]
  tauto

lemma beq_iff_rank : (x == y) = true ↔
    x.isNaN = false ∧ y.isNaN = false ∧ rank (parts x) = rank (parts y) := by
  have hbeq : (x == y) = ((parts x).compare (parts y) == some .eq) := rfl
  rw [hbeq, beq_iff_eq, compare_eq_eq_iff, isNaN_eq, isNaN_eq]

lemma beq_self_iff_not_isNaN : (x == x) = true ↔ x.isNaN = false := by
  rw [beq_iff_rank]
  tauto

instance isTrans_lt : IsTrans Float (· < ·) where
  trans _ _ _ h h' := by
    obtain ⟨hx, -, hlt⟩ := lt_iff_rank.mp h
    obtain ⟨-, hz, hlt'⟩ := lt_iff_rank.mp h'
    exact lt_iff_rank.mpr ⟨hx, hz, hlt.trans hlt'⟩

instance isTrans_le : IsTrans Float (· ≤ ·) where
  trans _ _ _ h h' := by
    obtain ⟨hx, -, hle⟩ := le_iff_rank.mp h
    obtain ⟨-, hz, hle'⟩ := le_iff_rank.mp h'
    exact le_iff_rank.mpr ⟨hx, hz, hle.trans hle'⟩

instance partialEquivBEq : PartialEquivBEq Float where
  symm h := by
    obtain ⟨hx, hy, hrank⟩ := beq_iff_rank.mp h
    exact beq_iff_rank.mpr ⟨hy, hx, hrank.symm⟩
  trans h h' := by
    obtain ⟨hx, -, hrank⟩ := beq_iff_rank.mp h
    obtain ⟨-, hz, hrank'⟩ := beq_iff_rank.mp h'
    exact beq_iff_rank.mpr ⟨hx, hz, hrank.trans hrank'⟩

end Simultaneous.Number
