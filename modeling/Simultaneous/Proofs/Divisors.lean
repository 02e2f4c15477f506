import Mathlib
import Simultaneous.Proofs.DoubleOrder
import Simultaneous.Proofs.Factorization
import Simultaneous.Proofs.Lockstep

/-!
What an elimination divides by.

A scale is divided by, and later a pivot is. What is not a number compares with nothing, so no test
for small scales or small pivots is a test for it. They keep it out all the same: a search that
starts at 0 leaves its place only for something above, and what it ends at must then be above 0 to
pass the test. A pivot that is taken is in proportion to its scale above 0, and so it is on one side
of 0 itself. No later step touches it.
-/

namespace Simultaneous

open Solver (magnitude greatest)

/-- Below 0 or above it. -/
def Sided {α : Type} [Zero α] [LT α] (x : α) : Prop := x < 0 ∨ 0 < x

/-- Numbers in an order that is transitive, whose quotients stand on one side of 0 only if what is
divided does. -/
class Proportions (α : Type) [Zero α] [Div α] [LT α] : Prop extends IsTrans α (· < ·) where
  sided_of_div (x y : α) : Sided (x / y) → Sided x

section

variable {α : Type} [Zero α] [LT α] [DecidableLT α]

instance (x : α) : Decidable (Sided x) := inferInstanceAs (Decidable (x < 0 ∨ 0 < x))

lemma sided_of_magnitude_pos [Neg α] {x : α} (h : 0 < magnitude x) : Sided x := by
  rw [magnitude] at h
  split_ifs at h with hneg
  · exact .inl hneg
  · exact .inr h

end

/-! ### Doubles -/

namespace Number

open Float.Model

variable {x y : Float}

/-- The parts of a double that is a number and not 0. -/
inductive IsSided : UnpackedFloat → Prop
  | infinity (s : UnpackedFloat.Sign) : IsSided (.infinity s)
  | finite (s : UnpackedFloat.Sign) (m : ℕ) (e : ℤ) (hm : 0 < m) : IsSided (.finite s m e hm)

lemma sided_iff_parts : Sided x ↔ IsSided (parts x) := by
  have hsided : Sided x ↔ (parts x).compare (.zero .positive) = some .lt ∨
      (UnpackedFloat.zero .positive).compare (parts x) = some .lt := or_congr lt_iff lt_iff
  rw [hsided]
  rcases parts x with (_ | _) | _ | _ | ⟨_ | _, m, e, hm⟩
  · exact iff_of_true (.inl rfl) (.infinity _)
  · exact iff_of_true (.inr rfl) (.infinity _)
  · exact iff_of_false (by simp [UnpackedFloat.compare]) (by rintro ⟨⟩)
  · exact iff_of_false (by simp [UnpackedFloat.compare]) (by rintro ⟨⟩)
  · exact iff_of_true (.inl rfl) (.finite ..)
  · exact iff_of_true (.inr rfl) (.finite ..)

/-- What stands on one side of 0 is a number and not 0. -/
lemma sided_iff : Sided x ↔ x.isNaN = false ∧ (x == 0) = false := by
  have hbeq : (x == 0) = ((parts x).compare (.zero .positive) == some .eq) := rfl
  rw [sided_iff_parts, isNaN_eq, hbeq]
  rcases parts x with (_ | _) | _ | _ | ⟨_ | _, m, e, hm⟩
  · exact iff_of_true (.infinity _) ⟨rfl, rfl⟩
  · exact iff_of_true (.infinity _) ⟨rfl, rfl⟩
  · exact iff_of_false nofun nofun
  · exact iff_of_false nofun nofun
  · exact iff_of_true (.finite ..) ⟨rfl, rfl⟩
  · exact iff_of_true (.finite ..) ⟨rfl, rfl⟩

/-- Zero, and what is not a number, have no other quotients than these. -/
instance : Proportions Float where
  sided_of_div x y h := by
    rw [sided_iff_parts, parts_div] at h
    rw [sided_iff_parts]
    cases hx : parts x with
    | notANumber =>
      rw [hx, UnpackedFloat.div, stored_notANumber] at h
      exact nomatch h
    | infinity s => exact .infinity s
    | zero s =>
      rw [hx] at h
      cases hy : parts y <;> rw [hy] at h <;>
        simp only [UnpackedFloat.div, stored_notANumber, stored_zero] at h <;> exact nomatch h
    | finite s m e hm => exact .finite s m e hm

end Number

/-! ### Sound eliminations -/

namespace Solver

variable {α : Type} {n : ℕ} [Zero α] [Neg α] [LT α] [DecidableLT α]

section Scales

variable [IsTrans α (· < ·)]

/-- A search for the greatest magnitude leaves 0 only for something above it. -/
lemma greatest_eq_zero_or_pos (v : Vector α n) : greatest v = 0 ∨ 0 < greatest v := by
  rw [greatest, ← Vector.foldl_toList]
  refine List.foldlRecOn v.toList _ (motive := fun m => m = 0 ∨ 0 < m) (.inl rfl)
    fun m hm x _ => ?_
  split_ifs with hlt
  · rcases hm with rfl | hm
    · exact .inr hlt
    · exact .inr (IsTrans.trans _ _ _ hm hlt)
  · exact hm

variable [LE α] [DecidableLE α] {tolerance : α} {a : Square α n} {s : Vector α n}

/-- Scales that are accepted are above 0. -/
lemma scales_pos (htol : 0 ≤ tolerance) (h : scales tolerance a = .ok s) (i : Fin n) :
    0 < s.get i := by
  obtain ⟨rfl, haccepted⟩ := scales_accepts h
  rw [get_map]
  refine (greatest_eq_zero_or_pos _).resolve_left fun hzero => haccepted i ?_
  rwa [hzero]

end Scales

variable [Div α] [Proportions α]

namespace Elimination

/-- A search for a pivot leaves 0 only for an offer above it. -/
lemma choose_eq_zero_or_pos (w : Elimination α n) (r : Fin n) :
    r ≤ (w.choose r).1 ∧ ((w.choose r).2 = 0 ∨
      0 < (w.choose r).2 ∧ (w.choose r).2 = w.offer r (w.choose r).1) := by
  rw [choose, Fin.foldl_eq_foldl_finRange]
  refine List.foldlRecOn (List.finRange n) _
    (motive := fun best : Fin n × α =>
      r ≤ best.1 ∧ (best.2 = 0 ∨ 0 < best.2 ∧ best.2 = w.offer r best.1))
    ⟨le_rfl, .inl rfl⟩ fun best hbest i _ => ?_
  split_ifs with hi
  · refine ⟨hi.1, .inr ⟨?_, rfl⟩⟩
    rcases hbest.2 with hzero | ⟨hpos, -⟩
    · rw [← hzero]
      exact hi.2
    · exact IsTrans.trans _ _ _ hpos hi.2
  · exact hbest

/-- What the first `k` steps of an elimination leave to divide by. -/
structure Sound (w : Elimination α n) (k : ℕ) : Prop where
  scale_pos : ∀ i, 0 < w.scale.get i
  pivot_ge : ∀ r : Fin n, r.val < k → r ≤ w.pivots.get r
  diagonal : ∀ r : Fin n, r.val < k → Sided (toMatrix w.lu r r)

variable [Sub α] [Mul α] [LE α] [DecidableLE α] {w w' : Elimination α n} {tolerance : α} {r : Fin n}

/-- What a step in place that succeeds has done: it has taken a pivot that is on one side of 0. -/
lemma stepInPlace_ok (htol : 0 ≤ tolerance) (h : w.stepInPlace tolerance r = .ok w') :
    ∃ l, l = (({ w with lu := reduceColumn w.lu r } : Elimination α n).choose r).1 ∧ r ≤ l ∧
      Sided (toMatrix (reduceColumn w.lu r) l r) ∧
      w' = { ({ w with lu := reduceColumn w.lu r } : Elimination α n).exchangeInPlace r l with
        lu := reduceRow ((reduceColumn w.lu r).swap r l r.isLt l.isLt) r } := by
  obtain ⟨hl, hoffer⟩ :=
    choose_eq_zero_or_pos ({ w with lu := reduceColumn w.lu r } : Elimination α n) r
  dsimp only [stepInPlace] at h
  split_ifs at h with hle
  refine ⟨_, rfl, hl, ?_, (Except.ok.inj h).symm⟩
  rcases hoffer with hzero | ⟨hpos, heq⟩
  · rw [hzero] at hle
    exact absurd htol hle
  · rw [heq] at hpos
    exact Proportions.sided_of_div _ _ (sided_of_magnitude_pos hpos)

/-- **A step keeps what the steps before it leave to divide by.** -/
lemma Sound.step (hw : w.Sound r) (htol : 0 ≤ tolerance) (h : w.stepInPlace tolerance r = .ok w') :
    w'.Sound (r + 1) := by
  obtain ⟨l, -, hl, hpivot, rfl⟩ := stepInPlace_ok htol h
  refine ⟨fun i => ?_, fun m hm => ?_, fun m hm => ?_⟩
  · change 0 < (w.scale.set l (w.scale.get r) l.isLt).get i
    rw [get_set]
    split_ifs
    · exact hw.scale_pos r
    · exact hw.scale_pos i
  · change m ≤ (w.pivots.set r l r.isLt).get m
    rw [get_set]
    split_ifs with hmr
    · rwa [hmr]
    · exact hw.pivot_ge m (by have := Fin.val_ne_of_ne hmr; omega)
  · change Sided (toMatrix (reduceRow ((reduceColumn w.lu r).swap r l r.isLt l.isLt) r) m m)
    rw [toMatrix_reduceRow, if_neg fun hrm => hrm.2.ne' hrm.1, toMatrix_swap]
    rcases eq_or_ne m r with rfl | hmr
    · rwa [Equiv.swap_apply_left]
    · have hlt : m < r := Fin.lt_def.mpr (by have := Fin.val_ne_of_ne hmr; omega)
      rw [swap_eq_of_lt hl hlt, toMatrix_reduceColumn, if_neg fun hrm => hmr hrm.2]
      exact hw.diagonal m hlt

/-- All steps of a run in place do. -/
lemma sound_of_stepsBy {a : Square α n} {s : Vector α n} (htol : 0 ≤ tolerance)
    (hs : ∀ i, 0 < s.get i) {k : ℕ} {hk : k ≤ n}
    (h : stepsBy (stepInPlace tolerance) (.start a s) k hk = .ok w) : w.Sound k := by
  induction k generalizing w with
  | zero =>
    obtain rfl : Elimination.start a s = w := Except.ok.inj h
    exact ⟨hs, fun r hr => absurd hr (Nat.not_lt_zero _), fun r hr => absurd hr (Nat.not_lt_zero _)⟩
  | succ k ih =>
    rw [stepsBy] at h
    cases hv : stepsBy (stepInPlace tolerance) (.start a s) k (Nat.le_of_succ_le hk) with
    | error f => simp [hv, Except.bind] at h
    | ok v =>
      rw [hv] at h
      exact (ih hv).step htol h

end Elimination

/-! ### Sound factors -/


/-- Pivots that point forwards, and a diagonal that can be divided by. -/
structure Factorization.Sound (f : Factorization α n) : Prop where
  pivot_ge : ∀ r, r ≤ f.pivots.get r
  diagonal : ∀ r, Sided (toMatrix f.lu r r)

variable [Sub α] [Mul α] [LE α] [DecidableLE α]

/-- **A factorization leaves sound factors**, whatever it is given. -/
lemma sound_of_factorize {tolerance : α} {a : Square α n} {f : Factorization α n}
    (htol : 0 ≤ tolerance) (h : factorize tolerance a = .ok f) : f.Sound := by
  obtain ⟨s, w, hs, hw, rfl⟩ := factorize_ok h
  have hlockstep := Elimination.lockstep_stepsInPlace tolerance (.start a s) n le_rfl
  rw [hw] at hlockstep
  obtain ⟨v, hv, hsame⟩ := hlockstep.exists_of_ok
  have hsound := Elimination.sound_of_stepsBy htol (scales_pos htol hs) hv
  refine ⟨fun r => ?_, fun r => ?_⟩
  · exact hsame.pivots_eq ▸ hsound.pivot_ge r r.isLt
  · exact hsame.lu_eq ▸ hsound.diagonal r r.isLt

end Solver

end Simultaneous
