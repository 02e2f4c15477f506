import Mathlib
import Simultaneous.Solver.Refinement

/-!
Doubles that are infinite or not numbers.

A comparison with what is not a number fails, so the greatest magnitude of a vector passes over
such entries, and an infinite entry makes it infinite. The ratio of an infinite correction to a
finite solution reaches every bound.
-/

namespace Simultaneous.Number

open Float.Model
open Float.Model.UnpackedFloat (Sign unpackMantissa_packComponents unpackExponent_packComponents)
open Solver (magnitude greatest)

/-- What a double stands for. -/
def parts (x : Float) : UnpackedFloat := x.toModel.unpack

/-- What is left of the parts of a number once they are stored as a double. -/
def stored (u : UnpackedFloat) : UnpackedFloat :=
  UnpackedFloat.unpack .binary64 (UnpackedFloat.pack .binary64 u)

variable {u v : UnpackedFloat} {x y c : Float}

lemma isNaN_eq (x : Float) : x.isNaN = (parts x).isNaN := rfl

lemma isInf_eq (x : Float) : x.isInf = (parts x).isInf := rfl

lemma isFinite_eq (x : Float) : x.isFinite = (parts x).isFinite := rfl

lemma parts_zero : parts 0 = .zero .positive := rfl

lemma parts_neg (x : Float) : parts (-x) = stored (parts x).neg := rfl

lemma parts_add (x y : Float) : parts (x + y) = stored (.add .binary64 (parts x) (parts y)) := rfl

lemma parts_div (x y : Float) : parts (x / y) = stored (.div .binary64 (parts x) (parts y)) := rfl

lemma lt_iff : x < y ↔ (parts x).compare (parts y) = some .lt := by
  change decide ((parts x).compare (parts y) == some .lt) = true ↔ _
  simp

lemma le_iff : x ≤ y ↔ ((parts x).compare (parts y)).any (·.isLE) = true := by
  change decide (((parts x).compare (parts y)).any (·.isLE) = true) = true ↔ _
  simp

lemma isNaN_of_isFinite (h : u.isFinite = true) : u.isNaN = false := by
  cases u <;> first | rfl | exact nomatch h

lemma isNaN_of_isInf (h : u.isInf = true) : u.isNaN = false := by
  cases u <;> first | rfl | exact nomatch h

lemma isFinite_iff : x.isFinite = true ↔ x.isNaN = false ∧ x.isInf = false := by
  rw [isFinite_eq, isNaN_eq, isInf_eq]
  cases parts x <;> simp [UnpackedFloat.isFinite, UnpackedFloat.isNaN, UnpackedFloat.isInf]

/-! ### Storing -/

lemma stored_notANumber : stored .notANumber = .notANumber := rfl

lemma stored_infinity (s : Sign) : stored (.infinity s) = .infinity s := by
  cases s <;> rfl

lemma stored_zero (s : Sign) : stored (.zero s) = .zero s := by
  cases s <;> rfl

lemma isFinite_unpack_packComponents {s : Sign} {e : BitVec 11} {m : BitVec 52} (h : e ≠ -1#11) :
    (UnpackedFloat.unpack .binary64 (UnpackedFloat.packComponents .binary64 s e m)).isFinite =
      true := by
  rw [UnpackedFloat.unpack]
  simp only [unpackMantissa_packComponents, unpackExponent_packComponents]
  rw [if_neg h]
  split_ifs <;> rfl

/-- A number is too large for a double or stays a number. -/
lemma isFinite_stored_finite (s : Sign) (m : ℕ) (e : ℤ) (hm : 0 < m) :
    (stored (.finite s m e hm)).isFinite = true ∨
      972 ≤ e ∧ (stored (.finite s m e hm)).isInf = true := by
  have hbias : (e + Format.binary64.exponentBias + Format.binary64.mantissaBitsWithoutImplicit) =
      e + 1075 := by
    change e + (1023 : ℕ) + (52 : ℕ) = e + 1075
    omega
  rw [stored, UnpackedFloat.pack]
  simp only [hbias]
  split_ifs with hlarge
  · refine .inr ⟨?_, ?_⟩
    · change 2048 ≤ (e + 1075).toNat + 1 at hlarge
      omega
    · cases s <;> rfl
  · refine .inl (isFinite_unpack_packComponents fun h => hlarge ?_)
    have hall : (e + 1075).toNat % 2048 = 2047 := congrArg BitVec.toNat h
    change 2048 ≤ (e + 1075).toNat + 1
    omega
  · exact .inl (isFinite_unpack_packComponents (by decide))

lemma isNaN_stored (h : u.isNaN = false) : (stored u).isNaN = false := by
  cases u with
  | notANumber => exact nomatch h
  | infinity s => rw [stored_infinity]; rfl
  | zero s => rw [stored_zero]; rfl
  | finite s m e hm =>
    rcases isFinite_stored_finite s m e hm with hfin | ⟨-, hinf⟩
    · exact isNaN_of_isFinite hfin
    · exact isNaN_of_isInf hinf

lemma isFinite_of_stored (h : (stored u).isFinite = true) : u.isFinite = true := by
  cases u with
  | notANumber => exact h
  | infinity s => rwa [stored_infinity] at h
  | zero s => rfl
  | finite s m e hm => rfl

/-- A number that a double stands for is not too large for one. -/
lemma exponent_le_of_parts {s : Sign} {m : ℕ} {e : ℤ} {hm : 0 < m}
    (h : parts x = .finite s m e hm) : e ≤ 971 := by
  have hbias : ((Format.binary64.exponentBias : ℕ) : ℤ) +
      (Format.binary64.mantissaBitsWithoutImplicit : ℕ) = 1075 := rfl
  rw [parts, Float.Model.unpack, UnpackedFloat.unpack] at h
  simp only [hbias] at h
  have hlt := (@UnpackedFloat.unpackExponent .binary64 x.toModel.toBits.toBitVec).isLt
  split_ifs at h with hmax _ hmin
  · -- a subnormal number
    obtain ⟨-, -, rfl⟩ := UnpackedFloat.finite.inj h
    rw [hmin]
    decide
  · obtain ⟨-, -, rfl⟩ := UnpackedFloat.finite.inj h
    have hne : (@UnpackedFloat.unpackExponent .binary64
        x.toModel.toBits.toBitVec).toNat ≠ 2047 := fun hall => hmax (BitVec.eq_of_toNat_eq hall)
    change _ < 2048 at hlt
    omega

/-! ### Arithmetic -/

lemma isFinite_neg (h : x.isFinite = true) : (-x).isFinite = true := by
  rw [isFinite_eq] at h
  rw [isFinite_eq, parts_neg]
  cases hx : parts x with
  | notANumber => rw [hx] at h; exact nomatch h
  | infinity s => rw [hx] at h; exact nomatch h
  | zero s => rw [UnpackedFloat.neg, stored_zero]; rfl
  | finite s m e hm =>
    refine (isFinite_stored_finite _ m e hm).resolve_right fun hlarge => ?_
    have := exponent_le_of_parts hx
    omega

lemma isFinite_normalize (m : ℤ) (e : ℤ) (s : Sign) :
    (UnpackedFloat.normalize .binary64 m e s).isFinite = true := by
  have hround (s : Sign) (m : ℕ) (e : ℤ) :
      (UnpackedFloat.round .binary64 s m e).isFinite = true := by
    simp only [UnpackedFloat.round, UnpackedFloat.roundWithAccuracy]
    split_ifs <;> rfl
  rw [UnpackedFloat.normalize]
  split
  · exact hround _ _ _
  · rfl
  · exact hround _ _ _

/-- A sum of numbers is a number before it is stored. -/
lemma isFinite_add_parts (hu : u.isFinite = true) (hv : v.isFinite = true) :
    (UnpackedFloat.add .binary64 u v).isFinite = true := by
  cases u with
  | notANumber => exact nomatch hu
  | infinity s => exact nomatch hu
  | zero s =>
    cases v with
    | notANumber => exact nomatch hv
    | infinity t => exact nomatch hv
    | zero t => cases s <;> cases t <;> rfl
    | finite t m e hm => rfl
  | finite s m e hm =>
    cases v with
    | notANumber => exact nomatch hv
    | infinity t => exact nomatch hv
    | zero t => rfl
    | finite t m' e' hm' => exact isFinite_normalize _ _ _

lemma isFinite_of_add_parts (h : (UnpackedFloat.add .binary64 u v).isFinite = true) :
    u.isFinite = true ∧ v.isFinite = true := by
  cases u with
  | notANumber => exact nomatch h
  | infinity s =>
    cases v with
    | infinity t => cases s <;> cases t <;> exact nomatch h
    | _ => exact nomatch h
  | zero s => cases v <;> first | exact ⟨rfl, rfl⟩ | exact nomatch h
  | finite s m e hm => cases v <;> first | exact ⟨rfl, rfl⟩ | exact nomatch h

/-- Two numbers have a sum that is a number, unless it is too large, and nothing else has. -/
lemma isFinite_add_iff : (x + y).isFinite = true ↔
    x.isFinite = true ∧ y.isFinite = true ∧ (x + y).isInf = false := by
  refine ⟨fun h => ?_, fun ⟨hx, hy, hinf⟩ => isFinite_iff.mpr ⟨?_, hinf⟩⟩
  · obtain ⟨hx, hy⟩ := isFinite_of_add_parts (isFinite_of_stored h)
    exact ⟨hx, hy, (isFinite_iff.mp h).2⟩
  · rw [isNaN_eq, parts_add]
    exact isNaN_stored (isNaN_of_isFinite (isFinite_add_parts hx hy))

/-! ### Sizes -/

/-- The parts of a number that is not below zero. -/
inductive IsSize : UnpackedFloat → Prop
  | zero : IsSize (.zero .positive)
  | finite (m : ℕ) (e : ℤ) (hm : 0 < m) : IsSize (.finite .positive m e hm)

lemma isNaN_of_compare (h : u.compare v = some .lt) : v.isNaN = false := by
  cases v with
  | notANumber => cases u <;> simp [UnpackedFloat.compare] at h
  | _ => rfl

/-- What exceeds a size and is not infinite is a size. -/
lemma IsSize.of_compare (hu : IsSize u) (hv : v.isInf = false) (h : u.compare v = some .lt) :
    IsSize v := by
  cases v with
  | notANumber => exact nomatch isNaN_of_compare h
  | infinity s => exact nomatch hv
  | zero s => cases hu <;> simp [UnpackedFloat.compare] at h
  | finite s m e hm =>
    cases s with
    | positive => exact .finite m e hm
    | negative => cases hu <;> simp [UnpackedFloat.compare] at h

/-- Only what is not a number is neither below infinity nor infinite. -/
lemma compare_infinity (hu : u.isNaN = false) :
    u.compare (.infinity .positive) = some .lt ∨ u = .infinity .positive := by
  cases u with
  | notANumber => exact nomatch hu
  | infinity s =>
    cases s with
    | positive => exact .inr rfl
    | negative => exact .inl rfl
  | zero s => exact .inl rfl
  | finite s m e hm => cases s <;> exact .inl rfl

lemma infinity_compare_ne : (UnpackedFloat.infinity .positive).compare u ≠ some .lt := by
  cases u with
  | infinity s => cases s <;> decide
  | _ => simp [UnpackedFloat.compare]

/-! ### Magnitudes -/

lemma magnitude_eq_or (x : Float) : magnitude x = x ∨ magnitude x = -x := by
  rw [magnitude]
  split_ifs
  · exact .inr rfl
  · exact .inl rfl

lemma isFinite_magnitude (h : x.isFinite = true) : (magnitude x).isFinite = true := by
  rcases magnitude_eq_or x with hx | hx
  · rwa [hx]
  · rw [hx]
    exact isFinite_neg h

lemma parts_magnitude_of_isInf (h : x.isInf = true) :
    parts (magnitude x) = .infinity .positive := by
  rw [isInf_eq] at h
  cases hx : parts x with
  | infinity s =>
    cases s with
    | positive =>
      have hlt : ¬x < 0 := fun hlt => infinity_compare_ne (hx ▸ lt_iff.mp hlt)
      rw [magnitude, if_neg hlt, hx]
    | negative =>
      have hlt : x < 0 := lt_iff.mpr (by rw [hx, parts_zero]; rfl)
      rw [magnitude, if_pos hlt, parts_neg, hx]
      rfl
  | _ => rw [hx] at h; exact nomatch h

/-! ### Greatest magnitudes -/

variable {m : Float} {l : List Float}

lemma parts_foldl_isSize (hm : IsSize (parts m)) (hl : ∀ x ∈ l, x.isFinite = true) :
    IsSize (parts (l.foldl (fun m x => if m < magnitude x then magnitude x else m) m)) := by
  induction l generalizing m with
  | nil => exact hm
  | cons x l ih =>
    rw [List.foldl_cons]
    refine ih ?_ fun y hy => hl y (.tail _ hy)
    split_ifs with hlt
    · have hinf := (isFinite_iff.mp (isFinite_magnitude (hl x (.head _)))).2
      exact hm.of_compare hinf (lt_iff.mp hlt)
    · exact hm

lemma parts_foldl_infinity (hm : parts m = .infinity .positive) :
    parts (l.foldl (fun m x => if m < magnitude x then magnitude x else m) m) =
      .infinity .positive := by
  induction l generalizing m with
  | nil => exact hm
  | cons x l ih =>
    have hlt : ¬m < magnitude x := fun hlt => infinity_compare_ne (hm ▸ lt_iff.mp hlt)
    rw [List.foldl_cons, if_neg hlt]
    exact ih hm

lemma parts_foldl_of_isInf (hm : m.isNaN = false) (hl : ∃ x ∈ l, x.isInf = true) :
    parts (l.foldl (fun m x => if m < magnitude x then magnitude x else m) m) =
      .infinity .positive := by
  induction l generalizing m with
  | nil => exact absurd hl (by simp)
  | cons y l ih =>
    obtain ⟨x, hx, hinf⟩ := hl
    rw [List.foldl_cons]
    rcases List.mem_cons.mp hx with rfl | hx
    · refine parts_foldl_infinity ?_
      have hparts := parts_magnitude_of_isInf hinf
      split_ifs with hlt
      · exact hparts
      · refine (compare_infinity hm).resolve_left fun h => hlt (lt_iff.mpr ?_)
        rwa [hparts]
    · refine ih ?_ ⟨x, hx, hinf⟩
      split_ifs with hlt
      · exact isNaN_of_compare (lt_iff.mp hlt)
      · exact hm

variable {n : ℕ} {w : Vector Float n}

lemma isSize_greatest (h : ∀ i, (w.get i).isFinite = true) : IsSize (parts (greatest w)) := by
  rw [greatest, ← Vector.foldl_toList]
  refine parts_foldl_isSize (by rw [parts_zero]; exact .zero) fun x hx => ?_
  obtain ⟨i, hi, rfl⟩ := Vector.mem_iff_getElem.mp (Vector.mem_toList_iff.mp hx)
  exact h ⟨i, hi⟩

lemma parts_greatest_of_isInf {i : Fin n} (h : (w.get i).isInf = true) :
    parts (greatest w) = .infinity .positive := by
  rw [greatest, ← Vector.foldl_toList]
  refine parts_foldl_of_isInf rfl ⟨_, Vector.mem_toList_iff.mpr ?_, h⟩
  exact Vector.getElem_mem i.isLt

/-! ### Ratios -/

/-- An infinite correction of a finite solution is not small. -/
lemma reaches_of_infinity {r : Ratio Float} (hnum : parts r.num = .infinity .positive)
    (hden : IsSize (parts r.den)) (hc : c.isNaN = false) : reaches r c = true := by
  have hratio : parts r.toFloat = .infinity .positive := by
    rw [Ratio.toFloat, parts_div, hnum]
    generalize parts r.den = u at hden
    cases hden <;> exact stored_infinity .positive
  change decide (c ≤ r.toFloat) = true
  rw [decide_eq_true_iff, le_iff, hratio]
  rcases compare_infinity (u := parts c) hc with h | h
  · rw [h]
    rfl
  · rw [h]
    rfl

end Simultaneous.Number
