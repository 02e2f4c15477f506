import Mathlib
import Simultaneous.Text.CharClass

/-!
The kinds of characters that a line is made of: white space, digits, the characters of names, and
the marks `.`, `^`, `+`, `-` and `=`. No character is of two kinds, which is why a line can be
cut into its tokens in one way only.
-/

namespace Simultaneous.Text

lemma eq_false_symm {p q : Char → Bool} (h : ∀ c, p c = true → q c = false) (c : Char)
    (hc : q c = true) : p c = false :=
  Bool.eq_false_iff.mpr fun hp => Bool.false_ne_true ((h c hp).symm.trans hc)

namespace CharClass

/-- Whether no range of one class meets a range of the other. -/
def apart (r s : CharClass) : Bool :=
  r.all fun p => s.all fun q => p.2 < q.1 || q.2 < p.1

lemma contains_eq_false_of_apart {r s : CharClass} (h : apart r s = true) {c : Char}
    (hc : r.contains c = true) : s.contains c = false := by
  rw [Bool.eq_false_iff]
  intro hs
  obtain ⟨p, hp, hp1, hp2⟩ := contains_iff.mp hc
  obtain ⟨q, hq, hq1, hq2⟩ := contains_iff.mp hs
  have hpq := List.all_eq_true.mp (List.all_eq_true.mp h p hp) q hq
  simp only [Bool.or_eq_true, decide_eq_true_eq] at hpq
  omega

end CharClass

/-- The digits and all marks. -/
def plain : CharClass := [(0x2B, 0x2B), (0x2D, 0x2E), (0x30, 0x39), (0x3D, 0x3D), (0x5E, 0x5E)]

lemma whiteSpace_apart_plain : CharClass.apart whiteSpace plain = true := by decide

lemma whiteSpace_apart_alphabetic : CharClass.apart whiteSpace alphabetic = true := by
  decide +kernel

lemma plain_apart_alphabetic : CharClass.apart plain alphabetic = true := by decide +kernel

lemma plain_contains_of_isDigit {c : Char} (h : c.isDigit = true) : plain.contains c = true := by
  rw [CharClass.contains_iff]
  refine ⟨(0x30, 0x39), by decide, ?_⟩
  simp only [Char.isDigit, Bool.and_eq_true, decide_eq_true_eq, ge_iff_le,
    UInt32.le_iff_toNat_le] at h
  exact h

lemma isBlank_eq_false_of_plain {c : Char} (h : plain.contains c = true) : isBlank c = false :=
  eq_false_symm (fun _ => CharClass.contains_eq_false_of_apart whiteSpace_apart_plain) c h

lemma isNameChar_eq_false_of_plain {c : Char} (h : plain.contains c = true) :
    isNameChar c = false := by
  rw [isNameChar, CharClass.contains_eq_false_of_apart plain_apart_alphabetic h, Bool.false_or,
    beq_eq_false_iff_ne]
  rintro rfl
  exact absurd h (by decide)

lemma isNameChar_eq_false_of_isBlank {c : Char} (h : isBlank c = true) : isNameChar c = false := by
  rw [isNameChar, CharClass.contains_eq_false_of_apart whiteSpace_apart_alphabetic h,
    Bool.false_or, beq_eq_false_iff_ne]
  rintro rfl
  exact absurd h (by decide)

end Simultaneous.Text
