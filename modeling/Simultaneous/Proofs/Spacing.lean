import Mathlib
import Simultaneous.Proofs.Documents
import Simultaneous.Proofs.Exact

/-!
White space between tokens.

Where a place of a line is not inside a name, a number or an equal sign with the sign behind it,
one of the gaps of the grammar is there: in front of a token, between a sign and its term, between a
number and its name, or at the end. So more white space there leaves the tokens that the line
spells, and with them all that is read.
-/

namespace Simultaneous

open Equation
open Number (OfDecimal)
open Text (isBlank isNameChar)

namespace Equation

/-! ### Places -/

/-- The texts that white space would break: names, literals, and an equal sign with a sign. -/
inductive Unbroken (limits : Limits) : List Char → Prop where
  | name {cs : List Char} (name : IsName cs) : Unbroken limits cs
  | literal {l : Literal} {cs : List Char} (literal : l.Spelled limits cs) : Unbroken limits cs
  | equals (s : Sign) : Unbroken limits (Operator.equals (some s)).text

/-- The place between two parts of a line is strictly inside a text that must stay together. -/
def Inside (limits : Limits) (u v : List Char) : Prop :=
  ∃ a cs ds b, u = a ++ cs ∧ v = ds ++ b ∧ cs ≠ [] ∧ ds ≠ [] ∧ Unbroken limits (cs ++ ds)

variable {limits : Limits} {u v : List Char}

lemma Unbroken.inside (h : Unbroken limits (u ++ v)) (hu : u ≠ []) (hv : v ≠ []) :
    Inside limits u v :=
  ⟨[], u, v, [], rfl, (List.append_nil v).symm, hu, hv, h⟩

lemma Inside.append_left (h : Inside limits u v) (a : List Char) : Inside limits (a ++ u) v := by
  obtain ⟨a', cs, ds, b, rfl, hv, hcs, hds, hunbroken⟩ := h
  exact ⟨a ++ a', cs, ds, b, (List.append_assoc a a' cs).symm, hv, hcs, hds, hunbroken⟩

lemma Inside.append_right (h : Inside limits u v) (b : List Char) : Inside limits u (v ++ b) := by
  obtain ⟨a, cs, ds, b', hu, rfl, hcs, hds, hunbroken⟩ := h
  exact ⟨a, cs, ds, b' ++ b, hu, List.append_assoc ds b' b, hcs, hds, hunbroken⟩

lemma plain_contains_of_mem_signText {s : Option Sign} {c : Char} (h : c ∈ signText s) :
    Text.plain.contains c = true := by
  rcases s with _ | _ | _
  · exact nomatch h
  · rw [List.mem_singleton.mp h]
    decide
  · rw [List.mem_singleton.mp h]
    decide

lemma Literal.Spelled.plain_contains {l : Literal} {cs : List Char} (h : l.Spelled limits cs) :
    ∀ c ∈ cs, Text.plain.contains c = true := by
  have hnumber {m : List Char} (number : IsNumber limits.numberLength m) :
      ∀ c ∈ m, Text.plain.contains c = true := by
    intro c hc
    refine plain_contains_of_isRunChar ?_
    rw [isRunChar, Bool.or_eq_true, beq_iff_eq]
    exact number.chars c hc
  cases h with
  | plain number => exact hnumber number
  | scaled number exponent =>
    obtain @⟨ds, s, digits, -, -⟩ := exponent
    refine List.forall_mem_append.mpr ⟨hnumber number, List.forall_mem_append.mpr ⟨?_, ?_⟩⟩
    · exact List.forall_mem_cons.mpr ⟨by decide, fun _ => plain_contains_of_mem_signText⟩
    · exact fun c hc => Text.plain_contains_of_isDigit (digits c hc)

/-- No place between a digit or mark and a letter is inside a text that must stay together. -/
lemma not_inside_of_mark_of_letter {c d : Char} (a b : List Char)
    (hc : Text.plain.contains c = true) (hd : isNameChar d = true) :
    ¬Inside limits (a ++ [c]) (d :: b) := by
  rintro ⟨a', cs, ds, b', hu, hv, hcs, hds, hunbroken⟩
  have hlast : cs.getLast? = some c := by
    rw [← List.getLast?_append_of_ne_nil a' hcs, ← hu, List.getLast?_concat]
  have hhead : ds.head? = some d := by
    rw [← List.head?_append_of_ne_nil ds hds, ← hv, List.head?_cons]
  have hmemc : c ∈ cs ++ ds := List.mem_append_left ds (List.mem_of_getLast? hlast)
  have hmemd : d ∈ cs ++ ds := List.mem_append_right cs (List.mem_of_head? hhead)
  have hmarks (hplain : ∀ c ∈ cs ++ ds, Text.plain.contains c = true) : False :=
    Bool.false_ne_true ((Text.isNameChar_eq_false_of_plain (hplain d hmemd)).symm.trans hd)
  generalize cs ++ ds = text at *
  cases hunbroken with
  | name name =>
    have hname := name.chars c hmemc
    exact Bool.false_ne_true ((Text.isNameChar_eq_false_of_plain hc).symm.trans hname)
  | literal literal => exact hmarks literal.plain_contains
  | equals s =>
    exact hmarks (List.forall_mem_cons.mpr ⟨by decide, fun _ => plain_contains_of_mem_signText⟩)

/-- A place in a text of three parts is inside the first, somewhere in the second, or inside the
last. -/
lemma exists_split_of_append {a b c : List Char} (h : a ++ b ++ c = u ++ v) :
    (∃ a', a' ≠ [] ∧ a = u ++ a' ∧ v = a' ++ (b ++ c)) ∨
      (∃ b₁ b₂, b = b₁ ++ b₂ ∧ u = a ++ b₁ ∧ v = b₂ ++ c) ∨
      ∃ c', c' ≠ [] ∧ u = a ++ b ++ c' ∧ c = c' ++ v := by
  rw [List.append_assoc] at h
  obtain ⟨w, rfl, hw⟩ | ⟨a', rfl, rfl⟩ := List.append_eq_append_iff.mp h
  · obtain ⟨c', rfl, rfl⟩ | ⟨b₂, rfl, rfl⟩ := List.append_eq_append_iff.mp hw
    · by_cases hc : c' = []
      · subst hc
        exact .inr (.inl ⟨b, [], (List.append_nil b).symm, by rw [List.append_nil], rfl⟩)
      · exact .inr (.inr ⟨c', hc, (List.append_assoc a b c').symm, rfl⟩)
    · exact .inr (.inl ⟨w, b₂, rfl, rfl, rfl⟩)
  · by_cases ha : a' = []
    · subst ha
      exact .inr (.inl ⟨[], b, rfl, by rw [List.append_nil, List.append_nil], rfl⟩)
    · exact .inl ⟨a', ha, rfl, rfl⟩

/-! ### More white space in a spelling -/

lemma length_signText_le (s : Option Sign) : (signText s).length ≤ 1 := by
  rcases s with _ | _ | _ <;> decide

lemma eq_nil_or_eq_nil_of_length_le (h : (u ++ v).length ≤ 1) : u = [] ∨ v = [] := by
  rw [List.length_append] at h
  rw [← List.length_eq_zero_iff, ← List.length_eq_zero_iff]
  omega

section Insert

variable {w : Char} (hw : isBlank w = true)

include hw

lemma isBlank_singleton : IsBlank [w] := fun _ hc => List.mem_singleton.mp hc ▸ hw

lemma isBlank_insert {bs bs' : List Char} (h : IsBlank (bs ++ bs')) : IsBlank (bs ++ w :: bs') := by
  refine .append (fun c hc => h c (List.mem_append_left bs' hc)) ?_
  exact (isBlank_singleton hw).append fun c hc => h c (List.mem_append_right bs hc)

lemma Quantity.Spelled.insert_blank {q : Quantity} (h : q.Spelled limits (u ++ v)) (hu : u ≠ [])
    (hv : v ≠ []) (hin : ¬Inside limits u v) : q.Spelled limits (u ++ w :: v) := by
  generalize htext : u ++ v = text at h
  cases h with
  | constant literal => exact absurd ((Unbroken.literal (htext ▸ literal)).inside hu hv) hin
  | name name => exact absurd ((Unbroken.name (htext ▸ name)).inside hu hv) hin
  | @multiple l cs bs ds literal blank name =>
    obtain ⟨cs', hcs, rfl, rfl⟩ | ⟨bs₁, bs₂, rfl, rfl, rfl⟩ | ⟨ds', hds, rfl, rfl⟩ :=
      exists_split_of_append htext.symm
    · exact absurd (((Unbroken.literal literal).inside hu hcs).append_right (bs ++ ds)) hin
    · have hspelled := Quantity.Spelled.multiple literal (isBlank_insert hw blank) name
      rw [List.append_assoc, List.append_assoc] at hspelled
      rw [List.append_assoc]
      exact hspelled
    · have hinside : Inside limits ds' v := (Unbroken.name name).inside hds hv
      exact absurd (hinside.append_left (cs ++ bs)) hin

lemma Term.Spelled.insert_blank {t : Term} (h : t.Spelled limits (u ++ v)) (hu : u ≠ [])
    (hv : v ≠ []) (hin : ¬Inside limits u v) : t.Spelled limits (u ++ w :: v) := by
  generalize htext : u ++ v = text at h
  obtain @⟨q, bs, cs, s, blank, quantity⟩ := h
  obtain ⟨cs', hcs, hsign, -⟩ | ⟨bs₁, bs₂, rfl, rfl, rfl⟩ | ⟨cs', hcs, rfl, rfl⟩ :=
    exists_split_of_append htext.symm
  · -- a sign is one character, so no place is inside it
    exact ((eq_nil_or_eq_nil_of_length_le (hsign ▸ length_signText_le s)).elim hu hcs).elim
  · have hspelled := Term.Spelled.mk s (isBlank_insert hw blank) quantity
    rw [List.append_assoc, List.append_assoc] at hspelled
    rw [List.append_assoc]
    exact hspelled
  · have hquantity := quantity.insert_blank hw hcs hv fun hinside =>
      hin (hinside.append_left (signText s ++ bs))
    rw [List.append_assoc]
    exact .mk s blank hquantity

lemma Token.Spelled.insert_blank {t : Token} (h : t.Spelled limits (u ++ v)) (hu : u ≠ [])
    (hv : v ≠ []) (hin : ¬Inside limits u v) : t.Spelled limits (u ++ w :: v) := by
  generalize htext : u ++ v = text at h
  cases h with
  | term h => exact .term ((htext ▸ h : Term.Spelled limits _ (u ++ v)).insert_blank hw hu hv hin)
  | operator o =>
    have hsplit (hlength : o.text.length ≤ 1) : False :=
      (eq_nil_or_eq_nil_of_length_le (htext ▸ hlength)).elim hu hv
    cases o with
    | sign s => exact (hsplit (length_signText_le (some s))).elim
    | equals s =>
      cases s with
      | none => exact (hsplit le_rfl).elim
      | some s => exact absurd ((htext ▸ Unbroken.equals s).inside hu hv) hin

/-- **More white space** where no token is broken leaves the tokens of a line. -/
lemma SpelledLine.insert_blank {ts : List Token} (h : SpelledLine limits ts (u ++ v))
    (hin : ¬Inside limits u v) : SpelledLine limits ts (u ++ w :: v) := by
  generalize htext : u ++ v = text at h
  -- the place is in the white space before a token, inside the token, or in the rest of the line
  induction h generalizing u with
  | nil blank => exact .nil (isBlank_insert hw (htext ▸ blank))
  | @cons t ts bs cs rest blank token more ih =>
    obtain ⟨bs', -, rfl, rfl⟩ | ⟨cs₁, cs₂, rfl, rfl, rfl⟩ | ⟨rest', -, rfl, rfl⟩ :=
      exists_split_of_append htext.symm
    · have hspelled := SpelledLine.cons (isBlank_insert hw blank) token more
      rwa [List.append_assoc, List.append_assoc, List.cons_append] at hspelled
    · by_cases hcs₁ : cs₁ = []
      · subst hcs₁
        have hspelled := SpelledLine.cons (blank.append (isBlank_singleton hw)) token more
        rw [List.append_nil]
        rwa [List.append_assoc, List.append_assoc] at hspelled
      by_cases hcs₂ : cs₂ = []
      · subst hcs₂
        have hspelled := SpelledLine.cons blank token (more.append_blank (isBlank_singleton hw))
        rwa [List.append_nil] at hspelled
      have htoken := token.insert_blank hw hcs₁ hcs₂ fun hinside =>
        hin ((hinside.append_left bs).append_right rest)
      have hspelled := SpelledLine.cons blank htoken more
      rwa [List.append_assoc, List.append_assoc, List.cons_append, ← List.append_assoc bs]
        at hspelled
    · rw [List.append_assoc]
      exact .cons blank token (ih (fun hinside => hin (hinside.append_left (bs ++ cs))) rfl)

end Insert

namespace Session

/-- White space between tokens leaves the reading of a line, but for the length of the line. -/
lemma read_insert_blank {s : Session} {e : LineEnd} {w : Char} (hw : isBlank w = true)
    (h : (s.read (u ++ v)).result = .ok e) (hin : ¬Inside s.limits u v) :
    s.read (u ++ w :: v) =
      { s.read (u ++ v) with
        session := { (s.read (u ++ v)).session with
          lineLength := (s.read (u ++ v)).session.lineLength + 1 } } := by
  obtain ⟨ts, hline, htakes, hend⟩ := exists_spelled_of_read h
  have hlength : (u ++ w :: v).length = (u ++ v).length + 1 := by
    rw [List.length_append, List.length_cons, List.length_append, Nat.add_assoc]
  rw [read, read, scan_of_spelled (hline.insert_blank hw hin) htakes,
    scan_of_spelled hline htakes]
  dsimp only
  rw [hend, hlength]
  cases e <;> rfl

end Session

end Equation

namespace Draft

variable {α : Type} [One α] [Add α] [Neg α] [OfDecimal α]

/-- **White space between tokens does not matter**: white space at any place of a line that is not
inside a name, a number with its exponent, or an equal sign with the sign behind it leaves the
answer, the system, the records, and the session but for the length of the line. -/
theorem feed_insert_blank (d : Draft α) (u v : List Char) (w : Char) (hw : isBlank w = true)
    (e : LineEnd) (h : (d.feed (u ++ v)).value.2 = .ok e)
    (hin : ¬Inside d.session.limits u v) :
    let d' := (d.feed (u ++ v)).value.1
    (d.feed (u ++ w :: v)).value =
        (⟨{ d'.session with lineLength := d'.session.lineLength + 1 }, d'.system⟩, .ok e) ∧
      (d.feed (u ++ w :: v)).log = (d.feed (u ++ v)).log := by
  intro d'
  rw [feed, Session.read_insert_blank hw h hin]
  exact ⟨Prod.ext rfl h, rfl⟩

/-- A tab between a number and its name. -/
theorem feed_insert_blank_of_multiple :
    let d : Draft ℚ := .fresh {}
    (d.feed "2x=3".toList).value.2 = .ok .complete ∧
      (d.feed "2\tx=3".toList).value.2 = .ok .complete ∧
      (d.feed "2\tx=3".toList).value.1.system = (d.feed "2x=3".toList).value.1.system := by
  intro d
  have hread : (d.feed "2x=3".toList).value.2 = .ok .complete := by decide +kernel
  have hinsert := feed_insert_blank d ['2'] "x=3".toList '\t' (by decide) .complete hread
    (not_inside_of_mark_of_letter [] "=3".toList (by decide) (by decide +kernel))
  exact ⟨hread, congrArg Prod.snd hinsert.1, congrArg (·.1.system) hinsert.1⟩

end Draft

end Simultaneous
