import Mathlib
import Simultaneous.Proofs.Literals

/-!
Reading terms and operators.

What follows a term in a line is white space, an operator or nothing, and none of these can be
taken for more of the term. An operator is read as the grammar spells it, but for an equal sign
with the sign of the next term directly behind it: that sign is then read with the operator.
-/

namespace Simultaneous.Equation

open Text (isBlank isNameChar skipBlanks)

/-! ### What stands around a term -/

def isOperatorChar (c : Char) : Bool := c == '=' || isSignChar c

/-- The next token is an operator, if there is one. -/
def OperatorNext (cs : List Char) : Prop := Stops (fun c => !isOperatorChar c) (skipBlanks cs)

lemma plain_contains_of_isRunChar {c : Char} (h : isRunChar c = true) :
    Text.plain.contains c = true := by
  rw [isRunChar, Bool.or_eq_true, beq_iff_eq] at h
  rcases h with h | rfl
  · exact Text.plain_contains_of_isDigit h
  · decide

lemma eq_of_isOperatorChar {c : Char} (h : isOperatorChar c = true) :
    c = '=' ∨ c = '+' ∨ c = '-' := by
  simpa [isOperatorChar, isSignChar] using h

lemma OperatorNext.stops {p : Char → Bool} (hblank : ∀ c, isBlank c = true → p c = false)
    (hequals : p '=' = false) (hplus : p '+' = false) (hminus : p '-' = false)
    {cs : List Char} (h : OperatorNext cs) : Stops p (skipBlanks cs) ∧ Stops p cs := by
  have hskip : Stops p (skipBlanks cs) := by
    intro c rest hc
    have hop := h c rest hc
    rw [Bool.not_eq_false'] at hop
    rcases eq_of_isOperatorChar hop with rfl | rfl | rfl
    · exact hequals
    · exact hplus
    · exact hminus
  refine ⟨hskip, ?_⟩
  rintro c rest rfl
  by_cases hb : isBlank c = true
  · exact hblank c hb
  · exact hskip c rest (skipBlanks_of_stops (stops_cons (Bool.eq_false_iff.mpr hb)))

lemma OperatorNext.stops_name {cs : List Char} (h : OperatorNext cs) :
    Stops isNameChar (skipBlanks cs) ∧ Stops isNameChar cs :=
  h.stops (fun _ => Text.isNameChar_eq_false_of_isBlank)
    (Text.isNameChar_eq_false_of_plain (by decide)) (Text.isNameChar_eq_false_of_plain (by decide))
    (Text.isNameChar_eq_false_of_plain (by decide))

lemma isLiteralChar_eq_false_of_not_plain {c : Char} (h : Text.plain.contains c = false) :
    isLiteralChar c = false := by
  rw [isLiteralChar, Bool.or_eq_false_iff]
  refine ⟨Bool.eq_false_iff.mpr fun hr => ?_, beq_eq_false_iff_ne.mpr ?_⟩
  · exact Bool.false_ne_true (h.symm.trans (plain_contains_of_isRunChar hr))
  · rintro rfl
    exact absurd h (by decide)

lemma isLiteralChar_eq_false_of_isBlank {c : Char} (h : isBlank c = true) :
    isLiteralChar c = false :=
  isLiteralChar_eq_false_of_not_plain
    (Text.CharClass.contains_eq_false_of_apart Text.whiteSpace_apart_plain h)

lemma isLiteralChar_eq_false_of_isNameChar {c : Char} (h : isNameChar c = true) :
    isLiteralChar c = false :=
  isLiteralChar_eq_false_of_not_plain
    (Text.eq_false_symm (fun _ => Text.isNameChar_eq_false_of_plain) c h)

lemma OperatorNext.stops_literal {cs : List Char} (h : OperatorNext cs) : Stops isLiteralChar cs :=
  (h.stops (fun _ => isLiteralChar_eq_false_of_isBlank) (by decide) (by decide) (by decide)).2

lemma IsName.stops {cs : List Char} (h : IsName cs) {p : Char → Bool}
    (hp : ∀ c, isNameChar c = true → p c = false) : Stops p cs := by
  rintro c rest rfl
  exact hp c (h.chars c (.head _))

lemma IsNumber.stops {limit : ℕ} {m : List Char} (h : IsNumber limit m) {p : Char → Bool}
    (hp : ∀ c, isRunChar c = true → p c = false) : Stops p m := by
  rintro c rest rfl
  refine hp c ?_
  rw [isRunChar, Bool.or_eq_true, beq_iff_eq]
  exact h.chars c (.head _)

lemma Literal.Spelled.exists_number {limits : Limits} {l : Literal} {cs : List Char}
    (h : l.Spelled limits cs) : ∃ m ds, IsNumber limits.numberLength m ∧ cs = m ++ ds := by
  cases h with
  | plain number => exact ⟨cs, [], number, (List.append_nil cs).symm⟩
  | scaled number exponent => exact ⟨_, _, number, rfl⟩

/-- A quantity starts with a digit, a point or a letter. -/
lemma Quantity.Spelled.stops {limits : Limits} {q : Quantity} {cs : List Char}
    (h : q.Spelled limits cs) {p : Char → Bool} (hrun : ∀ c, isRunChar c = true → p c = false)
    (hname : ∀ c, isNameChar c = true → p c = false) (rest : List Char) : Stops p (cs ++ rest) := by
  have hliteral {l : Literal} {ds : List Char} (hl : l.Spelled limits ds) (tail : List Char) :
      Stops p (ds ++ tail) := by
    obtain ⟨m, ds, number, rfl⟩ := hl.exists_number
    rw [List.append_assoc]
    exact stops_append number.ne_nil (number.stops hrun)
  cases h with
  | constant literal => exact hliteral literal rest
  | name name => exact stops_append name.ne_nil (name.stops hname)
  | multiple literal blank name =>
    rw [List.append_assoc, List.append_assoc]
    exact hliteral literal _

lemma Quantity.Spelled.ne_nil {limits : Limits} {q : Quantity} {cs : List Char}
    (h : q.Spelled limits cs) : cs ≠ [] := by
  have hliteral {l : Literal} {ds : List Char} (hl : l.Spelled limits ds) : ds ≠ [] := by
    obtain ⟨m, tail, number, rfl⟩ := hl.exists_number
    simp [number.ne_nil]
  cases h with
  | constant literal => exact hliteral literal
  | name name => exact name.ne_nil
  | multiple literal blank name => simp [name.ne_nil]

lemma Quantity.Spelled.stops_blank {limits : Limits} {q : Quantity} {cs : List Char}
    (h : q.Spelled limits cs) (rest : List Char) : Stops isBlank (cs ++ rest) :=
  h.stops (fun _ hc => Text.isBlank_eq_false_of_plain (plain_contains_of_isRunChar hc))
    (Text.eq_false_symm fun _ => Text.isNameChar_eq_false_of_isBlank) rest

/-- No sign stands at the front of a quantity, nor of white space and a quantity. -/
lemma Quantity.Spelled.stops_sign {limits : Limits} {q : Quantity} {cs : List Char}
    (h : q.Spelled limits cs) {bs : List Char} (hb : IsBlank bs) (rest : List Char) :
    Stops isSignChar (bs ++ cs ++ rest) := by
  cases bs with
  | cons b bs => exact stops_cons (isSignChar_eq_false (by decide) (by decide) (hb b (.head _)))
  | nil =>
    refine h.stops (fun c hc => ?_) (fun c hc => ?_) rest
    · exact isSignChar_eq_false (by decide) (by decide) hc
    · exact isSignChar_eq_false (Text.isNameChar_eq_false_of_plain (by decide))
        (Text.isNameChar_eq_false_of_plain (by decide)) hc

/-! ### Terms -/

variable {limits : Limits}

lemma readTerm_eq {cs tail after : List Char} {s : Option Sign} {l : Option Literal}
    (hs : readSign cs = (s, tail)) (hl : readLiteral limits (skipBlanks tail) = .ok (l, after)) :
    readTerm limits cs =
      if ((skipBlanks after).takeWhile isNameChar).isEmpty then
        l.elim (.error ⟨.noTerm, skipBlanks after⟩) fun value =>
          .ok (⟨s, .constant value⟩, skipBlanks after)
      else
        .ok (⟨s, .multiple l (String.ofList ((skipBlanks after).takeWhile isNameChar))⟩,
          (skipBlanks after).dropWhile isNameChar) := by
  rw [readTerm]
  simp only [hs, hl, bind, Except.bind]
  cases l <;> rfl

/-- A spelled term is read, up to white space behind it. -/
lemma readTerm_append {t : Term} {cs rest : List Char} (h : t.Spelled limits cs)
    (hn : OperatorNext rest) :
    ∃ after, readTerm limits (cs ++ rest) = .ok (t, after) ∧
      skipBlanks after = skipBlanks rest := by
  obtain @⟨q, bs, ds, s, blank, quantity⟩ := h
  have hs := readSign_append s fun _ => quantity.stops_sign blank rest
  rw [← List.append_assoc, ← List.append_assoc] at hs
  have hskip : skipBlanks (bs ++ ds ++ rest) = ds ++ rest := by
    rw [List.append_assoc, skipBlanks_append blank, skipBlanks_of_stops (quantity.stops_blank rest)]
  cases quantity with
  | constant literal =>
    have hl := readLiteral_append literal hn.stops_literal
    rw [readTerm_eq hs (hskip ▸ hl), takeWhile_of_stops hn.stops_name.1]
    exact ⟨_, rfl, skipBlanks_skipBlanks rest⟩
  | name name =>
    have hstop : Stops isLiteralChar (ds ++ rest) :=
      stops_append name.ne_nil (name.stops fun _ => isLiteralChar_eq_false_of_isNameChar)
    have hl := readLiteral_of_stops limits hstop.run
    rw [← hskip] at hl
    rw [readTerm_eq hs hl, skipBlanks_skipBlanks, hskip,
      takeWhile_append_of_stops name.chars hn.stops_name.2,
      dropWhile_append_of_stops name.chars hn.stops_name.2, if_neg (by simpa using name.ne_nil)]
    exact ⟨_, rfl, rfl⟩
  | @multiple l ls bs' ds' literal blank' name =>
    have hstop : Stops isLiteralChar (bs' ++ ds' ++ rest) := by
      cases bs' with
      | nil =>
        exact stops_append name.ne_nil (name.stops fun _ => isLiteralChar_eq_false_of_isNameChar)
      | cons b bs' => exact stops_cons (isLiteralChar_eq_false_of_isBlank (blank' b (.head _)))
    have hl := readLiteral_append literal hstop
    rw [← List.append_assoc, ← List.append_assoc] at hl
    have hname : skipBlanks (bs' ++ ds' ++ rest) = ds' ++ rest := by
      rw [List.append_assoc, skipBlanks_append blank']
      have hquantity : Quantity.Spelled limits _ ds' := .name name
      exact skipBlanks_of_stops (hquantity.stops_blank rest)
    rw [readTerm_eq hs (hskip ▸ hl), hname, takeWhile_append_of_stops name.chars hn.stops_name.2,
      dropWhile_append_of_stops name.chars hn.stops_name.2, if_neg (by simpa using name.ne_nil)]
    exact ⟨_, rfl, rfl⟩

/-- What is read as a term spells it, up to white space behind it. -/
lemma spelled_of_readTerm {t : Term} {cs rest : List Char}
    (h : readTerm limits cs = .ok (t, rest)) :
    ∃ text bs, t.Spelled limits text ∧ IsBlank bs ∧ cs = text ++ bs ++ rest := by
  rcases hs : readSign cs with ⟨s, tail⟩
  cases hl : readLiteral limits (skipBlanks tail) with
  | error o => rw [readTerm, hs] at h; simp [hl, bind, Except.bind] at h
  | ok r =>
    obtain ⟨l, after⟩ := r
    rw [readTerm_eq hs hl] at h
    obtain ⟨bs, hbs, hblanks⟩ := exists_eq_append_skipBlanks tail
    obtain ⟨bs', hbs', hblanks'⟩ := exists_eq_append_skipBlanks after
    obtain ⟨hnone, hsome⟩ := spelled_of_readLiteral hl
    split_ifs at h with hempty
    · cases l with
      | none => exact nomatch h
      | some l =>
        obtain ⟨rfl, rfl⟩ := Prod.mk.inj (Except.ok.inj h)
        obtain ⟨text, hspelled, htext⟩ := hsome l rfl
        refine ⟨signText s ++ bs ++ text, bs', .mk s hbs (.constant hspelled), hbs', ?_⟩
        calc cs = signText s ++ (bs ++ (text ++ (bs' ++ skipBlanks after))) := by
              rw [← hblanks', ← htext, ← hblanks, eq_of_readSign hs]
          _ = _ := by simp only [List.append_assoc]
    · obtain ⟨rfl, rfl⟩ := Prod.mk.inj (Except.ok.inj h)
      have hname := List.takeWhile_append_dropWhile (p := isNameChar) (l := skipBlanks after)
      set name := (skipBlanks after).takeWhile isNameChar
      have hisName : IsName name := ⟨by simpa using hempty, fun c => List.mem_takeWhile_imp⟩
      cases l with
      | none =>
        refine ⟨signText s ++ bs ++ name, [], .mk s hbs (.name hisName), isBlank_nil, ?_⟩
        calc cs = signText s ++ (bs ++ skipBlanks after) := by
              rw [← hnone rfl, skipBlanks_skipBlanks, ← hblanks, eq_of_readSign hs]
          _ = _ := by simp only [List.append_assoc, List.append_nil, hname]
      | some l =>
        obtain ⟨text, hspelled, htext⟩ := hsome l rfl
        refine ⟨signText s ++ bs ++ (text ++ bs' ++ name), [],
          .mk s hbs (.multiple hspelled hbs' hisName), isBlank_nil, ?_⟩
        calc cs = signText s ++ (bs ++ (text ++ (bs' ++ skipBlanks after))) := by
              rw [← hblanks', ← htext, ← hblanks, eq_of_readSign hs]
          _ = _ := by simp only [List.append_assoc, List.append_nil, hname]

/-! ### Operators -/

lemma readOperator_sign (s : Sign) (rest : List Char) :
    readOperator ((Operator.sign s).text ++ rest) = some (.sign s, rest) := by
  cases s <;> rfl

lemma readOperator_equals (s : Option Sign) {rest : List Char}
    (h : s = none → Stops isSignChar rest) :
    readOperator ((Operator.equals s).text ++ rest) = some (.equals s, rest) := by
  simp only [Operator.text, List.cons_append, readOperator, readSign_append s h]

lemma eq_of_readOperator {o : Operator} {cs rest : List Char}
    (h : readOperator cs = some (o, rest)) : cs = o.text ++ rest := by
  unfold readOperator at h
  split at h
  · next tail =>
    obtain ⟨rfl, rfl⟩ := Prod.mk.inj (Option.some.inj h)
    rw [Operator.text, List.cons_append]
    exact congrArg _ (eq_of_readSign rfl)
  · obtain ⟨rfl, rfl⟩ := Prod.mk.inj (Option.some.inj h)
    rfl
  · obtain ⟨rfl, rfl⟩ := Prod.mk.inj (Option.some.inj h)
    rfl
  · exact nomatch h

/-- Every operator starts with an operator character. -/
lemma Operator.text_eq_cons (o : Operator) :
    ∃ c cs, o.text = c :: cs ∧ isOperatorChar c = true := by
  cases o with
  | equals s => exact ⟨'=', signText s, rfl, rfl⟩
  | sign s => cases s <;> exact ⟨_, [], rfl, rfl⟩

lemma Operator.stops_blank (o : Operator) (rest : List Char) : Stops isBlank (o.text ++ rest) := by
  obtain ⟨c, cs, htext, hc⟩ := o.text_eq_cons
  rw [htext]
  refine stops_cons ?_
  rcases eq_of_isOperatorChar hc with rfl | rfl | rfl <;> decide

end Simultaneous.Equation
