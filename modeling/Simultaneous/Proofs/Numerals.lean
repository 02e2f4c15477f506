import Mathlib
import Simultaneous.Proofs.Exact
import Simultaneous.Proofs.Readers

/-!
Literals as decimal numerals.

A literal can be converted by way of a text: its mantissa and, behind an `e`, its power of ten, put
together as one numeral in the usual form. The reader counts digits at one moment, looks at the
length at another and at the points of an exponent at a third. None of that lets a text through that
is no numeral, and the numeral denotes the number that the literal writes down.
-/

namespace Simultaneous.Equation

open Number (Decimal ofDecimal ofDigits)
open Text (isNameChar skipBlanks)

/-! ### Numerals -/

/-- What may stand before the power of ten, with the number it denotes: digits, perhaps with a
point before, between or behind them. -/
inductive Significand : List Char → ℚ → Prop where
  | whole {ds : List Char} (digits : ∀ c ∈ ds, c.isDigit = true) (ne_nil : ds ≠ []) :
    Significand ds (ofDigits ds)
  | pointed {ds es : List Char} (digits : ∀ c ∈ ds ++ es, c.isDigit = true)
    (ne_nil : ds ++ es ≠ []) :
    Significand (ds ++ '.' :: es) (ofDigits ds + ofDigits es / 10 ^ es.length)

/-- A power of ten with its exponent behind one of these characters, or none. -/
inductive Power (marks : List Char) : List Char → ℤ → Prop where
  | none : Power marks [] 0
  | some {c : Char} {ds : List Char} (mark : c ∈ marks) (s : Option Sign)
    (digits : ∀ c ∈ ds, c.isDigit = true) (ne_nil : ds ≠ []) :
    Power marks (c :: signText s ++ ds) (if s = some .minus then -ofDigits ds else ofDigits ds)

/-- A decimal numeral without a sign, with the number it denotes. -/
inductive Numeral : List Char → ℚ → Prop where
  | mk {m p : List Char} {q : ℚ} {k : ℤ} (significand : Significand m q)
    (power : Power ['e', 'E'] p k) : Numeral (m ++ p) (q * 10 ^ k)

def power? : List Char → Option ℤ
  | [] => some 0
  | c :: cs =>
    let (s, ds) := readSign cs
    if c ∈ ['e', 'E'] ∧ ds ≠ [] ∧ ds.all Char.isDigit = true then
      some (if s = some .minus then -ofDigits ds else ofDigits ds)
    else none

/-- The decimal that a text denotes, if it is a numeral. -/
def ofNumeral? (cs : List Char) : Option Decimal :=
  let m := cs.takeWhile isRunChar
  if m.any Char.isDigit = true ∧ m.count '.' ≤ 1 then
    (power? (cs.dropWhile isRunChar)).map fun k =>
      ⟨ofDigits (m.filter Char.isDigit), k - ((m.dropWhile (· != '.')).drop 1).length⟩
  else none

lemma power_iff {cs : List Char} {k : ℤ} : Power ['e', 'E'] cs k ↔ power? cs = some k := by
  refine ⟨fun h => ?_, fun h => ?_⟩
  · cases h with
    | none => rfl
    | @some c ds mark s digits ne_nil =>
      have hstops : s = none → Stops isSignChar ds := by
        rintro - d rest rfl
        exact isSignChar_eq_false (by decide) (by decide) (digits d (.head _))
      rw [List.cons_append, power?, readSign_append s hstops]
      exact if_pos ⟨mark, ne_nil, List.all_eq_true.mpr digits⟩
  · cases cs with
    | nil =>
      obtain rfl := Option.some.inj h
      exact .none
    | cons c cs =>
      rw [power?] at h
      rcases hs : readSign cs with ⟨s, ds⟩
      simp only [hs] at h
      obtain ⟨⟨mark, ne_nil, hdigits⟩, hk⟩ := Option.ite_none_right_eq_some.mp h
      obtain rfl := Option.some.inj hk
      rw [eq_of_readSign hs]
      exact .some mark s (List.all_eq_true.mp hdigits) ne_nil

lemma ne_point_of_isDigit {c : Char} (h : c.isDigit = true) : (c != '.') = true := by
  rw [bne_iff_ne]
  rintro rfl
  exact absurd h (by decide)

lemma isNumber_of_forall_isDigit {ds : List Char} (digits : ∀ c ∈ ds, c.isDigit = true)
    (ne_nil : ds ≠ []) : IsNumber ds.length ds := by
  obtain ⟨c, hc⟩ := List.exists_mem_of_ne_nil ds ne_nil
  have hcount : ds.count '.' = 0 := by
    rw [List.count_eq_zero]
    intro hmem
    exact absurd (digits _ hmem) (by decide)
  exact ⟨fun d hd => .inl (digits d hd), ⟨c, hc, digits c hc⟩, by omega, le_rfl⟩

lemma isNumber_pointed {ds es : List Char} (digits : ∀ c ∈ ds ++ es, c.isDigit = true)
    (ne_nil : ds ++ es ≠ []) : IsNumber (ds ++ '.' :: es).length (ds ++ '.' :: es) := by
  have hperm : (ds ++ '.' :: es).Perm ('.' :: (ds ++ es)) := List.perm_middle
  have hrun := isNumber_of_forall_isDigit digits ne_nil
  obtain ⟨c, hc, hdigit⟩ := hrun.digit
  refine ⟨fun d hd => ?_, ⟨c, hperm.mem_iff.mpr (.tail _ hc), hdigit⟩, ?_, le_rfl⟩
  · rcases List.mem_cons.mp (hperm.mem_iff.mp hd) with rfl | hd
    · exact .inr rfl
    · exact .inl (digits d hd)
  · have hcount : (ds ++ es).count '.' = 0 := by
      rw [List.count_eq_zero]
      intro hmem
      exact absurd (digits _ hmem) (by decide)
    rw [hperm.count_eq, List.count_cons_self, hcount]

/-- The digits before and behind the point of a number, if it has one. -/
lemma mantissa_eq_or (l : Literal) :
    l.mantissa = l.whole ∧ l.fraction = [] ∨ l.mantissa = l.whole ++ '.' :: l.fraction := by
  have hsplit : l.whole ++ l.mantissa.dropWhile (· != '.') = l.mantissa :=
    List.takeWhile_append_dropWhile
  rw [Literal.fraction]
  cases htail : l.mantissa.dropWhile (· != '.') with
  | nil =>
    left
    rw [htail, List.append_nil] at hsplit
    exact ⟨hsplit.symm, rfl⟩
  | cons c tail =>
    right
    have hpoint : (c != '.') = false := stops_dropWhile c tail htail
    obtain rfl : c = '.' := by simpa using hpoint
    rw [htail] at hsplit
    exact hsplit.symm

lemma significand_of_isNumber {limit : ℕ} {l : Literal} (h : IsNumber limit l.mantissa) :
    Significand l.mantissa l.significand := by
  have hdigits : ∀ c ∈ l.whole ++ l.fraction, c.isDigit = true := by
    rw [← filter_isDigit_mantissa h]
    intro c hc
    exact (List.mem_filter.mp hc).2
  obtain ⟨c, hc, hdigit⟩ := h.digit
  have hne : l.whole ++ l.fraction ≠ [] := by
    rw [← filter_isDigit_mantissa h]
    exact List.ne_nil_of_mem (List.mem_filter.mpr ⟨hc, hdigit⟩)
  rcases mantissa_eq_or l with ⟨hwhole, hfraction⟩ | hpointed
  · have hvalue : (l.significand : ℚ) = ofDigits l.whole := by
      rw [Literal.significand, hfraction]
      simp [ofDigits]
    rw [hfraction, List.append_nil] at hdigits hne
    rw [hwhole, hvalue]
    exact .whole hdigits hne
  · rw [hpointed]
    exact .pointed hdigits hne

/-- The digits of a number without the point, and how many of them stand behind it. -/
lemma Significand.decimal_eq {m : List Char} {q : ℚ} (h : Significand m q) (k : ℤ) :
    IsNumber m.length m ∧
      (ofDecimal (⟨ofDigits (m.filter Char.isDigit),
        k - ((m.dropWhile (· != '.')).drop 1).length⟩ : Decimal) : ℚ) = q * 10 ^ k := by
  have hten : (10 : ℚ) ≠ 0 := by norm_num
  have hdecimal (d : Decimal) : (ofDecimal d : ℚ) = d.coefficient * 10 ^ d.exponent := rfl
  cases h with
  | whole digits ne_nil =>
    have hnumber := isNumber_of_forall_isDigit digits ne_nil
    have hfilter : m.filter Char.isDigit = m := List.filter_eq_self.mpr digits
    have htail : m.dropWhile (· != '.') = [] :=
      List.dropWhile_eq_nil_iff.mpr fun c hc => ne_point_of_isDigit (digits c hc)
    refine ⟨hnumber, ?_⟩
    rw [hdecimal, hfilter, htail]
    simp
  | @pointed ds es digits ne_nil =>
    have hnumber := isNumber_pointed digits ne_nil
    have hfilter : (ds ++ '.' :: es).filter Char.isDigit = ds ++ es := by
      rw [List.filter_append, List.filter_cons_of_neg (by decide), ← List.filter_append]
      exact List.filter_eq_self.mpr digits
    have htail : (ds ++ '.' :: es).dropWhile (· != '.') = '.' :: es :=
      dropWhile_append_of_stops
        (fun c hc => ne_point_of_isDigit (digits c (List.mem_append_left _ hc)))
        (stops_cons (by decide))
    refine ⟨hnumber, ?_⟩
    rw [hdecimal, hfilter, htail, List.drop_one, List.tail_cons, ofDigits_append, zpow_sub₀ hten,
      zpow_natCast]
    push_cast
    field_simp

lemma Power.stops {p : List Char} {k : ℤ} (h : Power ['e', 'E'] p k) : Stops isRunChar p := by
  cases h with
  | none => exact stops_nil
  | some mark s digits ne_nil =>
    rw [List.mem_pair] at mark
    rcases mark with rfl | rfl
    · exact stops_cons (by decide)
    · exact stops_cons (by decide)

lemma ofNumeral?_append {limit : ℕ} {m p : List Char} {k : ℤ} (hm : IsNumber limit m)
    (hp : Power ['e', 'E'] p k) :
    ofNumeral? (m ++ p) = some ⟨ofDigits (m.filter Char.isDigit),
      k - ((m.dropWhile (· != '.')).drop 1).length⟩ := by
  have hrun : ∀ c ∈ m, isRunChar c = true := by
    intro c hc
    simpa [isRunChar] using hm.chars c hc
  have htake : (m ++ p).takeWhile isRunChar = m := takeWhile_append_of_stops hrun hp.stops
  have hdrop : (m ++ p).dropWhile isRunChar = p := dropWhile_append_of_stops hrun hp.stops
  have hnumber : m.any Char.isDigit = true ∧ m.count '.' ≤ 1 :=
    ⟨List.any_eq_true.mpr hm.digit, hm.points⟩
  unfold ofNumeral?
  simp only [htake, hdrop, power_iff.mp hp, if_pos hnumber, Option.map_some]

/-- Just the numerals are converted, each to the number that it denotes. -/
lemma numeral_iff {cs : List Char} {q : ℚ} :
    Numeral cs q ↔ ∃ d, ofNumeral? cs = some d ∧ (ofDecimal d : ℚ) = q := by
  refine ⟨fun h => ?_, fun ⟨d, hd, hq⟩ => ?_⟩
  · obtain @⟨m, p, q, k, hm, hp⟩ := h
    obtain ⟨hnumber, hvalue⟩ := hm.decimal_eq k
    exact ⟨_, ofNumeral?_append hnumber hp, hvalue⟩
  · unfold ofNumeral? at hd
    obtain ⟨⟨hdigit, hpoints⟩, hd⟩ := Option.ite_none_right_eq_some.mp hd
    obtain ⟨k, hk, rfl⟩ := Option.map_eq_some_iff.mp hd
    have hsplit : cs.takeWhile isRunChar ++ cs.dropWhile isRunChar = cs :=
      List.takeWhile_append_dropWhile
    have hchars : ∀ c ∈ cs.takeWhile isRunChar, c.isDigit = true ∨ c = '.' := by
      intro c hc
      simpa [isRunChar] using List.mem_takeWhile_imp hc
    have hnumber : IsNumber (cs.takeWhile isRunChar).length (cs.takeWhile isRunChar) :=
      ⟨hchars, List.any_eq_true.mp hdigit, hpoints, le_rfl⟩
    have hm := significand_of_isNumber (l := ⟨cs.takeWhile isRunChar, none⟩) hnumber
    have hnumeral := Numeral.mk hm (power_iff.mpr hk)
    rw [← (hm.decimal_eq k).2, hsplit] at hnumeral
    exact hq ▸ hnumeral

/-! ### Texts of literals -/

/-- The text that is converted. -/
def Literal.text (l : Literal) : List Char :=
  l.mantissa ++ l.exponent.elim [] fun e => 'e' :: (if e.negative then ['-'] else []) ++ e.digits

/-- Texts of a number within the limit, perhaps with an `e`, a minus and digits within the limit. -/
inductive Assembled (limits : Limits) : List Char → Prop where
  | plain {m : List Char} (number : IsNumber limits.numberLength m) (length_pos : 1 ≤ m.length) :
    Assembled limits m
  | scaled {m ds : List Char} (number : IsNumber limits.numberLength m)
    (length_pos : 1 ≤ m.length) (negative : Bool) (digits : ∀ c ∈ ds, c.isDigit = true)
    (exponent_pos : 1 ≤ ds.length) (exponent_le : ds.length ≤ limits.exponentLength) :
    Assembled limits (m ++ ('e' :: (if negative then ['-'] else []) ++ ds))

section Texts

variable {limits : Limits} {l : Literal} {cs rest : List Char}

lemma Literal.Spelled.isNumber (h : l.Spelled limits cs) :
    IsNumber limits.numberLength l.mantissa := by
  cases h with
  | plain number => exact number
  | scaled number exponent => exact number

lemma Literal.Spelled.assembled (h : l.Spelled limits cs) : Assembled limits l.text := by
  have hpos := List.length_pos_iff.mpr h.isNumber.ne_nil
  cases h with
  | plain number =>
    unfold Literal.text
    rw [Option.elim_none, List.append_nil]
    exact .plain number hpos
  | scaled number exponent =>
    obtain ⟨s, digits, length_pos, length_le⟩ := exponent
    exact .scaled number hpos (s == some .minus) digits length_pos length_le

/-- A literal is spelled as its mantissa and its power of ten. -/
lemma Literal.Spelled.exists_power (h : l.Spelled limits cs) :
    ∃ power, cs = l.mantissa ++ power ∧
      Power ['^'] power (l.exponent.elim 0 Exponent.value) := by
  cases h with
  | plain number => exact ⟨[], (List.append_nil _).symm, .none⟩
  | scaled number exponent =>
    obtain @⟨ds, s, digits, length_pos, length_le⟩ := exponent
    refine ⟨_, rfl, ?_⟩
    have hne : ds ≠ [] := List.length_pos_iff.mp length_pos
    simp only [Option.elim_some, Exponent.value, beq_iff_eq]
    exact Power.some (.head _) s digits hne

/-- The text keeps a minus before the exponent and drops a plus. -/
lemma Literal.Spelled.power (h : l.Spelled limits cs) :
    Power ['e', 'E']
      (l.exponent.elim [] fun e => 'e' :: (if e.negative then ['-'] else []) ++ e.digits)
      (l.exponent.elim 0 Exponent.value) := by
  cases h with
  | plain number => exact .none
  | scaled number exponent =>
    obtain @⟨ds, s, digits, length_pos, length_le⟩ := exponent
    have hne : ds ≠ [] := List.length_pos_iff.mp length_pos
    simp only [Option.elim_some, Exponent.value]
    cases s == some .minus with
    | false => exact Power.some (.head _) none digits hne
    | true => exact Power.some (.head _) (some .minus) digits hne

lemma Literal.Spelled.ofNumeral?_text (h : l.Spelled limits cs) :
    ofNumeral? l.text = some l.decimal :=
  ofNumeral?_append h.isNumber h.power

lemma Literal.Spelled.numeral (h : l.Spelled limits cs) : Numeral l.text l.exact :=
  .mk (significand_of_isNumber h.isNumber) h.power

lemma exact_nonneg (l : Literal) : 0 ≤ (l.exact : ℚ) := by
  unfold Literal.exact Literal.significand
  positivity

end Texts

/-! ### Terms with a conversion -/

def Quantity.literal? : Quantity → Option Literal
  | .constant l => some l
  | .multiple l _ => l

/-- Goes on with the place in mind where it starts. -/
def Reader.remember {β : Type} (K : List Char → Reader β) : Reader β := fun cs => K cs cs

/-- Reads a term and converts the text of its literal. A text that is no numeral is a fault where
the number starts, found once the name has been read. -/
def readConverted (limits : Limits) : Reader (Term × Option Decimal) :=
  open Reader in
  sign.andThen fun s => blanks.andThen fun _ => remember fun start =>
    (readLiteral limits).andThen fun literal => blanks.andThen fun _ =>
      (run isNameChar).andThen fun name =>
        match literal.map fun l => (l, ofNumeral? l.text) with
        | some (_, none) => fun _ => .error ⟨.illegalEquation, start⟩
        | some (l, some d) =>
          if name.isEmpty then done (⟨s, .constant l⟩, some d)
          else done (⟨s, .multiple (some l) (String.ofList name)⟩, some d)
        | none =>
          if name.isEmpty then fault .noTerm
          else done (⟨s, .multiple none (String.ofList name)⟩, none)

lemma readConverted_eq (limits : Limits) (cs : List Char) :
    readConverted limits cs = (readTerm limits cs).map fun r =>
      ((r.1, r.1.quantity.literal?.map Literal.decimal), r.2) := by
  open Reader in
  rw [readTerm_eq_andThen, readConverted, sign_andThen, sign_andThen, blanks_andThen,
    blanks_andThen, remember]
  cases hl : readLiteral limits (skipBlanks (readSign cs).2) with
  | error o =>
    rw [andThen_of_error hl, andThen_of_error hl]
    rfl
  | ok r =>
    obtain ⟨literal, rest⟩ := r
    rw [andThen_of_ok hl, andThen_of_ok hl, blanks_andThen, blanks_andThen, run_andThen,
      run_andThen]
    cases literal with
    | none =>
      dsimp only [Option.map_none]
      split_ifs <;> rfl
    | some l =>
      obtain ⟨text, hspelled, -⟩ := (spelled_of_readLiteral hl).2 l rfl
      dsimp only [Option.map_some]
      rw [hspelled.ofNumeral?_text]
      dsimp only
      split_ifs <;> rfl

lemma readConverted_eq_ok_iff {limits : Limits} {t : Term} {d : Option Decimal}
    {cs rest : List Char} :
    readConverted limits cs = .ok ((t, d), rest) ↔
      readTerm limits cs = .ok (t, rest) ∧ d = t.quantity.literal?.map Literal.decimal := by
  rw [readConverted_eq]
  cases readTerm limits cs with
  | error o => simp [Except.map]
  | ok r =>
    obtain ⟨t', rest'⟩ := r
    simp only [Except.map, Except.ok.injEq, Prod.mk.injEq]
    constructor
    · rintro ⟨⟨rfl, rfl⟩, rfl⟩
      exact ⟨⟨rfl, rfl⟩, rfl⟩
    · rintro ⟨⟨rfl, rfl⟩, rfl⟩
      exact ⟨⟨rfl, rfl⟩, rfl⟩

/-- **The text of every literal that is read is a numeral** of the shape and the lengths that the
limits allow, and denotes the mantissa times the power of ten that stand in the line. So the
conversion never fails: a term is read as if there were none. -/
theorem numeral_of_readLiteral (limits : Limits) :
    (∀ cs l rest, readLiteral limits cs = .ok (some l, rest) →
      ∃ m power q k, cs = m ++ power ++ rest ∧ l.Spelled limits (m ++ power) ∧
        Significand m q ∧ Power ['^'] power k ∧ Assembled limits l.text ∧
        Numeral l.text (q * 10 ^ k) ∧ 0 ≤ q * 10 ^ k ∧ ofNumeral? l.text = some l.decimal) ∧
      (∀ cs q, Numeral cs q ↔ ∃ d, ofNumeral? cs = some d ∧ (ofDecimal d : ℚ) = q) ∧
      ∀ cs, readConverted limits cs = (readTerm limits cs).map fun r =>
        ((r.1, r.1.quantity.literal?.map Literal.decimal), r.2) := by
  refine ⟨fun cs l rest h => ?_, fun _ _ => numeral_iff, readConverted_eq limits⟩
  obtain ⟨scanned, hspelled, rfl⟩ := (spelled_of_readLiteral h).2 l rfl
  obtain ⟨power, rfl, hpower⟩ := hspelled.exists_power
  exact ⟨l.mantissa, power, l.significand, _, rfl, hspelled,
    significand_of_isNumber hspelled.isNumber, hpower, hspelled.assembled, hspelled.numeral,
    exact_nonneg l, hspelled.ofNumeral?_text⟩

/-- With a power of ten, and a blank and a name behind it. -/
theorem numeral_of_readLiteral_scaled :
    let l : Literal := ⟨['2', '.', '5'], some ⟨true, ['3']⟩⟩
    readLiteral {} "2.5^-3 x".toList = .ok (some l, [' ', 'x']) ∧
      (∃ q : ℚ, Numeral "2.5e-3".toList q ∧ 0 ≤ q) ∧
      ofNumeral? "2.5e-3".toList = some ⟨25, -4⟩ := by
  intro l
  have hread : readLiteral {} "2.5^-3 x".toList = .ok (some l, [' ', 'x']) := by decide +kernel
  obtain ⟨_, _, q, k, -, -, -, -, -, hnumeral, hnonneg, hdecimal⟩ :=
    (numeral_of_readLiteral {}).1 _ _ _ hread
  exact ⟨hread, ⟨_, hnumeral, hnonneg⟩, hdecimal⟩

end Simultaneous.Equation
