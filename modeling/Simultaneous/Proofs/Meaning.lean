import Mathlib
import Simultaneous.Proofs.Documents
import Simultaneous.Proofs.Entering
import Simultaneous.Proofs.Exact

/-!
What a text means, in the arithmetic that its system is kept in.

The system of a text holds, for each equation that the text spells and each name in it, the sum of
the terms with that name, and for each equation with numbers alone the sum of these, all added up
in reading order.
-/

namespace Simultaneous

open Equation
open Number (OfDecimal ofDecimal)

namespace Equation

variable {α : Type}

/-- The number of a term without its signs, which is 1 if none is written. -/
def Quantity.magnitude [One α] [OfDecimal α] : Quantity → α
  | .constant l => ofDecimal l.decimal
  | .multiple (some l) _ => ofDecimal l.decimal
  | .multiple none _ => 1

/-- The number that a term stands for on the left side of its equation. -/
def Occurrence.value [One α] [Neg α] [OfDecimal α] (o : Occurrence) : α :=
  if Odd o.turns then -o.term.quantity.magnitude else o.term.quantity.magnitude

namespace Chain

def names (e : Chain) : List String := e.terms.filterMap (·.quantity.name?)

/-- The values of the terms that have the given name, or none, in reading order. -/
def values [One α] [Neg α] [OfDecimal α] (e : Chain) (name : Option String) : List α :=
  (e.occurrences.filter (·.term.quantity.name? = name)).map Occurrence.value

variable [Zero α] [One α] [Add α] [Neg α] [OfDecimal α]

/-- The coefficient of a name, if the equation has it. -/
def coefficient? (e : Chain) (name : String) : Option α :=
  if name ∈ e.names then some ((e.values (some name)).foldl (· + ·) 0) else none

/-- The right-hand side, if the equation has a term without a name. -/
def constant? (e : Chain) : Option α :=
  if ∃ t ∈ e.terms, t.quantity.name? = none then
    some ((e.values none).foldl (fun total v => total + -v) 0)
  else none

end Chain

end Equation

namespace LinearSystem

variable {α : Type} [Zero α] [One α] [Add α] [Neg α] [OfDecimal α]

/-- The system is the one that the equations write down. -/
structure Means (s : LinearSystem α) (es : List Chain) : Prop where
  names_eq : s.names = (es.flatMap Chain.names).eraseDups
  equationCount_eq : s.equationCount = es.length
  matrix_eq : ∀ i j, s.matrix.get? (i, j) =
    es[i]?.bind fun e => s.names[j]?.bind fun name => e.coefficient? name
  rhs_eq : ∀ i, s.rhs.get? i = es[i]?.bind Chain.constant?
  matrix_fallback : s.matrix.fallback = 0
  rhs_fallback : s.rhs.fallback = 0

end LinearSystem

/-! ### Cells of an equation -/

namespace Equation

variable {α : Type}

lemma Chain.map_term_occurrences (e : Chain) : e.occurrences.map Occurrence.term = e.terms := by
  have hafter (right : Bool) (rest : List (Operator × Term)) :
      (occurrencesAfter right rest).map Occurrence.term = rest.map Prod.snd := by
    induction rest generalizing right with
    | nil => rfl
    | cons link rest ih =>
      rw [occurrencesAfter, List.map_cons, ih]
      rfl
  rw [occurrences, List.map_cons, hafter, terms]

lemma Chain.filterMap_entry (e : Chain) :
    (e.occurrences.map Occurrence.entry).filterMap (·.quantity.name?) = e.names := by
  rw [names, ← e.map_term_occurrences, List.filterMap_map, List.filterMap_map]
  rfl

lemma Chain.mem_names_iff (e : Chain) (name : String) :
    name ∈ e.names ↔ ∃ t ∈ e.terms, t.quantity.name? = some name :=
  List.mem_filterMap

variable [One α] [Neg α] [OfDecimal α]

lemma Chain.values_eq_nil_iff (e : Chain) (name : Option String) :
    (e.values name : List α) = [] ↔ ¬∃ t ∈ e.terms, t.quantity.name? = name := by
  rw [values, List.map_eq_nil_iff, List.filter_eq_nil_iff, ← e.map_term_occurrences]
  simp

lemma Occurrence.value_entry (o : Occurrence) : (o.entry.value : α) = o.value := by
  obtain ⟨right, operator, sign, quantity⟩ := o
  cases quantity with
  | constant l => simp [Entry.value, Occurrence.entry, Occurrence.value, Quantity.magnitude]
  | multiple l name =>
    cases l <;> simp [Entry.value, Occurrence.entry, Occurrence.value, Quantity.magnitude]

lemma Occurrence.addend_entry {o : Occurrence} {name : Option String}
    (h : o.term.quantity.name? = name) :
    (o.entry.addend : α) = if name = none then -o.value else o.value := by
  obtain ⟨right, operator, sign, quantity⟩ := o
  subst h
  cases quantity with
  | constant l => exact congrArg Neg.neg (value_entry ⟨right, operator, sign, .constant l⟩)
  | multiple l name => exact value_entry ⟨right, operator, sign, .multiple l name⟩

variable [Zero α] [Add α]

/-- What an equation stores in the cell of a name, or in that of the right-hand side. -/
def Chain.cell? (e : Chain) : Option String → Option α
  | none => e.constant?
  | some name => e.coefficient? name

/-- The entries of an equation add up to its cells. -/
lemma Chain.foldl_addend (e : Chain) (name : Option String) :
    (((e.occurrences.map Occurrence.entry).filter (·.quantity.name? = name)).map
      Entry.addend).foldl (fun (total : Option α) v => some (total.getD 0 + v)) none =
        e.cell? name := by
  have hmap : ((e.occurrences.map Occurrence.entry).filter (·.quantity.name? = name)).map
      Entry.addend =
        (e.values name).map fun v : α => if name = none then -v else v := by
    rw [values, List.filter_map, List.map_map, List.map_map]
    refine List.map_congr_left fun o ho => ?_
    exact Occurrence.addend_entry (of_decide_eq_true (List.mem_filter.mp ho).2)
  rw [hmap, LinearSystem.foldl_none]
  simp only [List.map_eq_nil_iff, e.values_eq_nil_iff (α := α), ite_not, List.foldl_map]
  cases name with
  | none => rfl
  | some name =>
    simp only [cell?, coefficient?, e.mem_names_iff]
    rfl

end Equation

/-! ### Systems of equations -/

namespace LinearSystem

variable {α : Type} [Zero α] [One α] [Add α] [Neg α] [OfDecimal α]
variable {s : LinearSystem α} {row : ℕ}

lemma Tidy.enterEquation (h : s.Tidy) {es : List Entry} : (s.enterEquation row es).Tidy :=
  let ⟨nodup, inside, matrix, rhs⟩ := h.foldl_enter
  ⟨nodup, inside, matrix, rhs⟩

/-- An equation fills its row, and leaves the other rows alone. -/
lemma cell?_enterEquation (h : s.Tidy) (e : Chain) {name : Option String}
    (hnone : s.cell? row name = none) (i : ℕ) :
    (s.enterEquation row (e.occurrences.map Occurrence.entry)).cell? i name =
      if i = row then e.cell? name else s.cell? i name := by
  have hcell (t : LinearSystem α) (n : ℕ) :
      ({ t with equationCount := n } : LinearSystem α).cell? i name = t.cell? i name := by
    cases name <;> rfl
  rw [LinearSystem.enterEquation, hcell, cell?_foldl_enter h]
  by_cases hi : i = row
  · subst hi
    rw [if_pos rfl, if_pos rfl, hnone, e.foldl_addend]
  · rw [if_neg hi, if_neg hi]

lemma Tidy.enterAll (h : s.Tidy) (es : List Chain) : (s.enterAll row es).Tidy := by
  induction es generalizing s row with
  | nil => exact h
  | cons e es ih => exact ih h.enterEquation

omit [Zero α] in
lemma equationCount_enterAll (es : List Chain) (h : s.equationCount = row) :
    (s.enterAll row es).equationCount = row + es.length := by
  induction es generalizing s row with
  | nil => exact h
  | cons e es ih =>
    have hcount := ih (s := s.enterEquation row (e.occurrences.map Occurrence.entry)) rfl
    rw [LinearSystem.enterAll, List.length_cons]
    exact hcount.trans (Nat.add_right_comm row 1 es.length)

omit [Zero α] in
lemma names_enterAll (es : List Chain) {seen : List String} (h : s.names = seen.eraseDups) :
    (s.enterAll row es).names = (seen ++ es.flatMap Chain.names).eraseDups := by
  induction es generalizing s row seen with
  | nil => simpa [LinearSystem.enterAll] using h
  | cons e es ih =>
    have hnames : (s.enterEquation row (e.occurrences.map Occurrence.entry)).names =
        (seen ++ e.names).eraseDups := by
      rw [← e.filterMap_entry]
      exact names_foldl_enter h
    rw [LinearSystem.enterAll, ih hnames, List.flatMap_cons, List.append_assoc]

/-- Each equation fills a row of its own. -/
lemma cell?_enterAll (h : s.Tidy) (es : List Chain) {name : Option String}
    (hnone : ∀ i, row ≤ i → s.cell? i name = none) (i : ℕ) :
    (s.enterAll row es).cell? i name =
      if i < row then s.cell? i name else es[i - row]?.bind fun e => e.cell? name := by
  induction es generalizing s row with
  | nil =>
    rw [LinearSystem.enterAll]
    split_ifs with hi
    · rfl
    · simpa using hnone i (not_lt.mp hi)
  | cons e es ih =>
    have hcell := cell?_enterEquation h e (hnone row le_rfl)
    have hnone' : ∀ i, row + 1 ≤ i →
        (s.enterEquation row (e.occurrences.map Occurrence.entry)).cell? i name = none := by
      intro i hi
      rw [hcell, if_neg (by omega), hnone i (by omega)]
    rw [LinearSystem.enterAll, ih h.enterEquation hnone', hcell]
    rcases Nat.lt_trichotomy i row with hi | rfl | hi
    · rw [if_pos (by omega), if_neg (by omega), if_pos hi]
    · rw [if_pos (by omega), if_pos rfl, if_neg (by omega), Nat.sub_self]
      rfl
    · obtain ⟨k, rfl⟩ := Nat.exists_eq_add_of_lt hi
      have hhere : row + k + 1 - row = k + 1 := by omega
      have hnext : row + k + 1 - (row + 1) = k := by omega
      rw [if_neg (by omega), if_neg (by omega), hhere, hnext, List.getElem?_cons_succ]

lemma means_enterAll (es : List Chain) : ((empty : LinearSystem α).enterAll 0 es).Means es := by
  have htidy : ((empty : LinearSystem α).enterAll 0 es).Tidy := tidy_empty.enterAll es
  have hcell (i : ℕ) (name : Option String) :
      ((empty : LinearSystem α).enterAll 0 es).cell? i name =
        es[i]?.bind fun e => e.cell? name :=
    cell?_enterAll tidy_empty es (fun i _ => cell?_empty i name) i
  constructor
  · have hnames : (empty : LinearSystem α).names = ([] : List String).eraseDups := rfl
    exact names_enterAll es hnames
  · have hcount : (empty : LinearSystem α).equationCount = 0 := rfl
    exact (equationCount_enterAll es hcount).trans (Nat.zero_add _)
  · intro i j
    by_cases hj : j < ((empty : LinearSystem α).enterAll 0 es).names.length
    · have h := hcell i (some (((empty : LinearSystem α).enterAll 0 es).names[j]))
      rw [cell?, column, htidy.nodup.idxOf_getElem] at h
      rw [h, List.getElem?_eq_getElem hj]
      rfl
    · rw [htidy.inside i j (not_lt.mp hj), List.getElem?_eq_none (not_lt.mp hj)]
      cases es[i]? <;> rfl
  · exact fun i => hcell i none
  · exact htidy.matrix_fallback
  · exact htidy.rhs_fallback

/-! ### Texts -/

variable {limits : Limits} {text : String}

lemma ofText_eq_ok_iff :
    (ofText limits text).value = .ok s ↔
      ∃ d : Draft α, ((Draft.fresh limits).feedAll (Text.splitChars text.toList)).value = .ok d ∧
        d.session.finish.2 = .ok () ∧ d.system = s := by
  rw [ofText, Logged.value_bind]
  cases ((Draft.fresh limits : Draft α).feedAll (Text.splitChars text.toList)).value with
  | error e => simp
  | ok d => cases h : d.session.finish.2 <;> simp [h, Except.map]

lemma ofText_of_spelled {es : List Chain}
    (h : SpelledSystem limits es (Text.splitChars text.toList)) :
    (ofText limits text).value = .ok ((empty : LinearSystem α).enterAll 0 es) := by
  obtain ⟨d, hfeed, hat⟩ := Draft.feedAll_of_spelled h (Draft.at_fresh (α := α))
  refine ofText_eq_ok_iff.mpr ⟨d, hfeed, ?_, hat.system_eq⟩
  rw [Session.finish, hat.phase_eq]

lemma exists_spelled_of_ofText (h : (ofText limits text).value = .ok s) :
    ∃ es, SpelledSystem limits es (Text.splitChars text.toList) := by
  obtain ⟨d, hfeed, hfinish, -⟩ := ofText_eq_ok_iff.mp h
  exact Draft.spells_of_feedAll Draft.at_fresh rfl hfeed hfinish

lemma means_of_spelled (h : (ofText limits text).value = .ok s) {es : List Chain}
    (hes : SpelledSystem limits es (Text.splitChars text.toList)) : s.Means es := by
  obtain rfl := Except.ok.inj ((ofText_of_spelled hes).symm.trans h)
  exact means_enterAll es

/-- An accepted text spells equations, and its system is the one that they write down, however
the text is taken apart. -/
theorem means_of_ofText (h : (ofText limits text).value = .ok s) :
    (∃ es, SpelledSystem limits es (Text.splitChars text.toList)) ∧
      ∀ es, SpelledSystem limits es (Text.splitChars text.toList) → s.Means es :=
  ⟨exists_spelled_of_ofText h, fun _ hes => means_of_spelled h hes⟩

/-- Signs in a row, and an equation that goes on behind a blank line. -/
theorem means_of_signs :
    ∃ s : LinearSystem ℚ, (ofText {} "2x - -3y =-\n\n- x + 4, y = .5^1 x").value = .ok s ∧
      (∃ es, SpelledSystem {} es (Text.splitChars "2x - -3y =-\n\n- x + 4, y = .5^1 x".toList)) ∧
        ∀ es, SpelledSystem {} es (Text.splitChars "2x - -3y =-\n\n- x + 4, y = .5^1 x".toList) →
          s.Means es := by
  have hread : (ofText {} "2x - -3y =-\n\n- x + 4, y = .5^1 x" :
    Logged (Record ℚ) _).value.toBool = true := by decide +kernel
  cases h : (ofText {} "2x - -3y =-\n\n- x + 4, y = .5^1 x" : Logged (Record ℚ) _).value with
  | error e => exact nomatch (congrArg Except.toBool h).symm.trans hread
  | ok s => exact ⟨s, rfl, means_of_ofText h⟩

end LinearSystem

end Simultaneous
