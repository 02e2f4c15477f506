import Mathlib
import Simultaneous.Proofs.Exact
import Simultaneous.Proofs.Meaning

/-!
Equations as statements about numbers.

Numbers for the names satisfy an equation if the terms written on its left add up to what those on
its right add up to. The system that equations write down, read as a matrix and a right-hand side,
has the same solutions.
-/

namespace Simultaneous

open Equation
open Number (ofDecimal)

namespace Equation

variable {α : Type} [Field α]

/-- The number in front of a name, or alone. -/
def Quantity.coefficient : Quantity → α
  | .constant l => l.exact
  | .multiple (some l) _ => l.exact
  | .multiple none _ => 1

/-- The coefficient with the signs that are written before it. -/
def Occurrence.coefficient (o : Occurrence) : α :=
  if Odd o.minuses then -o.term.quantity.coefficient else o.term.quantity.coefficient

/-- What a term comes to if its name stands for a number. -/
def Occurrence.eval (y : String → α) (o : Occurrence) : α :=
  match o.term.quantity.name? with
  | none => o.coefficient
  | some name => o.coefficient * y name

namespace Chain

def left (e : Chain) : List Occurrence := e.occurrences.filter (!·.right)

def right (e : Chain) : List Occurrence := e.occurrences.filter (·.right)

/-- The two sides come to the same number. -/
def Holds (e : Chain) (y : String → α) : Prop :=
  (e.left.map (Occurrence.eval y)).sum = (e.right.map (Occurrence.eval y)).sum

/-- What the left side has of a name more than the right side. -/
def net (e : Chain) (name : String) : α :=
  ((e.left.filter (·.term.quantity.name? = some name)).map Occurrence.coefficient).sum -
    ((e.right.filter (·.term.quantity.name? = some name)).map Occurrence.coefficient).sum

/-- The names of the equations in the order in which they first appear. -/
def unknowns (es : List Chain) : List String := (es.flatMap names).eraseDups

/-- The net coefficients of the names in the equations. -/
def coefficients (es : List Chain) : Matrix (Fin es.length) (Fin (unknowns es).length) α :=
  .of fun i j => es[i].net (unknowns es)[j]

end Chain

/-! ### Terms of spelled equations -/

variable {limits : Limits}

lemma exists_spelled_of_mem_line {ts : List Token} {line : List Char} {t : Term}
    (h : SpelledLine limits ts line) (ht : .term t ∈ ts) : ∃ cs, t.Spelled limits cs := by
  induction h with
  | nil => exact nomatch ht
  | cons _ token _ ih =>
    rcases List.mem_cons.mp ht with rfl | ht
    · cases token with
      | term spelled => exact ⟨_, spelled⟩
    · exact ih ht

lemma exists_spelled_of_mem_group {ts : List Token} {lines : List (List Char)} {t : Term}
    (h : SpelledGroup limits ts lines) (ht : .term t ∈ ts) : ∃ cs, t.Spelled limits cs := by
  induction h with
  | last hline => exact exists_spelled_of_mem_line hline ht
  | more hline _ _ ih =>
    rcases List.mem_append.mp ht with ht | ht
    · exact exists_spelled_of_mem_line hline ht
    · exact ih ht

lemma Chain.mem_tokens {e : Chain} {t : Term} (h : t ∈ e.terms) : .term t ∈ e.tokens := by
  rcases List.mem_cons.mp h with rfl | h
  · exact .head _
  · obtain ⟨p, hp, rfl⟩ := List.mem_map.mp h
    exact .tail _ (List.mem_flatMap.mpr ⟨p, hp, .tail _ (.head _)⟩)

lemma exists_spelled_of_mem_system {es : List Chain} {lines : List (List Char)} {e : Chain}
    {t : Term} (h : SpelledSystem limits es lines) (he : e ∈ es) (ht : t ∈ e.terms) :
    ∃ cs, t.Spelled limits cs := by
  induction h with
  | nil => exact nomatch he
  | blank _ _ ih => exact ih he
  | equation _ hgroup _ ih =>
    rcases List.mem_cons.mp he with rfl | he
    · exact exists_spelled_of_mem_group hgroup (Chain.mem_tokens ht)
    · exact ih he

lemma Term.Spelled.magnitude_eq [CharZero α] {t : Term} {cs : List Char}
    (h : t.Spelled limits cs) : (t.quantity.magnitude : α) = t.quantity.coefficient := by
  have hliteral {l : Literal} {ds : List Char} (hl : l.Spelled limits ds) :
      (ofDecimal l.decimal : α) = l.exact := by
    cases hl with
    | plain number => exact ofDecimal_decimal number
    | scaled number _ => exact ofDecimal_decimal number
  obtain ⟨s, blank, quantity⟩ := h
  cases quantity with
  | constant literal => exact hliteral literal
  | name => rfl
  | multiple literal _ _ => exact hliteral literal

/-! ### Sides -/

/-- A term stands for its written coefficient on the left, and for the opposite on the right. -/
lemma Occurrence.value_eq {o : Occurrence}
    (h : (o.term.quantity.magnitude : α) = o.term.quantity.coefficient) :
    o.value = if o.right then -o.coefficient else (o.coefficient : α) := by
  rw [value, turns, coefficient, h]
  cases o.right <;> by_cases hodd : Odd o.minuses <;>
    simp [hodd, Nat.odd_add]

lemma sum_sides (os : List Occurrence) (f : Occurrence → α) :
    ((os.filter (!·.right)).map f).sum - ((os.filter (·.right)).map f).sum =
      (os.map fun o => if o.right then -f o else f o).sum := by
  induction os with
  | nil => simp
  | cons o os ih =>
    cases h : o.right <;> simp [h, ← ih] <;> ring

/-- Terms collected by their names. -/
lemma sum_collect {names : List String} (hnodup : names.Nodup) (os : List Occurrence)
    (hnames : ∀ o ∈ os, ∀ name, o.term.quantity.name? = some name → name ∈ names)
    (v : Occurrence → α) (y : String → α) :
    (os.map fun o =>
      match o.term.quantity.name? with
      | none => v o
      | some name => v o * y name).sum =
      ∑ j : Fin names.length,
        ((os.filter (·.term.quantity.name? = some names[j])).map v).sum * y names[j] +
        ((os.filter (·.term.quantity.name? = none)).map v).sum := by
  induction os with
  | nil => simp
  | cons o os ih =>
    rw [List.map_cons, List.sum_cons, ih fun o ho => hnames o (.tail _ ho)]
    cases ho : o.term.quantity.name? with
    | none => simp [ho]; ring
    | some name =>
      obtain ⟨k, hk, rfl⟩ := List.getElem_of_mem (hnames o (.head _) name ho)
      have hcell (j : Fin names.length) :
          (((o :: os).filter (·.term.quantity.name? = some names[j])).map v).sum =
            (if ⟨k, hk⟩ = j then v o else 0) +
              ((os.filter (·.term.quantity.name? = some names[j])).map v).sum := by
        have hiff : o.term.quantity.name? = some names[j] ↔ (⟨k, hk⟩ : Fin names.length) = j := by
          rw [ho, Option.some.injEq, Fin.ext_iff]
          exact hnodup.getElem_inj_iff
        rw [List.filter_cons]
        simp only [decide_eq_true_eq, hiff]
        split_ifs
        · rw [List.map_cons, List.sum_cons]
        · rw [zero_add]
      simp only [hcell, add_mul, Finset.sum_add_distrib, ite_mul, zero_mul, Finset.sum_ite_eq,
        Finset.mem_univ, if_true]
      simp [ho, add_assoc]

/-- Every term of the chain can be written down. -/
def Chain.Spelled (limits : Limits) (e : Chain) : Prop := ∀ t ∈ e.terms, ∃ cs, t.Spelled limits cs

section
variable [CharZero α] {e : Chain}

lemma Chain.Spelled.value_eq (h : e.Spelled limits) {o : Occurrence} (ho : o ∈ e.occurrences) :
    o.value = if o.right then -o.coefficient else (o.coefficient : α) := by
  obtain ⟨cs, hcs⟩ := h o.term (e.map_term_occurrences ▸ List.mem_map_of_mem ho)
  exact Occurrence.value_eq hcs.magnitude_eq

lemma Chain.Spelled.net_eq (h : e.Spelled limits) (name : String) :
    (e.net name : α) = (e.values (some name)).sum := by
  have hcomm (p : Occurrence → Bool) :
      (e.occurrences.filter p).filter (·.term.quantity.name? = some name) =
        (e.occurrences.filter (·.term.quantity.name? = some name)).filter p :=
    List.filter_comm ..
  rw [net, left, right, hcomm, hcomm, sum_sides, values]
  refine congrArg List.sum (List.map_congr_left fun o ho => ?_)
  exact (h.value_eq (List.mem_of_mem_filter ho)).symm

/-- An equation holds just if its net coefficients balance what is left of its constants. -/
lemma Chain.Spelled.holds_iff (h : e.Spelled limits) {names : List String} (hnodup : names.Nodup)
    (hnames : ∀ name ∈ e.names, name ∈ names) (y : String → α) :
    e.Holds y ↔ ∑ j : Fin names.length, e.net names[j] * y names[j] = -(e.values none).sum := by
  have hmem : ∀ o ∈ e.occurrences, ∀ name, o.term.quantity.name? = some name → name ∈ names :=
    fun o ho name hname => hnames name ((e.mem_names_iff name).mpr
      ⟨o.term, e.map_term_occurrences ▸ List.mem_map_of_mem ho, hname⟩)
  have hterms : (e.occurrences.map fun o =>
      if o.right then -o.eval y else o.eval y) = e.occurrences.map fun o =>
        match o.term.quantity.name? with
        | none => o.value
        | some name => o.value * y name := by
    refine List.map_congr_left fun o ho => ?_
    rw [h.value_eq ho, Occurrence.eval]
    cases o.term.quantity.name? <;> cases o.right <;> simp
  rw [Holds, ← sub_eq_zero, left, right, sum_sides, hterms, sum_collect hnodup _ hmem,
    eq_neg_iff_add_eq_zero]
  simp only [h.net_eq, values]

end

end Equation

/-! ### Systems -/

namespace LinearSystem

open Matrix

variable {α : Type} [Field α] [CharZero α] {limits : Limits} {s : LinearSystem α} {es : List Chain}

omit [CharZero α] in
lemma foldl_add_neg (vs : List α) (total : α) :
    vs.foldl (fun total v => total + -v) total = total - vs.sum := by
  induction vs generalizing total with
  | nil => simp
  | cons v vs ih =>
    rw [List.foldl_cons, ih, List.sum_cons]
    ring

lemma Means.get_matrix (h : s.Means es) (hspelled : ∀ e ∈ es, e.Spelled limits)
    (i : Fin es.length) (j : Fin (Chain.unknowns es).length) :
    s.matrix.get (i, j) = Chain.coefficients es i j := by
  have hname : s.names[j.val]? = some (Chain.unknowns es)[j] := by
    rw [h.names_eq]
    exact List.getElem?_eq_getElem j.isLt
  rw [Sparse.get, h.matrix_eq, List.getElem?_eq_getElem i.isLt, hname, h.matrix_fallback]
  have he : (es[i]).Spelled limits := hspelled _ (List.getElem_mem i.isLt)
  change ((es[i]).coefficient? _).getD 0 = (es[i]).net _
  rw [he.net_eq, Chain.coefficient?]
  split_ifs with hmem
  · exact List.sum_eq_foldl.symm
  · rw [(Chain.values_eq_nil_iff _ _).mpr (mt (Chain.mem_names_iff _ _).mpr hmem)]
    rfl

omit [CharZero α] in
lemma Means.get_rhs (h : s.Means es) (i : Fin es.length) :
    s.rhs.get i = -((es[i]).values none).sum := by
  rw [Sparse.get, h.rhs_eq, List.getElem?_eq_getElem i.isLt, h.rhs_fallback]
  change ((es[i]).constant?).getD 0 = _
  rw [Chain.constant?]
  split_ifs with hmem
  · exact (foldl_add_neg _ 0).trans (zero_sub _)
  · rw [(Chain.values_eq_nil_iff _ _).mpr hmem, List.sum_nil, neg_zero]
    rfl

/-- The equations hold just if the matrix takes the numbers to the right-hand side. -/
lemma Means.holds_iff (h : s.Means es) (hspelled : ∀ e ∈ es, e.Spelled limits) (y : String → α) :
    (∀ e ∈ es, e.Holds y) ↔
      (Chain.coefficients es *ᵥ fun j => y (Chain.unknowns es)[j]) =
        fun i : Fin es.length => s.rhs.get i := by
  have hnodup : (Chain.unknowns es).Nodup := nodup_eraseDups _
  have hrow (i : Fin es.length) : (es[i]).Holds y ↔
      (Chain.coefficients es *ᵥ fun j => y (Chain.unknowns es)[j]) i = s.rhs.get i := by
    have he : es[i] ∈ es := List.getElem_mem i.isLt
    rw [h.get_rhs]
    exact (hspelled _ he).holds_iff hnodup (fun name hname =>
      List.mem_eraseDups.mpr (List.mem_flatMap.mpr ⟨_, he, hname⟩)) y
  rw [funext_iff, List.forall_mem_iff_getElem]
  exact ⟨fun hall i => (hrow i).mp (hall i i.isLt), fun hall i hi => (hrow ⟨i, hi⟩).mpr (hall _)⟩

end LinearSystem

end Simultaneous
