import Mathlib
import Simultaneous.LinearSystem.Basic

/-!
Entering terms into a system.

A cell belongs to a row and a name, or to a row alone if it is one of the right-hand side. An
entry adds to one cell. It may give a name its column, but no name that has a column loses it, and
nothing is stored behind the last column.
-/

namespace Simultaneous

open Equation (Entry Quantity)
open Number (OfDecimal)

/-- The name of a variable that is multiplied. -/
def Equation.Quantity.name? : Quantity → Option String
  | .constant _ => none
  | .multiple _ name => some name

variable {α : Type}

/-- What an entry adds to its cell. Numbers without a name change sides. -/
def Equation.Entry.addend [One α] [Neg α] [OfDecimal α] (e : Entry) : α :=
  match e.quantity.name? with
  | none => -e.value
  | some _ => e.value

namespace LinearSystem

/-- What is stored for a name in a row, or for the right-hand side of it. -/
def cell? (s : LinearSystem α) (row : ℕ) : Option String → Option α
  | none => s.rhs.get? row
  | some name => s.matrix.get? (row, s.column name)

/-- What holds of a system however entries were added. -/
structure Tidy [Zero α] (s : LinearSystem α) : Prop where
  nodup : s.names.Nodup
  inside : ∀ i j, s.names.length ≤ j → s.matrix.get? (i, j) = none
  matrix_fallback : s.matrix.fallback = 0
  rhs_fallback : s.rhs.fallback = 0

variable {s : LinearSystem α} {row : ℕ} {e : Entry}

lemma tidy_empty [Zero α] : (empty : LinearSystem α).Tidy :=
  ⟨List.nodup_nil, fun _ _ _ => Sparse.get?_empty _ _, rfl, rfl⟩

lemma cell?_empty [Zero α] (row : ℕ) (name : Option String) :
    (empty : LinearSystem α).cell? row name = none := by
  cases name <;> exact Sparse.get?_empty _ _

lemma column_lt_iff {name : String} : s.column name < s.names.length ↔ name ∈ s.names :=
  List.idxOf_lt_length_iff

/-! ### Names -/

lemma eraseDups_concat (seen : List String) (name : String) :
    (seen ++ [name]).eraseDups =
      if name ∈ seen then seen.eraseDups else seen.eraseDups ++ [name] := by
  rw [List.eraseDups_append]
  by_cases hmem : name ∈ seen <;> simp [List.removeAll, List.eraseDups_cons, hmem]

lemma nodup_eraseDups (names : List String) : names.eraseDups.Nodup := by
  induction names using List.reverseRecOn with
  | nil => exact List.nodup_nil
  | append_singleton seen name ih =>
    rw [eraseDups_concat]
    split_ifs with hmem
    · exact ih
    · rw [← List.concat_eq_append]
      exact ih.concat fun h => hmem (List.mem_eraseDups.mp h)

lemma eraseDups_append_filter (xs ys : List String) :
    (xs ++ ys).eraseDups = xs.eraseDups ++ ys.eraseDups.filter (· ∉ xs.eraseDups) := by
  induction ys using List.reverseRecOn with
  | nil => simp
  | append_singleton ys y ih =>
    rw [← List.append_assoc, eraseDups_concat, eraseDups_concat, ih]
    by_cases hxs : y ∈ xs <;> by_cases hys : y ∈ ys <;> simp [hxs, hys]

lemma names_declare (name : String) :
    (s.declare name).names = if name ∈ s.names then s.names else s.names ++ [name] := by
  rw [declare]
  split_ifs <;> rfl

lemma matrix_declare (name : String) : (s.declare name).matrix = s.matrix := by
  rw [declare]
  split_ifs <;> rfl

lemma rhs_declare (name : String) : (s.declare name).rhs = s.rhs := by
  rw [declare]
  split_ifs <;> rfl

lemma mem_names_declare (name : String) : name ∈ (s.declare name).names := by
  rw [names_declare]
  split_ifs with h
  · exact h
  · simp

lemma mem_names_declare_of_mem {name other : String} (h : other ∈ s.names) :
    other ∈ (s.declare name).names := by
  rw [names_declare]
  split_ifs
  · exact h
  · exact List.mem_append_left _ h

lemma column_declare {name other : String} (h : other ∈ s.names) :
    (s.declare name).column other = s.column other := by
  rw [column, names_declare, column]
  split_ifs
  · rfl
  · exact List.idxOf_append_of_mem h

lemma equationCount_declare (name : String) :
    (s.declare name).equationCount = s.equationCount := by
  rw [declare]
  split_ifs <;> rfl

variable [Zero α]

lemma Tidy.declare (h : s.Tidy) (name : String) : (s.declare name).Tidy := by
  refine ⟨?_, ?_, by rw [matrix_declare, h.matrix_fallback], by rw [rhs_declare, h.rhs_fallback]⟩
  · rw [names_declare]
    split_ifs with hname
    · exact h.nodup
    · rw [← List.concat_eq_append]
      exact h.nodup.concat hname
  · intro i j hj
    rw [matrix_declare]
    refine h.inside i j (le_trans ?_ hj)
    rw [names_declare]
    split_ifs <;> simp

/-- A new column is empty, and the old ones stay where they are. -/
lemma cell?_declare (h : s.Tidy) (name : String) (i : ℕ) (other : Option String) :
    (s.declare name).cell? i other = s.cell? i other := by
  cases other with
  | none => rw [cell?, rhs_declare, cell?]
  | some other =>
    rw [cell?, cell?, matrix_declare]
    by_cases hname : name ∈ s.names
    · rw [declare, if_pos hname]
    by_cases hother : other ∈ s.names
    · rw [column_declare hother]
    · have hle : s.names.length ≤ (s.declare name).column other := by
        rw [column, names_declare, if_neg hname, List.idxOf_append_of_notMem hother]
        exact Nat.le_add_right _ _
      rw [h.inside i _ hle, h.inside i _ (not_lt.mp (mt column_lt_iff.mp hother))]

/-! ### Sums -/

variable [Add α]

lemma foldl_some (vs : List α) (total : α) :
    vs.foldl (fun (total : Option α) v => some (total.getD 0 + v)) (some total) =
      some (vs.foldl (· + ·) total) := by
  induction vs generalizing total with
  | nil => rfl
  | cons v vs ih => exact ih (total + v)

lemma foldl_none (vs : List α) :
    vs.foldl (fun (total : Option α) v => some (total.getD 0 + v)) none =
      if vs = [] then none else some (vs.foldl (· + ·) 0) := by
  cases vs with
  | nil => rfl
  | cons v vs => exact foldl_some vs (0 + v)

/-! ### One entry -/

variable [One α] [Neg α] [OfDecimal α]

omit [Zero α] in
lemma names_enter (row : ℕ) (e : Entry) :
    (s.enter row e).names =
      match e.quantity.name? with
      | none => s.names
      | some name => (s.declare name).names := by
  obtain ⟨negative, quantity⟩ := e
  cases quantity <;> rfl

lemma Tidy.enter (h : s.Tidy) (row : ℕ) (e : Entry) : (s.enter row e).Tidy := by
  obtain ⟨negative, quantity⟩ := e
  cases quantity with
  | constant l => exact ⟨h.nodup, h.inside, h.matrix_fallback, h.rhs_fallback⟩
  | multiple l name =>
    have hd := h.declare name
    refine ⟨hd.nodup, fun i j hj => ?_, hd.matrix_fallback, hd.rhs_fallback⟩
    have hne : ((row, (s.declare name).column name) : ℕ × ℕ) ≠ (i, j) := by
      intro heq
      have hlt := column_lt_iff.mpr (s.mem_names_declare name)
      rw [(Prod.mk.inj heq).2] at hlt
      exact absurd hj hlt.not_ge
    exact (Sparse.get?_add _ _ _ _).trans ((if_neg hne).trans (hd.inside i j hj))

lemma cell?_enter (h : s.Tidy) (row : ℕ) (e : Entry) (i : ℕ) (name : Option String) :
    (s.enter row e).cell? i name =
      if i = row ∧ e.quantity.name? = name then some ((s.cell? i name).getD 0 + e.addend)
      else s.cell? i name := by
  obtain ⟨negative, quantity⟩ := e
  cases quantity with
  | constant l =>
    cases name with
    | some other => exact (if_neg fun hn => Option.some_ne_none other hn.2.symm).symm
    | none =>
      have hadd := Sparse.get?_add s.rhs row i (-(⟨negative, .constant l⟩ : Entry).value)
      rw [Sparse.get, h.rhs_fallback] at hadd
      refine hadd.trans ?_
      by_cases hi : i = row
      · subst hi
        rw [if_pos rfl, if_pos ⟨rfl, rfl⟩]
        rfl
      · rw [if_neg (Ne.symm hi), if_neg fun hn => hi hn.1]
        rfl
  | multiple l n =>
    have hd := h.declare n
    cases name with
    | none =>
      rw [if_neg fun hn => Option.some_ne_none n hn.2]
      exact cell?_declare h n i none
    | some other =>
      have hadd := Sparse.get?_add (s.declare n).matrix (row, (s.declare n).column n)
        (i, (s.declare n).column other) (⟨negative, .multiple l n⟩ : Entry).value
      rw [Sparse.get, hd.matrix_fallback] at hadd
      refine hadd.trans ?_
      have hkey : ((row, (s.declare n).column n) : ℕ × ℕ) = (i, (s.declare n).column other) ↔
          i = row ∧ (Quantity.multiple l n).name? = some other := by
        rw [Prod.mk.injEq, eq_comm, Quantity.name?, Option.some.injEq]
        exact and_congr_right fun _ => List.idxOf_inj (s.mem_names_declare n)
      simp only [hkey, ← cell?_declare h n i (some other)]
      by_cases hin : i = row ∧ (Quantity.multiple l n).name? = some other
      · obtain ⟨rfl, hn⟩ := hin
        obtain rfl := Option.some.inj hn
        rw [if_pos ⟨rfl, rfl⟩, if_pos ⟨rfl, rfl⟩]
        rfl
      · rw [if_neg hin, if_neg hin]
        rfl

/-! ### All entries of an equation -/

variable {es : List Entry}

lemma Tidy.foldl_enter (h : s.Tidy) : (es.foldl (·.enter row ·) s).Tidy := by
  induction es generalizing s with
  | nil => exact h
  | cons e es ih => exact ih (h.enter row e)

/-- The cell sums up what is added to it, in order. -/
lemma cell?_foldl_enter (h : s.Tidy) (i : ℕ) (name : Option String) :
    (es.foldl (·.enter row ·) s).cell? i name =
      if i = row then
        ((es.filter (·.quantity.name? = name)).map Entry.addend).foldl
          (fun total v => some (total.getD 0 + v)) (s.cell? i name)
      else s.cell? i name := by
  induction es generalizing s with
  | nil => simp
  | cons e es ih =>
    rw [List.foldl_cons, ih (h.enter row e), cell?_enter h]
    by_cases hi : i = row <;> by_cases hname : e.quantity.name? = name <;> simp [hi, hname]

omit [Zero α] in
/-- New names stand behind the old ones, in the order in which they first appear. -/
lemma names_foldl_enter_append (s : LinearSystem α) (row : ℕ) (es : List Entry) :
    (es.foldl (·.enter row ·) s).names =
      s.names ++ (es.filterMap (·.quantity.name?)).eraseDups.filter (· ∉ s.names) := by
  induction es using List.reverseRecOn with
  | nil => simp
  | append_singleton es e ih =>
    rw [List.foldl_concat, names_enter]
    cases hname : e.quantity.name? with
    | none => simpa [List.filterMap_append, hname] using ih
    | some name =>
      simp only [names_declare, ih, List.filterMap_append, List.filterMap_cons, hname,
        List.filterMap_nil, eraseDups_concat]
      by_cases hold : name ∈ s.names
      · by_cases hseen : name ∈ es.filterMap (·.quantity.name?) <;> simp [hold, hseen]
      · by_cases hseen : name ∈ es.filterMap (·.quantity.name?) <;> simp [hold, hseen]

omit [Zero α] in
/-- The names stand in the order in which they first appear. -/
lemma names_foldl_enter {seen : List String} (h : s.names = seen.eraseDups) :
    (es.foldl (·.enter row ·) s).names =
      (seen ++ es.filterMap (·.quantity.name?)).eraseDups := by
  rw [names_foldl_enter_append, h, eraseDups_append_filter]

end LinearSystem

end Simultaneous
