import Mathlib
import Simultaneous.Proofs.Calls

/-!
What a line leaves alone.

The entries of a line go into the row of the equation at hand, also those before a fault. Nothing
else in the system changes, except that names that are new get the next columns and that the
equation is counted once it is complete. So nothing that is read later changes an equation that
is complete.
-/

namespace Simultaneous

open Equation
open Number (OfDecimal)

variable {α : Type}

namespace LinearSystem

/-- The later system differs from the earlier one in one row at most, and keeps its columns. -/
structure SameBut (row : ℕ) (s t : LinearSystem α) : Prop where
  matrix : ∀ i j, i ≠ row → t.matrix.get? (i, j) = s.matrix.get? (i, j)
  rhs : ∀ i, i ≠ row → t.rhs.get? i = s.rhs.get? i
  column : ∀ name ∈ s.names, name ∈ t.names ∧ t.column name = s.column name

variable {s t u : LinearSystem α} {row : ℕ}

lemma SameBut.refl (row : ℕ) (s : LinearSystem α) : SameBut row s s :=
  ⟨fun _ _ _ => rfl, fun _ _ => rfl, fun _ hname => ⟨hname, rfl⟩⟩

lemma SameBut.trans (h : SameBut row s t) (h' : SameBut row t u) : SameBut row s u where
  matrix i j hi := (h'.matrix i j hi).trans (h.matrix i j hi)
  rhs i hi := (h'.rhs i hi).trans (h.rhs i hi)
  column name hname :=
    have ⟨ht, heq⟩ := h.column name hname
    have ⟨hu, heq'⟩ := h'.column name ht
    ⟨hu, heq'.trans heq⟩

variable [One α] [Add α] [Neg α] [OfDecimal α]

lemma sameBut_enter (s : LinearSystem α) (row : ℕ) (e : Entry) : SameBut row s (s.enter row e) := by
  obtain ⟨negative, quantity⟩ := e
  cases quantity with
  | constant l =>
    refine ⟨fun _ _ _ => rfl, fun i hi => ?_, fun name hname => ⟨hname, rfl⟩⟩
    exact (Sparse.get?_add _ _ _ _).trans (if_neg (Ne.symm hi))
  | multiple l name =>
    refine ⟨fun i j hi => ?_, fun i _ => ?_, fun other hother => ?_⟩
    · have hkey : ((row, (s.declare name).column name) : ℕ × ℕ) ≠ (i, j) :=
        fun heq => hi (Prod.mk.inj heq).1.symm
      rw [← s.matrix_declare name]
      exact (Sparse.get?_add _ _ _ _).trans (if_neg hkey)
    · exact congrArg (Sparse.get? · i) (s.rhs_declare name)
    · exact ⟨mem_names_declare_of_mem hother, column_declare hother⟩

lemma sameBut_foldl_enter (s : LinearSystem α) (row : ℕ) (es : List Entry) :
    SameBut row s (es.foldl (·.enter row ·) s) := by
  induction es generalizing s with
  | nil => exact .refl row s
  | cons e es ih => exact (s.sameBut_enter row e).trans (ih _)

lemma absorb_eq (s : LinearSystem α) (row : ℕ) (r : Reading) :
    s.absorb row r =
      if r.result = .ok .complete then
        { r.entries.foldl (·.enter row ·) s with equationCount := r.session.equations }
      else r.entries.foldl (·.enter row ·) s := by
  unfold absorb
  split <;> simp_all

lemma equationCount_foldl_enter (s : LinearSystem α) (row : ℕ) (es : List Entry) :
    (es.foldl (·.enter row ·) s).equationCount = s.equationCount := by
  induction es generalizing s with
  | nil => rfl
  | cons e es ih =>
    refine (ih _).trans ?_
    obtain ⟨negative, quantity⟩ := e
    cases quantity with
    | constant l => rfl
    | multiple l name => exact equationCount_declare name

end LinearSystem

namespace Draft

variable [One α] [Add α] [Neg α] [OfDecimal α] {d : Draft α}

lemma system_feed (d : Draft α) (line : List Char) :
    (d.feed line).value.1.system = d.system.absorb d.session.equations (d.session.read line) := rfl

/-- A line leaves the rows alone that are not at hand. -/
lemma sameBut_feed (d : Draft α) (line : List Char) :
    d.system.SameBut d.session.equations (d.feed line).value.1.system := by
  have h := d.system.sameBut_foldl_enter d.session.equations (d.session.read line).entries
  rw [system_feed, LinearSystem.absorb_eq]
  split_ifs
  · exact ⟨h.matrix, h.rhs, h.column⟩
  · exact h

/-- The names that a line brings in, in reading order. -/
def newNames (d : Draft α) (line : List Char) : List String :=
  ((d.session.read line).entries.filterMap (·.quantity.name?)).eraseDups.filter
    (· ∉ d.system.names)

lemma names_feed (d : Draft α) (line : List Char) :
    (d.feed line).value.1.system.names = d.system.names ++ d.newNames line := by
  rw [system_feed, LinearSystem.absorb_eq, newNames, ← LinearSystem.names_foldl_enter_append]
  split_ifs <;> rfl

lemma column_feed_newNames {line : List Char} {k : ℕ} {name : String}
    (h : (d.newNames line)[k]? = some name) :
    (d.feed line).value.1.system.column name = d.system.variableCount + k := by
  obtain ⟨hk, rfl⟩ := List.getElem?_eq_some_iff.mp h
  have hnew := (List.mem_filter.mp (List.getElem_mem hk)).2
  have hnodup : (d.newNames line).Nodup := (LinearSystem.nodup_eraseDups _).filter _
  rw [LinearSystem.column, names_feed, List.idxOf_append_of_notMem (of_decide_eq_true hnew),
    hnodup.idxOf_getElem]
  rfl

lemma equationCount_feed (d : Draft α) (line : List Char) :
    (d.feed line).value.1.system.equationCount =
      if (d.session.read line).result = .ok .complete then d.session.equations + 1
      else d.system.equationCount := by
  rw [system_feed, LinearSystem.absorb_eq]
  split_ifs with hcomplete
  · exact (Session.equations_read _ _).trans (if_pos hcomplete)
  · exact LinearSystem.equationCount_foldl_enter _ _ _

/-- Calls leave the rows alone that are above the one at hand. -/
lemma sameAbove_after {calls : List Call} (hreset : Call.reset ∉ calls) {i : ℕ}
    (hi : i < d.session.equations) :
    (∀ j, (d.after calls).system.matrix.get? (i, j) = d.system.matrix.get? (i, j)) ∧
      (d.after calls).system.rhs.get? i = d.system.rhs.get? i := by
  induction calls generalizing d with
  | nil => exact ⟨fun _ => rfl, rfl⟩
  | cons c calls ih =>
    obtain ⟨hc, hcalls⟩ := List.ne_and_not_mem_of_not_mem_cons hreset
    have hle := d.session.equations_le_call (Ne.symm hc)
    rw [← session_call] at hle
    obtain ⟨hmatrix, hrhs⟩ := ih hcalls (hi.trans_le hle)
    have hsame : d.system.SameBut d.session.equations (d.call c).system := by
      cases c with
      | parse line => exact d.sameBut_feed line
      | finish => exact .refl _ _
      | reset => exact .refl _ _
    exact ⟨fun j => (hmatrix j).trans (hsame.matrix i j hi.ne), hrhs.trans (hsame.rhs i hi.ne)⟩

/-- **A line touches the equation at hand only**, with or without a fault, and wherever the session
and the system stand. Later lines change nothing in the rows above. -/
theorem feed_touches_row (d : Draft α) (line : List Char) :
    let row := d.session.equations
    let d' := (d.feed line).value.1
    (∀ i j, i ≠ row → d'.system.matrix.get? (i, j) = d.system.matrix.get? (i, j)) ∧
      (∀ i, i ≠ row → d'.system.rhs.get? i = d.system.rhs.get? i) ∧
      (∀ name ∈ d.system.names, d'.system.column name = d.system.column name) ∧
      d'.system.names = d.system.names ++ d.newNames line ∧
      (∀ k name, (d.newNames line)[k]? = some name →
        d'.system.column name = d.system.variableCount + k) ∧
      ((d.feed line).value.2 = .ok .complete ∧
          d'.session.equations = row + 1 ∧ d'.system.equationCount = row + 1 ∨
        (d.feed line).value.2 ≠ .ok .complete ∧
          d'.session.equations = row ∧ d'.system.equationCount = d.system.equationCount) ∧
      ∀ calls, Call.reset ∉ calls → ∀ i < d'.session.equations,
        (∀ j, (d'.after calls).system.matrix.get? (i, j) = d'.system.matrix.get? (i, j)) ∧
          (d'.after calls).system.rhs.get? i = d'.system.rhs.get? i := by
  intro row d'
  have hsame := d.sameBut_feed line
  refine ⟨hsame.matrix, hsame.rhs, fun name hname => (hsame.column name hname).2,
    d.names_feed line, fun _ _ => column_feed_newNames, ?_,
    fun calls hreset i hi => sameAbove_after hreset hi⟩
  have hrow := d.session.equations_read line
  have hcount := d.equationCount_feed line
  by_cases hcomplete : (d.session.read line).result = .ok .complete
  · rw [if_pos hcomplete] at hrow hcount
    exact .inl ⟨hcomplete, hrow, hcount⟩
  · rw [if_neg hcomplete] at hrow hcount
    exact .inr ⟨hcomplete, hrow, hcount⟩

end Draft

end Simultaneous
