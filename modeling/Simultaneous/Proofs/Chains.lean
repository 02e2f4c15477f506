import Mathlib
import Simultaneous.Proofs.Lines

/-!
Chains as taken by a session.

The tokens of an equation lead from the start to a phase where nothing is lacking, and all tokens
that do so are those of an equation. The entries they make are its terms where they stand.
-/

namespace Simultaneous.Equation

/-- The term as it counts on the left of its equation. -/
def Occurrence.entry (o : Occurrence) : Entry := ⟨decide (Odd o.turns), o.term.quantity⟩

lemma Occurrence.entry_negative (o : Occurrence) :
    o.entry.negative =
      (o.right ^^ o.operator.any Operator.isMinus ^^ o.term.sign == some .minus) := by
  rw [Occurrence.entry, Occurrence.turns, Occurrence.minuses]
  cases o.right <;> cases o.operator.any Operator.isMinus <;>
    cases o.term.sign == some .minus <;> rfl

/-! ### Progress behind a term -/

/-- The progress of an equation behind one of its terms. -/
def Progress.settled (right named : Bool) : Progress :=
  ⟨if right then .right true else .left, named⟩

lemma isRight_addOperator (p : Progress) (o : Operator) :
    (p.addOperator o).isRight = (p.isRight || o.isEquals) := by
  obtain ⟨side, named⟩ := p
  cases h : o.isEquals <;> cases side <;> simp [Progress.addOperator, Progress.isRight, h]

lemma isRight_settled (right named : Bool) : (Progress.settled right named).isRight = right := by
  cases right <;> rfl

lemma start_addTerm (t : Term) :
    Progress.start.addTerm t = .settled false t.quantity.isMultiple := by
  simp [Progress.start, Progress.addTerm, Progress.settled]

lemma settled_addOperator_addTerm (right named : Bool) (o : Operator) (t : Term) :
    ((Progress.settled right named).addOperator o).addTerm t =
      .settled (right || o.isEquals) (named || t.quantity.isMultiple) := by
  cases right <;> cases h : o.isEquals <;>
    simp [Progress.settled, Progress.addOperator, Progress.addTerm, h]

lemma defect_settled_eq_none_iff (right named : Bool) :
    (Progress.settled right named).defect = none ↔ right = true ∧ named = true := by
  cases right <;> cases named <;> simp [Progress.settled, Progress.defect]

/-! ### Chains taken -/

namespace Chain

/-- The progress of an equation behind the last term of a chain. -/
def progress (e : Chain) : Progress :=
  .settled (e.operators.any Operator.isEquals) (e.terms.any (·.quantity.isMultiple))

lemma entry_occurrence (right named : Bool) (o : Operator) (t : Term) :
    Entry.ofTerm ((Progress.settled right named).addOperator o) o.isMinus t =
      Occurrence.entry ⟨right || o.isEquals, some o, t⟩ := by
  rw [Entry.ofTerm, isRight_addOperator, isRight_settled]
  exact congrArg₂ Entry.mk (Occurrence.entry_negative ⟨_, some o, t⟩).symm rfl

/-- Operators and terms in turn can be taken just if no second equal sign is among them. -/
lemma takes_rest_iff {right named : Bool} {rest : List (Operator × Term)} {es : List Entry}
    {next : Phase} :
    (Phase.operator (.settled right named)).Takes
        (rest.flatMap fun p => [.operator p.1, .term p.2]) es next ↔
      right.toNat + (rest.map Prod.fst).countP Operator.isEquals ≤ 1 ∧
        es = (occurrencesAfter right rest).map Occurrence.entry ∧
        next = .operator (.settled (right || (rest.map Prod.fst).any Operator.isEquals)
          (named || (rest.map Prod.snd).any (·.quantity.isMultiple))) := by
  induction rest generalizing right named es with
  | nil =>
    refine ⟨fun h => ?_, ?_⟩
    · cases h
      simp [occurrencesAfter, Bool.toNat_le]
    · rintro ⟨-, rfl, rfl⟩
      simpa [occurrencesAfter] using Phase.Takes.nil _
  | cons link rest ih =>
    obtain ⟨o, t⟩ := link
    have hnext := settled_addOperator_addTerm right named o t
    have hcount : right.toNat + ((o :: rest.map Prod.fst).countP Operator.isEquals) ≤ 1 ↔
        (o.isEquals = true → right = false) ∧
          (right || o.isEquals).toNat + (rest.map Prod.fst).countP Operator.isEquals ≤ 1 := by
      rw [List.countP_cons]
      cases right <;> cases o.isEquals <;> simp
    simp only [List.flatMap_cons, List.cons_append, List.nil_append, List.map_cons, hcount,
      occurrencesAfter, List.any_cons, ← Bool.or_assoc]
    refine ⟨fun h => ?_, ?_⟩
    · cases h with
      | operator first more =>
      cases more with
      | term due more =>
      obtain ⟨rfl, rfl⟩ := Prod.mk.inj (Option.some.inj due)
      rw [hnext, ih] at more
      obtain ⟨hle, rfl, rfl⟩ := more
      rw [isRight_settled] at first
      exact ⟨⟨first, hle⟩, by rw [entry_occurrence], rfl⟩
    · rintro ⟨⟨first, hle⟩, rfl, rfl⟩
      rw [← entry_occurrence right named]
      refine .operator (by rwa [isRight_settled]) (.term rfl ?_)
      rw [hnext, ih]
      exact ⟨hle, rfl, rfl⟩

lemma takes_tokens_iff {e : Chain} {es : List Entry} {next : Phase} :
    Phase.start.Takes e.tokens es next ↔
      e.operators.countP Operator.isEquals ≤ 1 ∧ es = e.occurrences.map Occurrence.entry ∧
        next = .operator e.progress := by
  have hfirst : Entry.ofTerm .start false e.first =
      Occurrence.entry ⟨false, none, e.first⟩ :=
    congrArg₂ Entry.mk (Occurrence.entry_negative ⟨false, none, e.first⟩).symm rfl
  refine ⟨fun h => ?_, ?_⟩
  · cases h with
    | term due more =>
    obtain ⟨rfl, rfl⟩ := Prod.mk.inj (Option.some.inj due)
    rw [start_addTerm, takes_rest_iff] at more
    obtain ⟨hle, rfl, rfl⟩ := more
    refine ⟨by simpa [operators] using hle, ?_, ?_⟩
    · rw [hfirst]
      rfl
    · simp [progress, operators, terms]
  · rintro ⟨hle, rfl, rfl⟩
    rw [tokens, occurrences, List.map_cons, ← hfirst]
    refine .term rfl ?_
    rw [start_addTerm, takes_rest_iff]
    exact ⟨by simpa [operators] using hle, rfl, by simp [progress, operators, terms]⟩

/-- Tokens that lead from the start to behind a term are those of a chain. -/
lemma exists_tokens_eq {ph : Phase} {ts : List Token} {es : List Entry} {p : Progress}
    (h : ph.Takes ts es (.operator p)) :
    (ph.due.isSome = true → ∃ e : Chain, ts = e.tokens) ∧
      (ph.due = none → ∃ rest : List (Operator × Term),
        ts = rest.flatMap fun p => [.operator p.1, .term p.2]) := by
  generalize hnext : Phase.operator p = next at h
  induction h with
  | nil ph =>
    subst hnext
    exact ⟨fun hdue => (nomatch hdue), fun _ => ⟨[], rfl⟩⟩
  | term due _ ih =>
    obtain ⟨rest, rfl⟩ := (ih hnext).2 rfl
    exact ⟨fun _ => ⟨⟨_, rest⟩, rfl⟩, fun hdue => nomatch due.symm.trans hdue⟩
  | operator _ _ ih =>
    obtain ⟨e, rfl⟩ := (ih hnext).1 rfl
    exact ⟨fun hdue => (nomatch hdue), fun _ => ⟨(_, e.first) :: e.rest, rfl⟩⟩

lemma isEquation_iff {e : Chain} :
    e.IsEquation ↔ e.operators.countP Operator.isEquals ≤ 1 ∧ e.progress.defect = none := by
  have hany : e.operators.any Operator.isEquals = true ↔
      0 < e.operators.countP Operator.isEquals := by
    rw [List.any_eq_true, List.countP_pos_iff]
  rw [progress, defect_settled_eq_none_iff, hany, List.any_eq_true]
  refine ⟨fun h => ⟨h.equals.le, h.equals ▸ Nat.one_pos, h.named⟩, ?_⟩
  rintro ⟨hle, hpos, hnamed⟩
  exact ⟨Nat.le_antisymm hle hpos, hnamed⟩

lemma takes_of_isEquation {e : Chain} (h : e.IsEquation) :
    Phase.start.Takes e.tokens (e.occurrences.map Occurrence.entry) (.operator e.progress) ∧
      e.progress.defect = none := by
  obtain ⟨hle, hdefect⟩ := isEquation_iff.mp h
  exact ⟨takes_tokens_iff.mpr ⟨hle, rfl, rfl⟩, hdefect⟩

lemma exists_isEquation {ts : List Token} {es : List Entry} {p : Progress}
    (h : Phase.start.Takes ts es (.operator p)) (hdefect : p.defect = none) :
    ∃ e : Chain, ts = e.tokens ∧ e.IsEquation := by
  obtain ⟨e, rfl⟩ := (exists_tokens_eq h).1 rfl
  obtain ⟨hle, -, hnext⟩ := takes_tokens_iff.mp h
  obtain rfl := Phase.operator.inj hnext
  exact ⟨e, rfl, isEquation_iff.mpr ⟨hle, hdefect⟩⟩

end Chain

end Simultaneous.Equation
