import Mathlib
import Simultaneous.Proofs.Documents
import Simultaneous.Proofs.Lookahead

/-!
Where faults are found.

Most faults are prompt: they are found at the first character that no line can have there. What
stands before that character is the front of a line without a fault, because the token that is being
read can still be completed, and what comes after it does not help, because one character of
lookahead has told.
-/

namespace Simultaneous.Equation

open Reader
open Text (isBlank isNameChar skipBlanks)

/-- The faults that are found at the first character that cannot stand there; next is the character
at the place of the fault. A point is refused because of what follows it, and a number that is too
long may be found to be so behind its end. -/
def Fault.IsPrompt (next : Option Char) : Fault → Prop
  | multipleEqualSigns | noTerm | missingExponent | noEqualSign | noVariable => True
  | illegalEquation => next ≠ some '.'
  | noTermBeforeEqualSign | noTermAfterEqualSign | multipleDecimalPoints | tooManyDigits
  | illegalExponent => False

/-! ### Before a fault -/

section Before

variable {limits : Limits} {cs : List Char} {o : Offence}

lemma not_isPrompt_of_readRun {limit digits : ℕ} {pointed : Bool} {next : Option Char}
    (h : readRun limit digits pointed cs = .error o) : ¬o.fault.IsPrompt next := by
  induction cs generalizing digits pointed with
  | nil => cases h
  | cons c cs ih =>
    rw [readRun] at h
    split_ifs at h
    · obtain h | ⟨r, -, h⟩ := bind_eq_error.mp h
      · exact ih h
      · cases h
    · exact Except.error.inj h ▸ id
    · exact Except.error.inj h ▸ id
    · obtain h | ⟨r, -, h⟩ := bind_eq_error.mp h
      · exact ih h
      · cases h

lemma not_isPrompt_of_readMantissa {limit : ℕ} (h : readMantissa limit cs = .error o) :
    ¬o.fault.IsPrompt o.rest.head? := by
  cases hrun : readRun limit 0 false cs with
  | error o' =>
    rw [readMantissa_of_error hrun] at h
    exact Except.error.inj h ▸ not_isPrompt_of_readRun hrun
  | ok r =>
    obtain ⟨digits, rest⟩ := r
    rw [readMantissa_of_ok hrun] at h
    split_ifs at h with hlimit hpoint
    · exact Except.error.inj h ▸ id
    · obtain rfl := Except.error.inj h
      have hcs := append_of_readRun hrun
      rw [hpoint] at hcs
      exact fun hprompt => hprompt (hcs ▸ rfl)

/-- A digit can be written where an exponent is missing. -/
lemma exists_spelled_of_readExponent_error {limit : ℕ} (hlimit : 1 ≤ limit)
    (h : readExponent limit cs = .error o) (hprompt : o.fault.IsPrompt o.rest.head?) :
    ∃ text e, cs = text ++ o.rest ∧ Exponent.Spelled limit e ('^' :: text ++ ['1']) := by
  rw [readExponent_eq, sign_andThen, run_andThen, ite_apply, ite_apply] at h
  split_ifs at h with hdigits hbad
  · obtain rfl := Except.error.inj h
    have hspan := List.takeWhile_append_dropWhile (p := isRunChar) (l := (readSign cs).2)
    rw [List.isEmpty_iff.mp hdigits, List.nil_append] at hspan
    refine ⟨signText (readSign cs).1, ⟨(readSign cs).1 == some .minus, ['1']⟩, ?_,
      .mk (readSign cs).1 (fun c hc => List.mem_singleton.mp hc ▸ rfl) le_rfl hlimit⟩
    exact (eq_of_readSign rfl).trans (congrArg _ hspan.symm)
  · obtain rfl := Except.error.inj h
    exact hprompt.elim
  · exact nomatch h

/-- Where a literal has a prompt fault, the literal can be completed. -/
lemma exists_spelled_of_readLiteral_error (hlimit : 1 ≤ limits.exponentLength)
    (h : readLiteral limits cs = .error o) (hprompt : o.fault.IsPrompt o.rest.head?) :
    ∃ text more l, cs = text ++ o.rest ∧ Literal.Spelled limits l (text ++ more) := by
  rw [readLiteral_eq] at h
  obtain h | ⟨m, rest, hm, h⟩ := andThen_eq_error.mp h
  · exact absurd hprompt (not_isPrompt_of_readMantissa h)
  rw [ite_apply] at h
  split_ifs at h with hempty
  · exact nomatch h
  obtain ⟨rest, rfl, hscaled⟩ | hplain := of_ifNext_eq_error h
  · obtain he | ⟨e, after, -, hdone⟩ := andThen_eq_error.mp hscaled
    · obtain ⟨text, e, rfl, hspelled⟩ := exists_spelled_of_readExponent_error hlimit he hprompt
      have hnumber := isNumber_of_readMantissa (fun hm => hempty (List.isEmpty_iff.mpr hm)) hm
      refine ⟨m ++ '^' :: text, ['1'], ⟨m, some e⟩, ?_, ?_⟩
      · rw [← append_of_readMantissa hm, List.append_assoc, List.cons_append]
      · rw [List.append_assoc]
        exact .scaled hnumber hspelled
    · exact nomatch hdone
  · exact nomatch hplain

lemma isName_x : IsName ['x'] :=
  ⟨List.cons_ne_nil _ _, fun _ hc => List.mem_singleton.mp hc ▸ by decide +kernel⟩

/-- Where a term has a prompt fault, the term can be completed. -/
lemma exists_spelled_of_readTerm_error (hlimit : 1 ≤ limits.exponentLength)
    (h : readTerm limits cs = .error o) (hprompt : o.fault.IsPrompt o.rest.head?) :
    ∃ text more t, cs = text ++ o.rest ∧ Term.Spelled limits t (text ++ more) := by
  rw [readTerm_eq_andThen, sign_andThen, blanks_andThen] at h
  obtain ⟨bs, hbs, hblanks⟩ := exists_eq_append_skipBlanks (readSign cs).2
  have hcs : cs = signText (readSign cs).1 ++ bs ++ skipBlanks (readSign cs).2 := by
    rw [List.append_assoc, ← hblanks]
    exact eq_of_readSign rfl
  obtain h | ⟨literal, rest, hl, h⟩ := andThen_eq_error.mp h
  · obtain ⟨text, more, l, htext, hspelled⟩ := exists_spelled_of_readLiteral_error hlimit h hprompt
    refine ⟨signText (readSign cs).1 ++ bs ++ text, more, ⟨(readSign cs).1, .constant l⟩, ?_, ?_⟩
    · rw [List.append_assoc _ text, ← htext]
      exact hcs
    · rw [List.append_assoc _ text]
      exact .mk _ hbs (.constant hspelled)
  · rw [blanks_andThen, run_andThen, ite_apply] at h
    split_ifs at h with hname
    · cases literal with
      | some value => exact nomatch h
      | none =>
        obtain rfl := Except.error.inj h
        obtain rfl := (spelled_of_readLiteral hl).1 rfl
        have hspan := List.takeWhile_append_dropWhile (p := isNameChar)
          (l := skipBlanks (skipBlanks (readSign cs).2))
        rw [List.isEmpty_iff.mp hname, List.nil_append] at hspan
        refine ⟨signText (readSign cs).1 ++ bs, ['x'], ⟨(readSign cs).1, .multiple none "x"⟩, ?_,
          .mk _ hbs (.name isName_x)⟩
        exact hcs.trans (congrArg _ (hspan.trans (skipBlanks_skipBlanks _)).symm)
    · exact nomatch h

lemma takes_plus (p : Progress) :
    (Phase.operator p).Takes [.operator (.sign .plus)] [] (.term p false) :=
  .operator (fun h => absurd h Bool.false_ne_true) (.nil _)

/-- Where a step has a prompt fault, the line can be completed. -/
lemma exists_spelled_of_step_error (hlimit : 1 ≤ limits.exponentLength) {ph : Phase}
    (h : ph.step limits cs = .error o) (hprompt : o.fault.IsPrompt o.rest.head?) :
    ∃ text more ts es p, cs = text ++ o.rest ∧ SpelledLine limits ts (text ++ more) ∧
      ph.Takes ts es (.term p false) := by
  have hplus : SpelledLine limits [.operator (.sign .plus)] ['+'] :=
    (Token.Spelled.operator (.sign .plus)).line
  cases hdue : ph.due with
  | some due =>
    obtain ⟨p, minus⟩ := due
    rw [step_of_due hdue, Phase.step_term_eq] at h
    obtain ht | ⟨t, rest, -, hdone⟩ := andThen_eq_error.mp h
    · obtain ⟨text, more, t, hcs, hspelled⟩ := exists_spelled_of_readTerm_error hlimit ht hprompt
      refine ⟨text, more ++ ['+'], [.term t, .operator (.sign .plus)], _, _, hcs, ?_,
        .term hdue (takes_plus _)⟩
      rw [← List.append_assoc]
      exact (Token.Spelled.term hspelled).line.append hplus
    · exact nomatch hdone
  | none =>
    cases ph with
    | start | term _ _ => exact nomatch hdue
    | operator p =>
      have hrest : cs = o.rest := by
        simp only [Phase.step] at h
        split at h
        · exact Except.error.inj h ▸ rfl
        · split_ifs at h
          exact Except.error.inj h ▸ rfl
      exact ⟨[], ['+'], _, _, _, hrest, hplus, takes_plus p⟩

end Before

namespace Session

/-- The session reads the line without a fault. -/
def Accepts (s : Session) (line : List Char) : Prop := ∃ e, (s.read line).result = .ok e

variable {s : Session} {line : List Char} {e : ParseError}

lemma accepts_of_spelled {ts : List Token} {es : List Entry} {p : Progress} {minus : Bool}
    (hline : SpelledLine s.limits ts line) (htakes : s.phase.Takes ts es (.term p minus)) :
    s.Accepts line :=
  ⟨.continued, by simp [read, scan_of_spelled hline htakes, Phase.lineEnd, Except.mapError]⟩

lemma not_accepts_of_offence {o : Offence}
    (h : (scan s.limits s.phase line).offence = some o) : ¬s.Accepts line := by
  rintro ⟨e, he⟩
  simp [read, h] at he

/-- A line is rejected for a fault in it, or else at its end for what the equation lacks. -/
lemma offence_or_defect (h : (s.read line).result = .error e) :
    (∃ o, (scan s.limits s.phase line).offence = some o ∧ e = o.inLine line) ∨
      ∃ p, (scan s.limits s.phase line).offence = none ∧
        (scan s.limits s.phase line).phase = .operator p ∧ e.position = line.length := by
  cases hoffence : (scan s.limits s.phase line).offence with
  | some o =>
    rw [read, hoffence] at h
    exact .inl ⟨o, rfl, (Except.error.inj h).symm⟩
  | none =>
    rw [read, hoffence] at h
    cases hphase : (scan s.limits s.phase line).phase with
    | start | term _ _ =>
      rw [hphase] at h
      cases h
    | operator p =>
      refine .inr ⟨p, rfl, rfl, ?_⟩
      cases hdefect : p.defect with
      | none =>
        rw [hphase, Phase.lineEnd, hdefect] at h
        cases h
      | some f =>
        rw [hphase, Phase.lineEnd, hdefect] at h
        exact Except.error.inj h ▸ rfl

/-- What stands before a prompt fault in a line is the front of a line without a fault. -/
lemma exists_accepts_of_offence (hlimit : 1 ≤ s.limits.exponentLength) {o : Offence}
    {front : List Char} (h : (scan s.limits s.phase (front ++ o.rest)).offence = some o)
    (hprompt : o.fault.IsPrompt o.rest.head?) : ∃ more, s.Accepts (front ++ more) := by
  obtain ⟨ts, before, rest, hcs, hline, htakes, hstep⟩ :=
    exists_spelled_front s.limits s.phase (front ++ o.rest)
  rw [h] at hstep
  obtain ⟨text, more, us, es, p, rfl, hmore, htakes'⟩ :=
    exists_spelled_of_step_error hlimit hstep hprompt
  have hfront : front = before ++ text := by
    rw [← List.append_assoc] at hcs
    exact List.append_cancel_right hcs
  refine ⟨more, ?_⟩
  rw [hfront, List.append_assoc]
  exact accepts_of_spelled (hline.append hmore) (takes_append.mpr ⟨_, _, _, htakes, htakes', rfl⟩)

/-- A line that lacks something at its end goes on with an operator. -/
lemma exists_accepts_of_operator {p : Progress}
    (hnone : (scan s.limits s.phase line).offence = none)
    (hphase : (scan s.limits s.phase line).phase = .operator p) :
    ∃ more, s.Accepts (line ++ more) := by
  obtain ⟨ts, hline, htakes⟩ := exists_spelled_of_scan hnone
  rw [hphase] at htakes
  exact ⟨['+'], accepts_of_spelled (hline.append (Token.Spelled.operator (.sign .plus)).line)
    (takes_append.mpr ⟨_, _, _, htakes, takes_plus p, rfl⟩)⟩

/-- **Faults are found at the first character that cannot stand there**: what stands before the
place of a prompt fault is the front of a line that the session reads without a fault, and no such
line goes on from there with the same character. All places are in the line or at its end. -/
theorem error_position (s : Session) (hlimit : 1 ≤ s.limits.exponentLength) (line : List Char)
    (e : ParseError) (h : (s.read line).result = .error e) :
    e.position ≤ line.length ∧
      (e.fault.IsPrompt (line.drop e.position).head? →
        (∃ more, s.Accepts (line.take e.position ++ more)) ∧
          (e.position < line.length →
            ∀ more, ¬s.Accepts (line.take (e.position + 1) ++ more))) := by
  obtain ⟨o, hoffence, rfl⟩ | ⟨p, hnone, hphase, hposition⟩ := offence_or_defect h
  · obtain ⟨front, rfl, hstable⟩ := scan_offence_congr hoffence
    have hposition : (o.inLine (front ++ o.rest)).position = front.length := by
      rw [Offence.inLine, List.length_append, Nat.add_sub_cancel]
    rw [hposition, List.length_append, List.drop_left, List.take_left]
    refine ⟨Nat.le_add_right _ _, fun hprompt => ?_⟩
    refine ⟨exists_accepts_of_offence hlimit hoffence hprompt, fun hlt more => ?_⟩
    obtain ⟨c, tail, hrest⟩ := List.exists_cons_of_length_pos (Nat.lt_add_right_iff_pos.mp hlt)
    have htake : (front ++ o.rest).take (front.length + 1) ++ more = front ++ c :: more := by
      rw [hrest, List.take_length_add_append, List.append_assoc]
      rfl
    have hpoint (hfault : o.fault = .illegalEquation) : o.rest.head? ≠ some '.' := by
      have hnext : o.fault.IsPrompt o.rest.head? := hprompt
      rwa [hfault] at hnext
    -- a line that goes on with the same character has the same fault
    rw [htake]
    exact not_accepts_of_offence (hstable hpoint (c :: more) (hrest ▸ rfl))
  · rw [hposition, List.take_length]
    exact ⟨le_rfl, fun _ => ⟨exists_accepts_of_operator hnone hphase, fun hlt => (hlt.ne rfl).elim⟩⟩

/-- A number behind a name, where an operator is due. -/
theorem error_position_of_missing_operator :
    let s : Session := .fresh {}
    (s.read "x = y 3".toList).result = .error ⟨.illegalEquation, 6⟩ ∧
      (∃ more, s.Accepts ("x = y ".toList ++ more)) ∧
        ∀ more, ¬s.Accepts ("x = y 3".toList ++ more) := by
  intro s
  have hread : (s.read "x = y 3".toList).result = .error ⟨.illegalEquation, 6⟩ := by decide +kernel
  obtain ⟨-, hprompt⟩ := error_position s (by decide) "x = y 3".toList _ hread
  have hnext : Fault.IsPrompt ("x = y 3".toList.drop 6).head? .illegalEquation := by
    show some '3' ≠ some '.'
    decide
  obtain ⟨hbefore, hafter⟩ := hprompt hnext
  exact ⟨hread, hbefore, hafter (by decide)⟩

end Session

end Simultaneous.Equation
