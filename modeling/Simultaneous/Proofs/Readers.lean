import Mathlib
import Simultaneous.Proofs.Lines

/-!
Readers as sequences of smaller ones.

What holds of a reader because it holds of the readers in it is proved along the way in which it is
put together: one reader after another, with a choice now and then by the next character. Only the
run of digits and points reads character by character.
-/

namespace Simultaneous.Equation

open Text (isBlank isNameChar skipBlanks)

variable {β γ : Type}

namespace Reader

/-- Takes nothing. -/
def done (b : β) : Reader β := fun cs => .ok (b, cs)

/-- Finds a fault at the front of the line. -/
def fault (f : Fault) : Reader β := fun cs => .error ⟨f, cs⟩

/-- One reader after another. -/
def andThen (R : Reader β) (K : β → Reader γ) : Reader γ := fun cs => R cs >>= fun r => K r.1 r.2

/-- Goes on as `R` if the next character is this one, and otherwise as `S`. -/
def ifAt (c : Char) (R S : Reader β) : Reader β := fun cs =>
  if cs.head? = some c then R cs else S cs

/-- Takes the next character and goes on as `R` if it is this one, and otherwise goes on as `S`. -/
def ifNext (c : Char) (R S : Reader β) : Reader β := ifAt c (fun cs => R cs.tail) S

/-- Goes on as `R` at the end of the line, and otherwise as `S`. -/
def ifEnd (R S : Reader β) : Reader β := fun cs => if cs = [] then R cs else S cs

/-- Takes a run of characters of one kind. -/
def run (p : Char → Bool) : Reader (List Char) := fun cs => .ok (cs.takeWhile p, cs.dropWhile p)

def blanks : Reader Unit := fun cs => .ok ((), skipBlanks cs)

def sign : Reader (Option Sign) := fun cs => .ok (readSign cs)

variable {R : Reader β} {K : β → Reader γ} {cs rest : List Char}

lemma andThen_of_ok {b : β} (h : R cs = .ok (b, rest)) : R.andThen K cs = K b rest := by
  rw [andThen, h]
  rfl

lemma andThen_of_error {o : Offence} (h : R cs = .error o) : R.andThen K cs = .error o := by
  rw [andThen, h]
  rfl

lemma andThen_eq_error {o : Offence} :
    R.andThen K cs = .error o ↔
      R cs = .error o ∨ ∃ b rest, R cs = .ok (b, rest) ∧ K b rest = .error o := by
  rw [andThen, bind_eq_error, Prod.exists]

lemma of_ifNext_eq_error {c : Char} {S : Reader β} {o : Offence}
    (h : ifNext c R S cs = .error o) :
    (∃ rest, cs = c :: rest ∧ R rest = .error o) ∨ S cs = .error o := by
  rw [ifNext, ifAt] at h
  split_ifs at h with hc
  · obtain ⟨rest, rfl⟩ := List.head?_eq_some_iff.mp hc
    exact .inl ⟨rest, rfl, h⟩
  · exact .inr h

lemma blanks_andThen {K : Unit → Reader γ} : blanks.andThen K cs = K () (skipBlanks cs) :=
  rfl

lemma sign_andThen {K : Option Sign → Reader γ} :
    sign.andThen K cs = K (readSign cs).1 (readSign cs).2 :=
  rfl

lemma run_andThen {p : Char → Bool} {K : List Char → Reader γ} :
    (run p).andThen K cs = K (cs.takeWhile p) (cs.dropWhile p) :=
  rfl

lemma ifAt_of_forall {c : Char} (R S : Reader β) (h : ∀ rest, cs = c :: rest → False) :
    ifAt c R S cs = S cs :=
  if_neg fun hhead => (List.head?_eq_some_iff.mp hhead).elim h

end Reader

open Reader

lemma readSign_of_stops {cs : List Char} (h : Stops isSignChar cs) : readSign cs = (none, cs) :=
  readSign_append none fun _ => h

/-- What is read, or the fault that is found, with what is left of the line there. -/
def answer : Except Fault β → List Char → Except Offence (β × List Char)
  | .ok b, rest => .ok (b, rest)
  | .error f, rest => .error ⟨f, rest⟩

/-- The next character of a run is taken, or it tells what the answer is. -/
lemma readRun_cons (limit digits : ℕ) (pointed : Bool) (c : Char) :
    (∃ digits' pointed', ∀ cs, readRun limit digits pointed (c :: cs) =
      (readRun limit digits' pointed').andThen (fun run => done (c :: run)) cs) ∨
      ∃ out, ∀ cs, readRun limit digits pointed (c :: cs) = answer out (c :: cs) := by
  by_cases hdigit : c.isDigit = true
  · by_cases hlimit : digits < limit
    · refine .inl ⟨digits + 1, pointed, fun cs => ?_⟩
      rw [readRun, if_pos hdigit, if_pos hlimit]
      rfl
    · refine .inr ⟨.error .tooManyDigits, fun cs => ?_⟩
      rw [readRun, if_pos hdigit, if_neg hlimit]
      rfl
  by_cases hpoint : c = '.'
  · cases pointed with
    | true =>
      refine .inr ⟨.error .multipleDecimalPoints, fun cs => ?_⟩
      rw [readRun, if_neg hdigit, if_pos hpoint]
      rfl
    | false =>
      refine .inl ⟨digits, true, fun cs => ?_⟩
      rw [readRun, if_neg hdigit, if_pos hpoint]
      rfl
  · refine .inr ⟨.ok [], fun cs => ?_⟩
    rw [readRun, if_neg hdigit, if_neg hpoint]
    rfl

lemma readMantissa_of_error {limit : ℕ} {cs : List Char} {o : Offence}
    (h : readRun limit 0 false cs = .error o) : readMantissa limit cs = .error o := by
  rw [readMantissa, h]
  rfl

/-- A point alone is a fault at the front of the line, where the run starts. -/
lemma readMantissa_of_ok {limit : ℕ} {cs digits rest : List Char}
    (h : readRun limit 0 false cs = .ok (digits, rest)) :
    readMantissa limit cs =
      if limit < digits.length then .error ⟨.tooManyDigits, rest⟩
      else if digits = ['.'] then .error ⟨.illegalEquation, cs⟩
      else .ok (digits, rest) := by
  rw [readMantissa, h]
  rfl

lemma readExponent_eq (limit : ℕ) :
    readExponent limit = sign.andThen fun s => (run isRunChar).andThen fun digits =>
      if digits.isEmpty then fault .missingExponent
      else if limit < digits.length || digits.contains '.' then fault .illegalExponent
      else done ⟨s == some .minus, digits⟩ := by
  funext cs
  rw [andThen_of_ok rfl, andThen_of_ok rfl, ite_apply, ite_apply]
  rfl

lemma readLiteral_eq (limits : Limits) :
    readLiteral limits = (readMantissa limits.numberLength).andThen fun mantissa =>
      if mantissa.isEmpty then done none
      else ifNext '^'
        ((readExponent limits.exponentLength).andThen fun e => done (some ⟨mantissa, some e⟩))
        (done (some ⟨mantissa, none⟩)) := by
  funext cs
  refine congrArg (readMantissa limits.numberLength cs >>= ·) (funext fun r => ?_)
  obtain ⟨mantissa, rest⟩ := r
  dsimp only
  split_ifs
  · rfl
  · split
    · rfl
    · next hnext =>
      rw [ifNext, ifAt_of_forall _ _ hnext]
      rfl

lemma readTerm_eq_andThen (limits : Limits) :
    readTerm limits = sign.andThen fun s => blanks.andThen fun _ =>
      (readLiteral limits).andThen fun literal => blanks.andThen fun _ =>
        (run isNameChar).andThen fun name =>
          if name.isEmpty then
            literal.elim (fault .noTerm) fun value => done ⟨s, .constant value⟩
          else done ⟨s, .multiple literal (String.ofList name)⟩ := by
  funext cs
  rw [sign_andThen, blanks_andThen]
  refine congrArg (readLiteral limits (skipBlanks (readSign cs).2) >>= ·) (funext fun r => ?_)
  obtain ⟨literal, rest⟩ := r
  dsimp only
  rw [blanks_andThen, run_andThen, ite_apply]
  split_ifs with hname
  · have hspan := List.takeWhile_append_dropWhile (p := isNameChar) (l := skipBlanks rest)
    rw [List.isEmpty_iff.mp hname, List.nil_append] at hspan
    rw [hspan]
    cases literal <;> rfl
  · rfl

lemma Phase.step_term_eq (limits : Limits) (p : Progress) (minus : Bool) :
    Phase.step.term limits p minus = (readTerm limits).andThen fun t =>
      done (some (.ofTerm p minus t), .operator (p.addTerm t)) :=
  rfl

lemma Phase.step_operator_eq (limits : Limits) (p : Progress) :
    Phase.step limits (.operator p) =
      (if p.isRight then ifAt '=' (fault .multipleEqualSigns)
        else ifNext '=' (sign.andThen fun s =>
          done (none, .term (p.addOperator (.equals s)) (Operator.equals s).isMinus)))
        (sign.andThen fun s => s.elim (fault .illegalEquation) fun s =>
          done (none, .term (p.addOperator (.sign s)) (Operator.sign s).isMinus)) := by
  funext cs
  rw [Phase.step]
  unfold readOperator
  split
  · next h =>
    split at h
    · cases h
    · cases h
    · cases h
    · next hequals hplus hminus =>
      have hsign : readSign cs = (none, cs) := by
        rw [readSign]
        · exact hplus
        · exact hminus
      cases p.isRight
      · rw [if_neg Bool.false_ne_true, ifNext, ifAt_of_forall _ _ hequals, sign_andThen, hsign]
        rfl
      · rw [if_pos rfl, ifAt_of_forall _ _ hequals, sign_andThen, hsign]
        rfl
  · next h =>
    split at h
    · obtain ⟨rfl, rfl⟩ := Prod.mk.inj (Option.some.inj h)
      cases p.isRight <;> rfl
    · obtain ⟨rfl, rfl⟩ := Prod.mk.inj (Option.some.inj h)
      cases p.isRight <;> rfl
    · obtain ⟨rfl, rfl⟩ := Prod.mk.inj (Option.some.inj h)
      cases p.isRight <;> rfl
    · cases h

/-- The scan of a line, which takes all of it. -/
def scanAll (limits : Limits) (ph : Phase) : Reader (List Entry × Phase) := fun cs =>
  match (scan limits ph cs).offence with
  | none => .ok (((scan limits ph cs).entries, (scan limits ph cs).phase), [])
  | some o => .error o

lemma scanAll_eq (limits : Limits) (ph : Phase) :
    scanAll limits ph = blanks.andThen fun _ => ifEnd (done ([], ph))
      ((ph.step limits).andThen fun r => (scanAll limits r.2).andThen fun s =>
        done (r.1.toList ++ s.1, s.2)) := by
  funext cs
  rw [blanks_andThen, ifEnd, scanAll]
  split_ifs with hne
  · rw [scan_of_blank hne, hne]
    rfl
  · cases hs : ph.step limits (skipBlanks cs) with
    | error o => rw [scan_of_error hne hs, andThen_of_error hs]
    | ok r =>
      obtain ⟨⟨entry, next⟩, rest⟩ := r
      rw [scan_of_ok hne hs, andThen_of_ok hs]
      dsimp only
      cases hscan : (scan limits next rest).offence with
      | none =>
        have hnext : scanAll limits next rest =
            .ok (((scan limits next rest).entries, (scan limits next rest).phase), []) := by
          rw [scanAll, hscan]
        rw [andThen_of_ok hnext]
        rfl
      | some o =>
        have hnext : scanAll limits next rest = .error o := by rw [scanAll, hscan]
        rw [andThen_of_error hnext]

end Simultaneous.Equation
