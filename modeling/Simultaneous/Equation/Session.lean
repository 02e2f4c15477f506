import Simultaneous.Equation.Term

/-!
Reading a system of equations line by line.

A session remembers between two lines how far the equation at hand has come: an equation whose
line ends in an operator goes on in the next line that is not blank, and an equation whose line
ends in a term is complete. What a line contributes are its terms, each with the sign it has once
it stands to the left of the equal sign.

The first fault ends the reading of a line. What was read before it counts, and the session stays
as it was at that place.
-/

namespace Simultaneous.Equation

open Text (skipBlanks)

inductive Side where
  | left
  /-- Right of the equal sign; `filled` if a term stands there. -/
  | right (filled : Bool)
  deriving DecidableEq, Repr

/-- How far an equation has come. -/
structure Progress where
  side : Side
  /-- A term of it has a name. -/
  named : Bool
  deriving DecidableEq, Repr

namespace Progress

def start : Progress := ⟨.left, false⟩

def isRight (p : Progress) : Bool :=
  match p.side with
  | .left => false
  | .right _ => true

def addTerm (p : Progress) (t : Term) : Progress where
  side := match p.side with
    | .left => .left
    | .right _ => .right true
  named := p.named || t.quantity.isMultiple

def addOperator (p : Progress) (o : Operator) : Progress :=
  if o.isEquals then { p with side := .right false } else p

/-- What an equation that ends in a term lacks. -/
def defect (p : Progress) : Option Fault :=
  match p.side with
  | .left => some .noEqualSign
  | .right false => some .noTermAfterEqualSign
  | .right true => if p.named then none else some .noVariable

end Progress

/-- What is due next. -/
inductive Phase where
  /-- The first term of an equation. -/
  | start
  /-- The term after an operator, whose sign it turns if that was a minus. -/
  | term (progress : Progress) (minus : Bool)
  /-- An operator, or the end of the equation. -/
  | operator (progress : Progress)
  deriving DecidableEq, Repr

/-- A term as it counts on the left of its equation. -/
structure Entry where
  negative : Bool
  quantity : Quantity
  deriving DecidableEq, Repr

/-- An odd number of minus signs, the step across the equal sign counted as one, turns a term. -/
def Entry.ofTerm (p : Progress) (minus : Bool) (t : Term) : Entry :=
  ⟨p.isRight ^^ minus ^^ t.sign == some .minus, t.quantity⟩

/-- One token off the front of a line that does not start with white space: the entry it makes,
if it is a term, and what is due after it. -/
def Phase.step (limits : Limits) (phase : Phase) : Reader (Option Entry × Phase) := fun cs =>
  match phase with
  | start => term .start false cs
  | .term progress minus => term progress minus cs
  | operator progress =>
    match readOperator cs with
    | none => .error ⟨.illegalEquation, cs⟩
    | some (o, rest) =>
      if o.isEquals && progress.isRight then .error ⟨.multipleEqualSigns, cs⟩
      else .ok ((none, .term (progress.addOperator o) o.isMinus), rest)
where
  term (progress : Progress) (minus : Bool) : Reader (Option Entry × Phase) := fun cs => do
    let (t, rest) ← readTerm limits cs
    return ((some (.ofTerm progress minus t), .operator (progress.addTerm t)), rest)

theorem Phase.suffix_of_step {limits : Limits} {phase next : Phase} {entry : Option Entry}
    {cs rest : List Char} (h : phase.step limits cs = .ok ((entry, next), rest)) :
    rest <:+ cs ∧ rest.length < cs.length := by
  have hterm {p : Progress} {minus : Bool}
      (h : step.term limits p minus cs = .ok ((entry, next), rest)) :
      rest <:+ cs ∧ rest.length < cs.length := by
    unfold step.term at h
    cases ht : readTerm limits cs with
    | error o => simp [ht, bind, Except.bind] at h
    | ok r =>
      simp only [ht, bind, Except.bind, pure, Except.pure, Except.ok.injEq, Prod.mk.injEq] at h
      exact h.2 ▸ suffix_of_readTerm (t := r.1) ht
  unfold step at h
  split at h
  · exact hterm h
  · exact hterm h
  · split at h
    · simp at h
    · next ho =>
      split at h
      · simp at h
      · simp only [Except.ok.injEq, Prod.mk.injEq] at h
        exact h.2 ▸ suffix_of_readOperator ho

/-- What the tokens of a line come to. -/
structure Scan where
  entries : List Entry
  phase : Phase
  offence : Option Offence
  deriving DecidableEq, Repr

/-- Reads tokens until the line ends or a fault is found. -/
def scan (limits : Limits) (phase : Phase) (cs : List Char) : Scan :=
  match hs : skipBlanks cs with
  | [] => ⟨[], phase, none⟩
  | c :: tail =>
    match h : phase.step limits (c :: tail) with
    | .error offence => ⟨[], phase, some offence⟩
    | .ok ((entry, next), rest) =>
      have : rest.length < cs.length :=
        Nat.lt_of_lt_of_le (Phase.suffix_of_step h).2 (hs ▸ Text.length_skipBlanks_le cs)
      let s := scan limits next rest
      { s with entries := entry.toList ++ s.entries }
termination_by cs.length

theorem scan_of_blank {limits : Limits} {phase : Phase} {cs : List Char}
    (h : skipBlanks cs = []) : scan limits phase cs = ⟨[], phase, none⟩ := by
  rw [scan]
  split
  · rfl
  · simp_all

theorem scan_of_error {limits : Limits} {phase : Phase} {cs : List Char} {o : Offence}
    (hne : skipBlanks cs ≠ []) (h : phase.step limits (skipBlanks cs) = .error o) :
    scan limits phase cs = ⟨[], phase, some o⟩ := by
  rw [scan]
  split
  · contradiction
  · next hs =>
    rw [hs] at h
    split <;> simp_all

theorem scan_of_ok {limits : Limits} {phase next : Phase} {cs rest : List Char}
    {entry : Option Entry} (hne : skipBlanks cs ≠ [])
    (h : phase.step limits (skipBlanks cs) = .ok ((entry, next), rest)) :
    scan limits phase cs =
      { scan limits next rest with
        entries := entry.toList ++ (scan limits next rest).entries } := by
  rw [scan]
  split
  · contradiction
  · next hs =>
    rw [hs] at h
    split <;> simp_all

/-- How a line without a fault ends. -/
inductive LineEnd where
  /-- Nothing to read, and no equation at hand. -/
  | blank
  /-- The equation at hand goes on. -/
  | continued
  /-- The equation at hand is complete. -/
  | complete
  deriving DecidableEq, Repr

def LineEnd.status : LineEnd → Status
  | blank => .noEquation
  | continued | complete => .success

/-- How a line ends at which the given phase is reached. -/
def Phase.lineEnd : Phase → Except Fault LineEnd
  | start => .ok .blank
  | term _ _ => .ok .continued
  | operator progress =>
    match progress.defect with
    | none => .ok .complete
    | some fault => .error fault

structure Session where
  limits : Limits
  phase : Phase := .start
  /-- The number of complete equations, which is the row of the equation at hand. -/
  equations : Nat := 0
  /-- How the last line, or the end of the input, was taken. -/
  status : Status := .success
  /-- Where the last reading found a fault, 0 if it found none. -/
  errorPosition : Nat := 0
  /-- The length of the last line. -/
  lineLength : Nat := 0
  deriving DecidableEq, Repr

/-- What reading a line comes to. -/
structure Reading where
  entries : List Entry
  session : Session
  result : Except ParseError LineEnd

namespace Session

/-- A session that has read nothing. -/
def fresh (limits : Limits) : Session := { limits }

/-- Starts over under the same limits. -/
def reset (s : Session) : Session := fresh s.limits

def note (s : Session) : Except ParseError Status → Session
  | .ok status => { s with status, errorPosition := 0 }
  | .error e => { s with status := .fault e.fault, errorPosition := e.position }

/-- Stands at the given phase after a line; a complete equation makes room for the next. -/
def advance (s : Session) (phase : Phase) : Except ParseError LineEnd → Session
  | .ok .complete => { s with phase := .start, equations := s.equations + 1 }
  | _ => { s with phase }

def read (s : Session) (line : List Char) : Reading :=
  let scanned := scan s.limits s.phase line
  let result : Except ParseError LineEnd :=
    match scanned.offence with
    | some offence => .error (offence.inLine line)
    | none => scanned.phase.lineEnd.mapError (⟨·, line.length⟩)
  let after := { s with lineLength := line.length }.advance scanned.phase result
  { entries := scanned.entries
    session := after.note (result.map LineEnd.status)
    result }

/-- The end of the input. An equation that stops after an operator is a fault: what it lacks so
far, or else the term that was due. -/
def finish (s : Session) : Session × Except ParseError Unit :=
  let result : Except ParseError Unit :=
    match s.phase with
    | .term progress _ => .error ⟨progress.defect.getD .noTerm, s.lineLength⟩
    | _ => .ok ()
  (s.note (result.map fun _ => .success), result)

end Session

end Simultaneous.Equation
