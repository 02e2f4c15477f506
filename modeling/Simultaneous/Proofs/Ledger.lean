import Mathlib
import Simultaneous.Proofs.Calls

/-!
A session kept in flags.

The phase of a session can be told from less structured notes: whether a term or an operator is
due, four flags about the equation at hand, and whether the last operator was a minus. A ledger
reads with such notes alone. Nothing in its making forbids flags that contradict each other, or a
report of a fault that carries the status of a success. The notes of a ledger that has been called
in any way do hang together, and such a ledger answers as the session does.
-/

namespace Simultaneous.Equation

open Text (skipBlanks)

/-! ### Flags -/

/-- What is known of the equation at hand. -/
structure Flags where
  equalSign : Bool := false
  termBefore : Bool := false
  termAfter : Bool := false
  named : Bool := false
  deriving DecidableEq, Repr

namespace Flags

/-- An equation is at hand. -/
def inFlight (f : Flags) : Bool := f.equalSign || f.termBefore || f.termAfter || f.named

def status (f : Flags) : Status :=
  if !f.inFlight then .noEquation
  else if !f.equalSign then .fault .noEqualSign
  else if !f.termBefore then .fault .noTermBeforeEqualSign
  else if !f.termAfter then .fault .noTermAfterEqualSign
  else if !f.named then .fault .noVariable
  else .success

def addTerm (f : Flags) (t : Term) : Flags where
  equalSign := f.equalSign
  termBefore := f.termBefore || !f.equalSign
  termAfter := f.termAfter || f.equalSign
  named := f.named || t.quantity.isMultiple

def addOperator (f : Flags) (o : Operator) : Flags :=
  { f with equalSign := f.equalSign || o.isEquals }

lemma eq_default_of_not_inFlight {f : Flags} (h : f.inFlight = false) : f = {} := by
  obtain ⟨equalSign, termBefore, termAfter, named⟩ := f
  simp only [inFlight, Bool.or_eq_false_iff] at h
  obtain ⟨⟨⟨rfl, rfl⟩, rfl⟩, rfl⟩ := h
  rfl

end Flags

/-! ### Marks -/

inductive Turn where
  | term
  | operator
  deriving DecidableEq, Repr

/-- The notes at a place in a line. -/
structure Marks where
  turn : Turn := .term
  flags : Flags := {}
  /-- The last operator was a minus. -/
  minus : Bool := false
  deriving DecidableEq, Repr

/-- What is reported of a place, and the rest of the line from there on. -/
abbrev Stop := Status × List Char

namespace Marks

/-- One token off the front of a line, as `Phase.step` takes it. -/
def step (limits : Limits) (m : Marks) (cs : List Char) :
    Marks × Except Stop (Option Entry × List Char) :=
  match m.turn with
  | .term =>
    match readTerm limits cs with
    | .error o => (m, .error (.fault o.fault, o.rest))
    | .ok (t, rest) =>
      let negative := m.flags.equalSign ^^ m.minus ^^ t.sign == some .minus
      ({ m with turn := .operator, flags := m.flags.addTerm t },
        .ok (some ⟨negative, t.quantity⟩, rest))
  | .operator =>
    -- the sign of the operator before is forgotten even if no operator is found
    let m : Marks := ⟨.operator, m.flags, false⟩
    match readOperator cs with
    | none => (m, .error (.fault .illegalEquation, cs))
    | some (o, rest) =>
      if o.isEquals && m.flags.equalSign then (m, .error (.fault .multipleEqualSigns, cs))
      else (⟨.term, m.flags.addOperator o, o.isMinus⟩, .ok (none, rest))

lemma length_lt_of_step {limits : Limits} {m m' : Marks} {entry : Option Entry}
    {cs rest : List Char} (h : m.step limits cs = (m', .ok (entry, rest))) :
    rest.length < cs.length := by
  rw [step] at h
  split at h
  · split at h
    · simp at h
    · next ht =>
      obtain ⟨-, h⟩ := Prod.mk.inj h
      obtain ⟨-, rfl⟩ := Prod.mk.inj (Except.ok.inj h)
      exact (suffix_of_readTerm ht).2
  · split at h
    · simp at h
    · next ho =>
      dsimp only at h
      split_ifs at h
      · simp at h
      · obtain ⟨-, h⟩ := Prod.mk.inj h
        obtain ⟨-, rfl⟩ := Prod.mk.inj (Except.ok.inj h)
        exact (suffix_of_readOperator ho).2

/-- What the tokens of a line come to. -/
structure Scan where
  entries : List Entry
  marks : Marks
  stop : Option Stop

def scan (limits : Limits) (m : Marks) (cs : List Char) : Scan :=
  match hs : skipBlanks cs with
  | [] => ⟨[], m, none⟩
  | c :: tail =>
    match h : m.step limits (c :: tail) with
    | (m', .error stop) => ⟨[], m', some stop⟩
    | (m', .ok (entry, rest)) =>
      have : rest.length < cs.length :=
        Nat.lt_of_lt_of_le (length_lt_of_step h) (hs ▸ Text.length_skipBlanks_le cs)
      let s := m'.scan limits rest
      { s with entries := entry.toList ++ s.entries }
termination_by cs.length

lemma scan_of_blank {limits : Limits} {m : Marks} {cs : List Char} (h : skipBlanks cs = []) :
    m.scan limits cs = ⟨[], m, none⟩ := by
  rw [scan]
  split
  · rfl
  · simp_all

lemma scan_of_error {limits : Limits} {m m' : Marks} {cs : List Char} {stop : Stop}
    (hne : skipBlanks cs ≠ []) (h : m.step limits (skipBlanks cs) = (m', .error stop)) :
    m.scan limits cs = ⟨[], m', some stop⟩ := by
  rw [scan]
  split
  · contradiction
  · next hs =>
    rw [hs] at h
    split <;> simp_all

lemma scan_of_ok {limits : Limits} {m m' : Marks} {cs rest : List Char} {entry : Option Entry}
    (hne : skipBlanks cs ≠ []) (h : m.step limits (skipBlanks cs) = (m', .ok (entry, rest))) :
    m.scan limits cs =
      { m'.scan limits rest with entries := entry.toList ++ (m'.scan limits rest).entries } := by
  rw [scan]
  split
  · contradiction
  · next hs =>
    rw [hs] at h
    split <;> simp_all

end Marks

/-! ### Ledgers -/

/-- A status and where it was found. -/
structure Report where
  status : Status
  position : ℕ
  deriving DecidableEq, Repr

def ParseError.report (e : ParseError) : Report := ⟨.fault e.fault, e.position⟩

structure Ledger where
  limits : Limits
  marks : Marks := {}
  equations : ℕ := 0
  status : Status := .success
  errorPosition : ℕ := 0
  lineLength : ℕ := 0
  deriving DecidableEq, Repr

namespace Ledger

def fresh (limits : Limits) : Ledger := { limits }

def record (l : Ledger) : Except Report Status → Ledger
  | .ok status => { l with status, errorPosition := 0 }
  | .error r => { l with status := r.status, errorPosition := r.position }

/-- The end of a line, which completes an equation that ends in a term. -/
def endLine (l : Ledger) : Ledger × Except Report Status :=
  match l.marks.turn with
  | .operator =>
    match l.marks.flags.status with
    | .success => ({ l with marks := {}, equations := l.equations + 1 }, .ok .success)
    | status => (l, .error ⟨status, l.lineLength⟩)
  | .term => (l, .ok (if l.marks.flags.inFlight then .success else .noEquation))

def parse (l : Ledger) (line : List Char) : Ledger × Except Report Status :=
  let scanned := l.marks.scan l.limits line
  let l := { l with marks := scanned.marks, lineLength := line.length }
  let (l, result) : Ledger × Except Report Status :=
    match scanned.stop with
    | some (status, rest) => (l, .error ⟨status, line.length - rest.length⟩)
    | none => l.endLine
  (l.record result, result)

/-- The end of the input. -/
def finish (l : Ledger) : Ledger × Except Report Status :=
  let result : Except Report Status :=
    if l.marks.turn = .term ∧ l.marks.flags.inFlight = true then
      match l.marks.flags.status with
      | .success => .error ⟨.fault .noTerm, l.lineLength⟩
      | status => .error ⟨status, l.lineLength⟩
    else .ok .success
  (l.record result, result)

def call (l : Ledger) : Call → Ledger × Except Report Status
  | .parse line => l.parse line
  | .finish => l.finish
  | .reset => (fresh l.limits, .ok .success)

def after (l : Ledger) (calls : List Call) : Ledger := calls.foldl (fun l c => (l.call c).1) l

end Ledger

/-! ### Coherence -/

namespace Marks

/-- The flags hang together. -/
structure Coherent (m : Marks) : Prop where
  before : m.flags.inFlight = true → m.flags.termBefore = true
  after : m.flags.termAfter = true → m.flags.equalSign = true
  behind_term : m.turn = .operator →
    m.flags.inFlight = true ∧ (m.flags.equalSign = true → m.flags.termAfter = true)
  idle : m.flags.inFlight = false → m.minus = false

def progress (m : Marks) : Progress where
  side := if m.flags.equalSign then .right m.flags.termAfter else .left
  named := m.flags.named

/-- The phase that the notes stand for. -/
def phase (m : Marks) : Phase :=
  match m.turn with
  | .operator => .operator m.progress
  | .term => if m.flags.inFlight then .term m.progress m.minus else .start

variable {m : Marks} {limits : Limits} {cs : List Char}

lemma coherent_default : ({} : Marks).Coherent := by
  constructor <;> decide

lemma isRight_progress (m : Marks) : m.progress.isRight = m.flags.equalSign := by
  rw [progress]
  cases m.flags.equalSign <;> rfl

/-- Where a term is due, the notes say what it is added to. -/
lemma due_phase (h : m.Coherent) (hturn : m.turn = .term) :
    m.phase.due = some (m.progress, m.minus) := by
  rw [phase, hturn]
  cases hf : m.flags.inFlight with
  | true => rfl
  | false =>
    rw [progress, Flags.eq_default_of_not_inFlight hf, h.idle hf]
    rfl

/-- A term leaves the notes coherent, and has its place in the phase. -/
lemma coherent_addTerm (h : m.Coherent) (t : Term) (minus : Bool) :
    (⟨.operator, m.flags.addTerm t, minus⟩ : Marks).Coherent ∧
      (⟨.operator, m.flags.addTerm t, minus⟩ : Marks).phase = .operator (m.progress.addTerm t) := by
  obtain ⟨turn, ⟨equalSign, termBefore, termAfter, named⟩, m⟩ := m
  obtain ⟨hbefore, hafter, -, -⟩ := h
  simp only [Flags.inFlight, Bool.or_eq_true] at hbefore hafter
  refine ⟨⟨?_, ?_, ?_, ?_⟩, ?_⟩
  all_goals
    simp only [Flags.inFlight, Flags.addTerm, phase, progress, Progress.addTerm]
    cases equalSign <;> cases termBefore <;> cases termAfter <;> simp_all

/-- So does an operator that brings no second equal sign. -/
lemma coherent_addOperator (h : m.Coherent) (hturn : m.turn = .operator) {o : Operator}
    (hfirst : ¬(o.isEquals && m.flags.equalSign) = true) :
    (⟨.term, m.flags.addOperator o, o.isMinus⟩ : Marks).Coherent ∧
      (⟨.term, m.flags.addOperator o, o.isMinus⟩ : Marks).phase =
        .term (m.progress.addOperator o) o.isMinus := by
  obtain ⟨turn, ⟨equalSign, termBefore, termAfter, named⟩, m⟩ := m
  obtain ⟨hbefore, hafter, hbehind, -⟩ := h
  obtain ⟨hflight, hright⟩ := hbehind hturn
  simp only [Flags.inFlight, Bool.or_eq_true] at hbefore hafter hflight hright hfirst
  refine ⟨⟨?_, ?_, ?_, ?_⟩, ?_⟩
  all_goals
    simp only [Flags.inFlight, Flags.addOperator, phase, progress, Progress.addOperator]
    by_cases ho : o.isEquals = true <;> cases equalSign <;> cases termBefore <;>
      cases termAfter <;> simp_all

lemma coherent_forget (h : m.Coherent) (hturn : m.turn = .operator) :
    (⟨.operator, m.flags, false⟩ : Marks).Coherent ∧
      (⟨.operator, m.flags, false⟩ : Marks).phase = m.phase := by
  refine ⟨⟨h.before, h.after, fun _ => h.behind_term hturn, fun _ => rfl⟩, ?_⟩
  rw [phase, phase, hturn]
  rfl

/-! ### Tokens and lines -/

/-- A place where the phase finds a fault is reported by the notes. -/
lemma step_of_error (h : m.Coherent) {o : Offence} (hs : m.phase.step limits cs = .error o) :
    ∃ m', m.step limits cs = (m', .error (.fault o.fault, o.rest)) ∧ m'.Coherent ∧
      m'.phase = m.phase := by
  rw [step]
  cases hturn : m.turn with
  | term =>
    rw [step_of_due (due_phase h hturn), Phase.step.term] at hs
    cases ht : readTerm limits cs with
    | error o' =>
      rw [ht] at hs
      obtain rfl := Except.error.inj hs
      exact ⟨m, rfl, h, rfl⟩
    | ok r =>
      rw [ht] at hs
      cases hs
  | operator =>
    have hphase : m.phase = .operator m.progress := by rw [phase, hturn]
    rw [hphase] at hs
    obtain ⟨hcoherent, hsame⟩ := coherent_forget h hturn
    simp only [Phase.step] at hs
    cases ho : readOperator cs with
    | none =>
      rw [ho] at hs
      obtain rfl := Except.error.inj hs
      exact ⟨_, rfl, hcoherent, hsame⟩
    | some r =>
      obtain ⟨o', rest⟩ := r
      simp only [ho, isRight_progress] at hs
      split_ifs at hs with hsecond
      obtain rfl := Except.error.inj hs
      exact ⟨_, if_pos hsecond, hcoherent, hsame⟩

/-- A token that the phase takes is taken with the notes. -/
lemma step_of_ok (h : m.Coherent) {entry : Option Entry} {next : Phase} {rest : List Char}
    (hs : m.phase.step limits cs = .ok ((entry, next), rest)) :
    ∃ m', m.step limits cs = (m', .ok (entry, rest)) ∧ m'.Coherent ∧ m'.phase = next := by
  rw [step]
  cases hturn : m.turn with
  | term =>
    obtain ⟨t, ht, rfl, rfl⟩ := (step_due_iff (due_phase h hturn)).mp hs
    obtain ⟨hcoherent, hphase⟩ := coherent_addTerm h t m.minus
    refine ⟨_, ?_, hcoherent, hphase⟩
    simp only [ht, Entry.ofTerm, isRight_progress]
  | operator =>
    have hphase : m.phase = .operator m.progress := by rw [phase, hturn]
    rw [hphase] at hs
    obtain ⟨o, ho, hfirst, rfl, rfl⟩ := step_operator_iff.mp hs
    rw [isRight_progress] at hfirst
    have hnot : ¬(o.isEquals && m.flags.equalSign) = true := by
      rw [Bool.and_eq_true]
      rintro ⟨hequals, hsign⟩
      exact absurd ((hfirst hequals).symm.trans hsign) Bool.false_ne_true
    obtain ⟨hcoherent, hphase⟩ := coherent_addOperator h hturn hnot
    exact ⟨_, by simp only [ho, if_neg hnot], hcoherent, hphase⟩

/-- Coherent notes stay so over a line, and stand for the phases that it goes through. -/
lemma scan_of_coherent (h : m.Coherent) (limits : Limits) (cs : List Char) :
    ∃ m', m.scan limits cs = ⟨(Equation.scan limits m.phase cs).entries, m',
        (Equation.scan limits m.phase cs).offence.map fun o => (.fault o.fault, o.rest)⟩ ∧
      m'.Coherent ∧ m'.phase = (Equation.scan limits m.phase cs).phase := by
  -- by the length of what is left, as the scan goes
  induction hn : cs.length using Nat.strong_induction_on generalizing m cs with
  | _ n ih =>
    by_cases hblank : skipBlanks cs = []
    · rw [scan_of_blank hblank, Equation.scan_of_blank hblank]
      exact ⟨m, rfl, h, rfl⟩
    cases hs : m.phase.step limits (skipBlanks cs) with
    | error o =>
      obtain ⟨m', hstep, hcoherent, hphase⟩ := step_of_error h hs
      rw [scan_of_error hblank hstep, Equation.scan_of_error hblank hs]
      exact ⟨m', rfl, hcoherent, hphase⟩
    | ok r =>
      obtain ⟨⟨entry, next⟩, rest⟩ := r
      obtain ⟨m', hstep, hcoherent, rfl⟩ := step_of_ok h hs
      have hlt : rest.length < n :=
        hn ▸ (Phase.suffix_of_step hs).2.trans_le (Text.length_skipBlanks_le cs)
      obtain ⟨m'', hrest, hcoherent', hphase⟩ := ih _ hlt hcoherent rest rfl
      rw [scan_of_ok hblank hstep, Equation.scan_of_ok hblank hs, hrest]
      exact ⟨m'', rfl, hcoherent', hphase⟩

/-- What the flags say of an equation at hand is what it lacks. -/
lemma status_of_coherent (h : m.Coherent) (hflight : m.flags.inFlight = true) :
    m.flags.status = m.progress.defect.elim .success .fault := by
  have hbefore := h.before hflight
  rw [Flags.status, hflight, hbefore, progress]
  cases m.flags.equalSign <;> cases m.flags.termAfter <;> cases m.flags.named <;> rfl

end Marks

/-! ### Ledgers and sessions -/

namespace Ledger

/-- The ledger keeps notes of what the session keeps. -/
structure Tracks (l : Ledger) (s : Session) : Prop where
  limits_eq : l.limits = s.limits
  coherent : l.marks.Coherent
  phase_eq : l.marks.phase = s.phase
  equations_eq : l.equations = s.equations
  status_eq : l.status = s.status
  errorPosition_eq : l.errorPosition = s.errorPosition
  lineLength_eq : l.lineLength = s.lineLength

variable {l : Ledger} {s : Session}

lemma tracks_fresh (limits : Limits) : (fresh limits).Tracks (Session.fresh limits) :=
  ⟨rfl, Marks.coherent_default, rfl, rfl, rfl, rfl, rfl⟩

lemma Tracks.record (h : l.Tracks s) (r : Except ParseError Status) :
    (l.record (r.mapError ParseError.report)).Tracks (s.note r) := by
  obtain ⟨hlimits, hcoherent, hphase, hequations, -, -, hlength⟩ := h
  cases r <;> exact ⟨hlimits, hcoherent, hphase, hequations, rfl, rfl, hlength⟩

/-- The end of a line is taken alike. -/
lemma Tracks.endLine {ph : Phase} (h : l.Tracks { s with phase := ph })
    {r : Except ParseError LineEnd} (hr : ph.lineEnd.mapError (⟨·, s.lineLength⟩) = r) :
    l.endLine.2 = (r.map LineEnd.status).mapError ParseError.report ∧
      l.endLine.1.Tracks (s.advance ph r) := by
  obtain ⟨hlimits, hcoherent, hphase, hequations, hstatus, herror, hlength⟩ := h
  have hphase' : l.marks.phase = ph := hphase
  rw [Marks.phase] at hphase'
  cases hturn : l.marks.turn with
  | term =>
    rw [Ledger.endLine, hturn]
    cases hflight : l.marks.flags.inFlight <;>
    · rw [hturn, hflight] at hphase'
      rw [← hphase'] at hr
      obtain rfl := hr
      exact ⟨rfl, hlimits, hcoherent, hphase, hequations, hstatus, herror, hlength⟩
  | operator =>
    have hflags := Marks.status_of_coherent hcoherent (hcoherent.behind_term hturn).1
    rw [hturn] at hphase'
    rw [← hphase', Phase.lineEnd] at hr
    cases hdefect : l.marks.progress.defect with
    | none =>
      rw [hdefect] at hr hflags
      obtain rfl := hr
      rw [Ledger.endLine, hturn, hflags]
      exact ⟨rfl, hlimits, Marks.coherent_default, rfl, congrArg (· + 1) hequations, hstatus,
        herror, hlength⟩
    | some f =>
      rw [hdefect] at hr hflags
      obtain rfl := hr
      rw [Ledger.endLine, hturn, hflags]
      refine ⟨?_, hlimits, hcoherent, hphase, hequations, hstatus, herror, hlength⟩
      exact congrArg (fun length => Except.error (Report.mk (.fault f) length)) hlength

/-- A line is taken alike. -/
lemma Tracks.parse (h : l.Tracks s) (line : List Char) :
    (l.parse line).2 = ((s.read line).result.map LineEnd.status).mapError ParseError.report ∧
      (l.parse line).1.Tracks (s.read line).session := by
  obtain ⟨m, hscan, hcoherent, hphase⟩ := Marks.scan_of_coherent h.coherent s.limits line
  rw [h.phase_eq] at hscan hphase
  rw [Ledger.parse, h.limits_eq, hscan, Session.read]
  generalize scan s.limits s.phase line = scanned at hphase ⊢
  obtain ⟨entries, ph, offence⟩ := scanned
  obtain rfl : m.phase = ph := hphase
  let before : Session := { s with lineLength := line.length }
  have hlater : Tracks { l with limits := s.limits, marks := m, lineLength := line.length }
      { before with phase := m.phase } :=
    ⟨rfl, hcoherent, rfl, h.equations_eq, h.status_eq, h.errorPosition_eq, rfl⟩
  cases offence with
  | some o => exact ⟨rfl, hlater.record (.error (o.inLine line))⟩
  | none =>
    obtain ⟨hanswer, hend⟩ := Tracks.endLine (s := before) hlater rfl
    refine ⟨hanswer, ?_⟩
    have hrecord := hend.record
      ((m.phase.lineEnd.mapError (⟨·, line.length⟩ : Fault → ParseError)).map LineEnd.status)
    rw [← hanswer] at hrecord
    exact hrecord

lemma Tracks.finish (h : l.Tracks s) :
    l.finish.2 = (s.finish.2.map fun _ => Status.success).mapError ParseError.report ∧
      l.finish.1.Tracks s.finish.1 := by
  have hphase := h.phase_eq
  rw [Marks.phase] at hphase
  have hanswer : l.finish.2 =
      (s.finish.2.map fun _ => Status.success).mapError ParseError.report := by
    by_cases hdue : l.marks.turn = .term ∧ l.marks.flags.inFlight = true
    · rw [hdue.1, hdue.2] at hphase
      refine (if_pos hdue).trans ?_
      rw [Session.finish, ← hphase, Marks.status_of_coherent h.coherent hdue.2, h.lineLength_eq]
      cases hdefect : l.marks.progress.defect <;> simp [hdefect, Except.map, Except.mapError,
        ParseError.report]
    · refine (if_neg hdue).trans ?_
      cases hturn : l.marks.turn with
      | operator =>
        rw [hturn] at hphase
        rw [Session.finish, ← hphase]
        rfl
      | term =>
        rw [hturn, Bool.eq_false_iff.mpr fun hflight => hdue ⟨hturn, hflight⟩] at hphase
        rw [Session.finish, ← hphase]
        rfl
  have hrecord := h.record (s.finish.2.map fun _ => Status.success)
  rw [← hanswer] at hrecord
  exact ⟨hanswer, hrecord⟩

/-- **Every call is taken alike**, and the answers differ only in how they are written. -/
lemma Tracks.call (h : l.Tracks s) (c : Call) :
    (l.call c).2 = (s.call c).2.mapError ParseError.report ∧ (l.call c).1.Tracks (s.call c).1 := by
  cases c with
  | parse line => exact h.parse line
  | finish => exact h.finish
  | reset =>
    refine ⟨rfl, ?_⟩
    rw [Ledger.call, h.limits_eq]
    exact tracks_fresh s.limits

lemma Tracks.after (h : l.Tracks s) (calls : List Call) :
    (l.after calls).Tracks (s.after calls) := by
  induction calls generalizing l s with
  | nil => exact h
  | cons c calls ih => exact ih (h.call c).2

end Ledger

end Simultaneous.Equation
