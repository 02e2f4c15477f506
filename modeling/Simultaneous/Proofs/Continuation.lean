import Mathlib
import Simultaneous.Proofs.Frames
import Simultaneous.Proofs.Lookahead

/-!
Line breaks as white space.

A line that completes no equation stops where a term is due, so nothing of its last token can be
read together with what follows. Whether the next line is read as a line of its own, or behind white
space in the same line, then makes no difference, except that the places of the faults in it move.
-/

namespace Simultaneous

open Equation
open Number (OfDecimal)
open Text (isBlank skipBlanks)

namespace Equation

/-! ### Lines behind others -/

/-- The error as it is found in a longer line, with `n` characters in front. -/
def ParseError.behind (n : ℕ) (e : ParseError) : ParseError :=
  { e with position := e.position + n }

/-- The reading of a line as the end of a longer one, with `n` characters in front that make the
entries `es`. -/
def Reading.behind (es : List Entry) (n : ℕ) (r : Reading) : Reading where
  entries := es ++ r.entries
  session := { r.session with
    errorPosition := r.session.errorPosition + if r.result.toBool then 0 else n
    lineLength := r.session.lineLength + n }
  result := r.result.mapError (·.behind n)

lemma inLine_behind {o : Offence} {line : List Char} (h : o.rest <:+ line) (front : List Char) :
    o.inLine (front ++ line) = (o.inLine line).behind front.length := by
  have hle : o.rest.length ≤ line.length := h.length_le
  simp only [Offence.inLine, ParseError.behind, List.length_append, ParseError.mk.injEq, true_and]
  omega

namespace Session

/-- A reading goes by its scan and its result. -/
lemma read_eq (s : Session) (line : List Char) :
    s.read line =
      { entries := (scan s.limits s.phase line).entries
        session := ({ s with lineLength := line.length }.advance
          (scan s.limits s.phase line).phase (s.read line).result).note
            ((s.read line).result.map LineEnd.status)
        result := (s.read line).result } := rfl

variable {s : Session} {l₁ : List Char} {e : LineEnd} (h : (s.read l₁).result = .ok e)
  (hopen : e ≠ .complete)

include h hopen

/-- The session behind a line that completes no equation. -/
lemma session_read_of_open :
    (s.read l₁).session =
      { s with
        phase := (scan s.limits s.phase l₁).phase
        status := e.status
        errorPosition := 0
        lineLength := l₁.length } := by
  rw [read_eq, h]
  cases e with
  | blank => rfl
  | continued => rfl
  | complete => exact absurd rfl hopen

/-- The scan goes on behind the line as it goes on in the next one. -/
lemma scan_of_open (l₂ : List Char) {w : Char} (hw : isBlank w = true) :
    let next := scan s.limits (scan s.limits s.phase l₁).phase l₂
    scan s.limits s.phase (l₁ ++ w :: l₂) =
      { next with entries := (s.read l₁).entries ++ next.entries } := by
  obtain ⟨ts, hline, htakes, hend⟩ := exists_spelled_of_read h
  have hdue : (scan s.limits s.phase l₁).phase.due ≠ none := by
    rcases lineEnd_eq_ok hend with ⟨hstart, -⟩ | ⟨p, minus, hterm, -⟩ | ⟨p, -, -, rfl⟩
    · simp [hstart, Phase.due]
    · simp [hterm, Phase.due]
    · exact absurd rfl hopen
  have hskip : skipBlanks (w :: l₂) = skipBlanks l₂ := by
    rw [Text.skipBlanks_cons, if_pos hw]
  rw [← scan_congr hskip]
  exact scan_append_of_spelled hline htakes (stops_cons (by rw [hw]; rfl))
    fun hnone => absurd hnone hdue

lemma result_read_of_open (l₂ : List Char) {w : Char} (hw : isBlank w = true) :
    (s.read (l₁ ++ w :: l₂)).result =
      ((s.read l₁).session.read l₂).result.mapError (·.behind (l₁.length + 1)) := by
  have hscan := scan_of_open h hopen l₂ hw
  rw [session_read_of_open h hopen, read, read]
  dsimp only
  rw [hscan]
  dsimp only
  have hlength : (l₁ ++ w :: l₂).length = l₂.length + (l₁.length + 1) := by
    simp only [List.length_append, List.length_cons]
    omega
  cases hoffence : (scan s.limits (scan s.limits s.phase l₁).phase l₂).offence with
  | some o =>
    have hplace := inLine_behind (suffix_of_scan hoffence) (l₁ ++ [w])
    rw [List.append_assoc, List.length_append] at hplace
    exact congrArg Except.error hplace
  | none =>
    rw [hlength]
    cases (scan s.limits (scan s.limits s.phase l₁).phase l₂).phase.lineEnd <;> rfl

/-- **The break of a line is white space**: a line that completes no equation may be read together
with the next one. -/
lemma read_of_open (l₂ : List Char) {w : Char} (hw : isBlank w = true) :
    s.read (l₁ ++ w :: l₂) =
      ((s.read l₁).session.read l₂).behind (s.read l₁).entries (l₁.length + 1) := by
  have hresult := result_read_of_open h hopen l₂ hw
  rw [read_eq s (l₁ ++ w :: l₂), hresult, scan_of_open h hopen l₂ hw, read_eq _ l₂,
    session_read_of_open h hopen]
  have hlength : (l₁ ++ w :: l₂).length = l₂.length + (l₁.length + 1) := by
    simp only [List.length_append, List.length_cons]
    omega
  rw [hlength]
  generalize (Session.read _ l₂).result = r
  cases r with
  | error e => rfl
  | ok e => cases e <;> rfl

end Session

end Equation

/-! ### Drafts -/

section Drafts

variable {α : Type} [One α] [Add α] [Neg α] [OfDecimal α]

namespace LinearSystem

variable (s : LinearSystem α) (row : ℕ) (es : List Entry) (n : ℕ) (r : Reading)

lemma entryRecords_append (fs : List Entry) :
    s.entryRecords row (es ++ fs) =
      s.entryRecords row es ++ (es.foldl (·.enter row ·) s).entryRecords row fs := by
  induction es generalizing s with
  | nil => rfl
  | cons e es ih => exact congrArg _ (ih (s.enter row e))

/-- What a longer line holds is entered as if its front had been entered before. -/
lemma absorb_behind : s.absorb row (r.behind es n) = (es.foldl (·.enter row ·) s).absorb row r := by
  obtain ⟨fs, session, result⟩ := r
  rw [absorb, absorb, Reading.behind, List.foldl_append]
  cases result with
  | error e => rfl
  | ok e => cases e <;> rfl

lemma readingRecords_behind :
    s.readingRecords row (r.behind es n) =
      s.entryRecords row es ++ (es.foldl (·.enter row ·) s).readingRecords row r := by
  have habsorb := s.absorb_behind row es n r
  obtain ⟨fs, session, result⟩ := r
  rw [readingRecords, readingRecords, habsorb, Reading.behind, entryRecords_append,
    List.append_assoc]
  cases result with
  | error e => rfl
  | ok e => cases e <;> rfl

end LinearSystem

namespace Draft

/-- What a line that completes no equation leaves, and what the log says of it. -/
lemma feed_of_open {d : Draft α} {l : List Char} {e : LineEnd} (h : (d.feed l).value.2 = .ok e)
    (hopen : e ≠ .complete) :
    (d.feed l).value.1.system =
        (d.session.read l).entries.foldl (·.enter d.session.equations ·) d.system ∧
      (d.feed l).log = d.system.entryRecords d.session.equations (d.session.read l).entries := by
  have hresult : (d.session.read l).result = .ok e := h
  have hne : (d.session.read l).result ≠ .ok .complete := by
    rw [hresult]
    exact fun heq => hopen (Except.ok.inj heq)
  refine ⟨?_, ?_⟩
  · rw [system_feed, LinearSystem.absorb_eq, if_neg hne]
  · rw [feed, LinearSystem.readingRecords]
    dsimp only
    split
    · next heq => exact absurd heq hne
    · exact List.append_nil _

/-- **A line break after an operator is white space**: after a line that completes no equation, the
next line leaves the session and the system, and gets the answer and the records, as if both had
been one line with white space between them. Only the places of faults move, and the line is
longer. -/
theorem feed_line_break (d : Draft α) (l₁ l₂ : List Char) (w : Char) (hw : isBlank w = true)
    (e : LineEnd) (h : (d.feed l₁).value.2 = .ok e) (hopen : e ≠ .complete) :
    let n := l₁.length + 1
    let (d', result) := ((d.feed l₁).value.1.feed l₂).value
    (d.feed (l₁ ++ w :: l₂)).value =
        (⟨{ d'.session with
            errorPosition := d'.session.errorPosition + if result.toBool then 0 else n
            lineLength := d'.session.lineLength + n }, d'.system⟩,
          result.mapError fun error => { error with position := error.position + n }) ∧
      (d.feed (l₁ ++ w :: l₂)).log =
        (d.feed l₁).log ++ ((d.feed l₁).value.1.feed l₂).log := by
  intro n
  have hread := Session.read_of_open h hopen l₂ hw
  have hrow : (d.session.read l₁).session.equations = d.session.equations := by
    rw [Session.session_read_of_open h hopen]
  obtain ⟨hsystem, hlog⟩ := feed_of_open h hopen
  -- the next line starts where the first one has left the session and the system
  have hnext : (d.feed l₁).value.1.feed l₂ =
      { value := (⟨((d.session.read l₁).session.read l₂).session,
            (d.feed l₁).value.1.system.absorb d.session.equations
              ((d.session.read l₁).session.read l₂)⟩,
          ((d.session.read l₁).session.read l₂).result)
        log := (d.feed l₁).value.1.system.readingRecords d.session.equations
          ((d.session.read l₁).session.read l₂) } := by
    rw [← hrow]
    rfl
  rw [hnext, hsystem, hlog, feed, hread, LinearSystem.absorb_behind,
    LinearSystem.readingRecords_behind]
  exact ⟨rfl, rfl⟩

/-- The minus sign stands in one line and its term in the next. What is wrong in the second line is
found five places later if the lines are one. -/
theorem feed_line_break_of_fault :
    let d : Draft ℚ := .fresh {}
    (d.feed "x =-".toList).value.2 = .ok .continued ∧
      ((d.feed "x =-".toList).value.1.feed "3 4".toList).value.2 = .error ⟨.illegalEquation, 2⟩ ∧
      (d.feed "x =-\t3 4".toList).value.2 = .error ⟨.illegalEquation, 7⟩ := by
  intro d
  have hopen : (d.feed "x =-".toList).value.2 = .ok .continued := by decide +kernel
  have hfault : ((d.feed "x =-".toList).value.1.feed "3 4".toList).value.2 =
      .error ⟨.illegalEquation, 2⟩ := by decide +kernel
  have hjoined := feed_line_break d "x =-".toList "3 4".toList '\t' (by decide) .continued hopen
    (by decide)
  refine ⟨hopen, hfault, ?_⟩
  have hanswer := congrArg Prod.snd hjoined.1
  dsimp only at hanswer
  rw [hfault] at hanswer
  exact hanswer

end Draft

end Drafts

end Simultaneous
