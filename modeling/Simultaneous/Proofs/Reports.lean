import Mathlib
import Simultaneous.Proofs.Ledger

/-!
What a session reports.

Whatever has been called before, faults included, a report is never that of a success, and two of
the faults are out of place: no equation lacks a term before its equal sign, and one that lacks a
term after it is found at the end of the input only. As long as no call has failed, the end of the
input tells what the tokens read since the last complete equation lack.
-/

namespace Simultaneous.Equation

open Text (skipBlanks)

/-! ### Faults of tokens -/

/-- Whether a fault is one of a token, and not of an equation as a whole. -/
def Fault.ofToken : Fault → Bool
  | noEqualSign | noTermBeforeEqualSign | noTermAfterEqualSign | noVariable => false
  | _ => true

lemma ne_of_ofToken {f g : Fault} (hf : f.ofToken = true) (hg : g.ofToken = false) : f ≠ g :=
  fun heq => Bool.false_ne_true (hg.symm.trans (heq ▸ hf))

variable {limits : Limits} {cs : List Char} {o : Offence}

lemma ofToken_of_readRun {limit digits : ℕ} {pointed : Bool}
    (h : readRun limit digits pointed cs = .error o) : o.fault.ofToken = true := by
  induction cs generalizing digits pointed with
  | nil => cases h
  | cons c cs ih =>
    rw [readRun] at h
    split_ifs at h
    · obtain h | ⟨r, -, h⟩ := bind_eq_error.mp h
      · exact ih h
      · cases h
    · exact Except.error.inj h ▸ rfl
    · exact Except.error.inj h ▸ rfl
    · obtain h | ⟨r, -, h⟩ := bind_eq_error.mp h
      · exact ih h
      · cases h

lemma ofToken_of_readMantissa {limit : ℕ} (h : readMantissa limit cs = .error o) :
    o.fault.ofToken = true := by
  obtain h | ⟨⟨run, rest⟩, -, h⟩ := bind_eq_error.mp h
  · exact ofToken_of_readRun h
  · dsimp only at h
    split_ifs at h
    · exact Except.error.inj h ▸ rfl
    · exact Except.error.inj h ▸ rfl
    · exact nomatch h

lemma ofToken_of_readExponent {limit : ℕ} (h : readExponent limit cs = .error o) :
    o.fault.ofToken = true := by
  unfold readExponent at h
  dsimp only at h
  split_ifs at h
  · exact Except.error.inj h ▸ rfl
  · exact Except.error.inj h ▸ rfl

lemma ofToken_of_readLiteral (h : readLiteral limits cs = .error o) :
    o.fault.ofToken = true := by
  obtain h | ⟨⟨mantissa, rest⟩, -, h⟩ := bind_eq_error.mp h
  · exact ofToken_of_readMantissa h
  · dsimp only at h
    split at h
    · exact nomatch h
    · split at h
      · obtain h | ⟨r, -, h⟩ := bind_eq_error.mp h
        · exact ofToken_of_readExponent h
        · exact nomatch h
      · exact nomatch h

lemma ofToken_of_readTerm (h : readTerm limits cs = .error o) : o.fault.ofToken = true := by
  obtain h | ⟨⟨literal, rest⟩, -, h⟩ := bind_eq_error.mp h
  · exact ofToken_of_readLiteral h
  · dsimp only at h
    split at h
    · split at h
      · exact Except.error.inj h ▸ rfl
      · exact nomatch h
    · exact nomatch h

lemma ofToken_of_step {ph : Phase} (h : ph.step limits cs = .error o) :
    o.fault.ofToken = true := by
  cases hdue : ph.due with
  | some r =>
    obtain ⟨p, minus⟩ := r
    rw [step_of_due hdue] at h
    obtain h | ⟨r, -, h⟩ := bind_eq_error.mp h
    · exact ofToken_of_readTerm h
    · exact nomatch h
  | none =>
    cases ph with
    | start | term _ _ => exact nomatch hdue
    | operator p =>
      simp only [Phase.step] at h
      split at h
      · exact Except.error.inj h ▸ rfl
      · split_ifs at h
        exact Except.error.inj h ▸ rfl

lemma ofToken_of_scan {ph : Phase} (h : (scan limits ph cs).offence = some o) :
    o.fault.ofToken = true := by
  induction hn : cs.length using Nat.strong_induction_on generalizing ph cs with
  | _ n ih =>
    by_cases hblank : skipBlanks cs = []
    · rw [scan_of_blank hblank] at h
      exact nomatch h
    cases hs : ph.step limits (skipBlanks cs) with
    | error o' =>
      rw [scan_of_error hblank hs] at h
      obtain rfl := Option.some.inj h
      exact ofToken_of_step hs
    | ok r =>
      obtain ⟨⟨entry, next⟩, rest⟩ := r
      have hlt : rest.length < n :=
        hn ▸ (Phase.suffix_of_step hs).2.trans_le (Text.length_skipBlanks_le cs)
      rw [scan_of_ok hblank hs] at h
      exact ih _ hlt h rfl

/-! ### Lines and ends -/

lemma defect_ne_noTermBefore (p : Progress) : p.defect ≠ some .noTermBeforeEqualSign := by
  obtain ⟨side, named⟩ := p
  rcases side with _ | _ | _ <;> cases named <;> decide

/-- Behind a term the right side is not empty. -/
lemma Marks.Coherent.defect_ne {m : Marks} (h : m.Coherent) (hturn : m.turn = .operator) :
    m.progress.defect ≠ some .noTermAfterEqualSign := by
  obtain ⟨-, hafter⟩ := h.behind_term hturn
  rw [Marks.progress]
  cases hsign : m.flags.equalSign with
  | false =>
    intro heq
    cases heq
  | true =>
    rw [hafter hsign]
    cases m.flags.named <;> decide

/-- A line misses neither a term before its equal sign nor one after it. -/
lemma fault_of_read {l : Ledger} {s : Session} (h : l.Tracks s) {line : List Char}
    {e : ParseError} (he : (s.read line).result = .error e) :
    e.fault ≠ .noTermBeforeEqualSign ∧ e.fault ≠ .noTermAfterEqualSign := by
  obtain ⟨m, -, hcoherent, hphase⟩ := Marks.scan_of_coherent h.coherent s.limits line
  rw [h.phase_eq] at hphase
  rw [Session.read] at he
  dsimp only at he
  split at he
  · next o ho =>
    obtain rfl := Except.error.inj he
    exact ⟨ne_of_ofToken (ofToken_of_scan ho) rfl, ne_of_ofToken (ofToken_of_scan ho) rfl⟩
  · rw [← hphase, Marks.phase] at he
    cases hturn : m.turn with
    | term =>
      rw [hturn] at he
      cases hflight : m.flags.inFlight <;> simp [hflight, Phase.lineEnd, Except.mapError] at he
    | operator =>
      rw [hturn] at he
      cases hdefect : m.progress.defect with
      | none => simp [Phase.lineEnd, hdefect, Except.mapError] at he
      | some f =>
        simp only [Phase.lineEnd, hdefect, Except.mapError, Except.error.injEq] at he
        subst he
        exact ⟨fun hf => defect_ne_noTermBefore _ (hdefect.trans (congrArg some hf)),
          fun hf => hcoherent.defect_ne hturn (hdefect.trans (congrArg some hf))⟩

lemma fault_of_finish {s : Session} {e : ParseError} (he : s.finish.2 = .error e) :
    e.fault ≠ .noTermBeforeEqualSign := by
  rw [Session.finish] at he
  dsimp only at he
  split at he
  · next p minus hphase =>
    obtain rfl := Except.error.inj he
    have hdefect := defect_ne_noTermBefore p
    cases hp : p.defect with
    | none =>
      intro hf
      cases hf
    | some f => exact fun hf => hdefect (hp.trans (congrArg some hf))
  · cases he

/-- There is nothing to read if the line is blank and no equation is at hand. -/
lemma read_eq_blank_iff {s : Session} {line : List Char} :
    (s.read line).result = .ok .blank ↔ IsBlank line ∧ s.phase = .start := by
  refine ⟨fun h => ?_, ?_⟩
  · obtain ⟨ts, hline, htakes, hend⟩ := Session.exists_spelled_of_read h
    rcases lineEnd_eq_ok hend with ⟨hstart, -⟩ | ⟨p, minus, -, hne⟩ | ⟨p, -, -, hne⟩
    · rw [hstart] at htakes
      obtain ⟨hphase, rfl, -⟩ := eq_of_takes_start htakes
      cases hline with
      | nil hblank => exact ⟨hblank, hphase⟩
    · exact nomatch hne
    · exact nomatch hne
  · rintro ⟨hblank, hstart⟩
    rw [Session.read, scan_of_blank (skipBlanks_of_isBlank hblank), hstart]
    rfl

/-- A line without a fault stops where a term is due. -/
lemma due_of_read {s : Session} {line : List Char} {e : LineEnd}
    (h : (s.read line).result = .ok e) :
    (s.read line).session.phase = .start ∨
      ∃ p minus, (s.read line).session.phase = .term p minus := by
  have hphase := s.phase_read line
  obtain ⟨ts, -, -, hend⟩ := Session.exists_spelled_of_read h
  rcases lineEnd_eq_ok hend with ⟨hstart, rfl⟩ | ⟨p, minus, hterm, rfl⟩ | ⟨p, -, -, rfl⟩
  · rw [h, if_neg (by decide), hstart] at hphase
    exact .inl hphase
  · rw [h, if_neg (by decide), hterm] at hphase
    exact .inr ⟨p, minus, hphase⟩
  · rw [h, if_pos rfl] at hphase
    exact .inl hphase

/-! ### Flags and phases -/

namespace Marks

variable {m : Marks}

lemma phase_eq_start_iff : m.phase = .start ↔ m.turn = .term ∧ m.flags.inFlight = false := by
  rw [phase]
  cases m.turn <;> cases m.flags.inFlight <;> simp

lemma phase_eq_term_iff {p : Progress} {minus : Bool} :
    m.phase = .term p minus ↔
      m.turn = .term ∧ m.flags.inFlight = true ∧ m.progress = p ∧ m.minus = minus := by
  rw [phase]
  cases m.turn <;> cases m.flags.inFlight <;> simp

/-- Between two lines the notes are those of an equation at hand, or there are none. -/
lemma settled_of_phase (h : m.Coherent)
    (hphase : m.phase = .start ∨ ∃ p minus, m.phase = .term p minus) :
    m.turn = .term ∧ (m.flags.inFlight = true ∨ m.flags = {} ∧ m.minus = false) := by
  rcases hphase with hphase | ⟨p, minus, hphase⟩
  · obtain ⟨hturn, hflight⟩ := phase_eq_start_iff.mp hphase
    exact ⟨hturn, .inr ⟨Flags.eq_default_of_not_inFlight hflight, h.idle hflight⟩⟩
  · obtain ⟨hturn, hflight, -, -⟩ := phase_eq_term_iff.mp hphase
    exact ⟨hturn, .inl hflight⟩

end Marks

/-! ### Flags and tokens -/

namespace Token

def isEquals : Token → Bool
  | term _ => false
  | operator o => o.isEquals

def isTerm : Token → Bool
  | term _ => true
  | operator _ => false

/-- A term with a name. -/
def isNamed : Token → Bool
  | term t => t.quantity.isMultiple
  | operator _ => false

@[simp] lemma isEquals_term (t : Term) : (term t).isEquals = false := rfl

@[simp] lemma isEquals_operator (o : Operator) : (operator o).isEquals = o.isEquals := rfl

@[simp] lemma isTerm_term (t : Term) : (term t).isTerm = true := rfl

@[simp] lemma isTerm_operator (o : Operator) : (operator o).isTerm = false := rfl

@[simp] lemma isNamed_term (t : Term) : (term t).isNamed = t.quantity.isMultiple := rfl

@[simp] lemma isNamed_operator (o : Operator) : (operator o).isNamed = false := rfl

end Token

namespace Flags

/-- What is to be known of an equation from the tokens that there are of it. -/
def ofTokens (ts : List Token) : Flags where
  equalSign := ts.any Token.isEquals
  termBefore := (ts.takeWhile (!·.isEquals)).any Token.isTerm
  termAfter := (ts.dropWhile (!·.isEquals)).any Token.isTerm
  named := ts.any Token.isNamed

/-- What an equation lacks that goes no further: the first of its defects, or else the term behind
its last operator. -/
def lack (f : Flags) : Fault :=
  if !f.equalSign then .noEqualSign
  else if !f.termAfter then .noTermAfterEqualSign
  else if !f.named then .noVariable
  else .noTerm

variable {ts : List Token}

lemma split_concat (h : ts.any Token.isEquals = true) (t : Token) :
    (ts ++ [t]).takeWhile (!·.isEquals) = ts.takeWhile (!·.isEquals) ∧
      (ts ++ [t]).dropWhile (!·.isEquals) = ts.dropWhile (!·.isEquals) ++ [t] := by
  induction ts with
  | nil => exact nomatch h
  | cons u ts ih =>
    cases hu : u.isEquals with
    | true => simp [hu]
    | false =>
      rw [List.any_cons, hu, Bool.false_or] at h
      simpa [hu] using ih h

lemma split_concat_of_not (h : ts.any Token.isEquals = false) (t : Token) :
    (ts ++ [t]).takeWhile (!·.isEquals) = ts ++ [t].takeWhile (!·.isEquals) ∧
      (ts ++ [t]).dropWhile (!·.isEquals) = [t].dropWhile (!·.isEquals) := by
  have hall : ∀ u ∈ ts, (!u.isEquals) = true := by simpa using h
  exact ⟨List.takeWhile_append_of_pos hall, List.dropWhile_append_of_pos hall⟩

lemma takeWhile_of_not (h : ts.any Token.isEquals = false) :
    ts.takeWhile (!·.isEquals) = ts ∧ ts.dropWhile (!·.isEquals) = [] := by
  have hall : ∀ u ∈ ts, (!u.isEquals) = true := by simpa using h
  exact ⟨List.takeWhile_eq_self_iff.mpr hall, List.dropWhile_eq_nil_iff.mpr hall⟩

lemma ofTokens_concat_term (ts : List Token) (t : Term) :
    ofTokens (ts ++ [.term t]) = (ofTokens ts).addTerm t := by
  cases h : ts.any Token.isEquals with
  | true =>
    obtain ⟨htake, hdrop⟩ := split_concat h (.term t)
    simp [ofTokens, addTerm, htake, hdrop, h, -List.any_eq_true, -List.any_eq_false]
  | false =>
    obtain ⟨htake, hdrop⟩ := split_concat_of_not h (.term t)
    obtain ⟨htake', hdrop'⟩ := takeWhile_of_not h
    simp [ofTokens, addTerm, htake, hdrop, htake', hdrop', h, -List.any_eq_true, -List.any_eq_false]

lemma ofTokens_concat_operator (ts : List Token) (o : Operator) :
    ofTokens (ts ++ [.operator o]) = (ofTokens ts).addOperator o := by
  cases h : ts.any Token.isEquals with
  | true =>
    obtain ⟨htake, hdrop⟩ := split_concat h (.operator o)
    simp [ofTokens, addOperator, htake, hdrop, h, -List.any_eq_true, -List.any_eq_false]
  | false =>
    obtain ⟨htake, hdrop⟩ := split_concat_of_not h (.operator o)
    obtain ⟨htake', hdrop'⟩ := takeWhile_of_not h
    cases ho : o.isEquals <;>
      simp [ofTokens, addOperator, htake, hdrop, htake', hdrop', h, ho, -List.any_eq_true,
        -List.any_eq_false]

end Flags

/-- The flags of an equation that has come this far. -/
def Progress.flags (p : Progress) : Flags where
  equalSign := p.isRight
  termBefore := true
  termAfter := p.side == .right true
  named := p.named

def Phase.flags : Phase → Flags
  | start => {}
  | term p _ | operator p => p.flags

/-- Coherent flags can be told from the phase that they stand for. -/
lemma Marks.Coherent.flags_eq {m : Marks} (h : m.Coherent) : m.flags = m.phase.flags := by
  have hflags (hflight : m.flags.inFlight = true) : m.flags = m.progress.flags := by
    have hbefore := h.before hflight
    have hafter := h.after
    rw [Progress.flags, Marks.isRight_progress, Marks.progress]
    obtain ⟨turn, ⟨equalSign, termBefore, termAfter, named⟩, minus⟩ := m
    cases equalSign <;> cases termAfter <;> simp_all
  rw [Marks.phase]
  cases hturn : m.turn with
  | operator => exact hflags (h.behind_term hturn).1
  | term =>
    cases hflight : m.flags.inFlight with
    | true => exact hflags hflight
    | false => exact Flags.eq_default_of_not_inFlight hflight

lemma flags_addTerm {ph : Phase} {p : Progress} {minus : Bool} (due : ph.due = some (p, minus))
    (t : Term) : (p.addTerm t).flags = ph.flags.addTerm t := by
  cases ph with
  | operator p => exact nomatch due
  | start =>
    obtain ⟨rfl, rfl⟩ := Prod.mk.inj (Option.some.inj due)
    simp [Progress.start, Progress.addTerm, Progress.flags, Progress.isRight, Phase.flags,
      Flags.addTerm]
  | term p minus =>
    obtain ⟨rfl, rfl⟩ := Prod.mk.inj (Option.some.inj due)
    obtain ⟨side, named⟩ := p
    cases side <;> simp [Progress.addTerm, Progress.flags, Progress.isRight, Phase.flags,
      Flags.addTerm]

lemma flags_addOperator {p : Progress} {o : Operator}
    (first : o.isEquals = true → p.isRight = false) :
    (p.addOperator o).flags = p.flags.addOperator o := by
  obtain ⟨side, named⟩ := p
  cases ho : o.isEquals with
  | false => simp [Progress.addOperator, Flags.addOperator, ho, Progress.flags]
  | true =>
    cases side with
    | left => simp [Progress.addOperator, Flags.addOperator, ho, Progress.flags, Progress.isRight]
    | right filled => exact absurd (first ho) (by simp [Progress.isRight])

/-- Tokens taken from the start say all that there is to be known. -/
lemma flags_of_takes {ph : Phase} {ts : List Token} {es : List Entry}
    (h : Phase.start.Takes ts es ph) : ph.flags = .ofTokens ts := by
  induction ts using List.reverseRecOn generalizing es ph with
  | nil =>
    cases h
    rfl
  | append_singleton ts t ih =>
    obtain ⟨mid, es₁, es₂, hinit, hlast, -⟩ := takes_append.mp h
    cases hlast with
    | term due more =>
      cases more
      rw [Flags.ofTokens_concat_term, ← ih hinit]
      exact flags_addTerm due _
    | operator first more =>
      cases more
      rw [Flags.ofTokens_concat_operator, ← ih hinit]
      exact flags_addOperator first

/-! ### Runs without a fault -/

namespace Session

/-- No call fails. -/
def Passes (s : Session) : List Call → Prop
  | [] => True
  | c :: calls => (∃ status, (s.call c).2 = .ok status) ∧ (s.call c).1.Passes calls

/-- The lines behind the last complete equation, `before` being those up to now. -/
def openLines (s : Session) (before : List (List Char)) : List Call → List (List Char)
  | [] => before
  | .parse line :: calls =>
    (s.read line).session.openLines
      (if (s.read line).result = .ok .complete then [] else before ++ [line]) calls
  | .finish :: calls => s.finish.1.openLines before calls
  | .reset :: calls => s.reset.openLines [] calls

/-- The lines spell what there is of the equation at hand. -/
structure Stands (s : Session) (lines : List (List Char)) : Prop where
  spelled : ∃ tss es, List.Forall₂ (SpelledLine s.limits) tss lines ∧
    Phase.start.Takes tss.flatten es s.phase
  due : s.phase = .start ∨ ∃ p minus, s.phase = .term p minus
  length : lines ≠ [] → s.lineLength = (lines.getLastD []).length

variable {s : Session} {before : List (List Char)}

lemma stands_nil (hphase : s.phase = .start) : s.Stands [] :=
  ⟨⟨[], [], .nil, hphase ▸ .nil _⟩, .inl hphase, fun hne => absurd rfl hne⟩

lemma Stands.read (h : s.Stands before) {line : List Char} {e : LineEnd}
    (hread : (s.read line).result = .ok e) :
    (s.read line).session.Stands
      (if (s.read line).result = .ok .complete then [] else before ++ [line]) := by
  have hphase := s.phase_read line
  split_ifs at hphase ⊢ with hcomplete
  · exact stands_nil hphase
  · obtain ⟨ts, hline, htakes, -⟩ := exists_spelled_of_read hread
    obtain ⟨tss, es, hlines, hopen⟩ := h.spelled
    refine ⟨⟨tss ++ [ts], es ++ (s.read line).entries, ?_, ?_⟩, due_of_read hread, fun _ => ?_⟩
    · rw [limits_read]
      exact List.rel_append hlines (.cons hline .nil)
    · rw [hphase, List.flatten_append, List.flatten_singleton]
      exact takes_append.mpr ⟨_, _, _, hopen, htakes, rfl⟩
    · rw [lineLength_read, List.getLastD_concat]

lemma Stands.finish (h : s.Stands before) : s.finish.1.Stands before := by
  obtain ⟨hspelled, hdue, hlength⟩ := h
  refine ⟨?_, ?_, ?_⟩
  · rwa [Session.finish, limits_note, phase_note]
  · rwa [Session.finish, phase_note]
  · rwa [Session.finish, lineLength_note]

lemma Stands.after (h : s.Stands before) {calls : List Call} (hpass : s.Passes calls) :
    (s.after calls).Stands (s.openLines before calls) := by
  induction calls generalizing s before with
  | nil => exact h
  | cons c calls ih =>
    obtain ⟨⟨status, hok⟩, hpass⟩ := hpass
    cases c with
    | parse line =>
      cases hread : (s.read line).result with
      | error e => simp [call, hread, Except.map] at hok
      | ok e => exact ih (h.read hread) hpass
    | finish => exact ih h.finish hpass
    | reset => exact ih (stands_nil rfl) hpass

end Session

/-! ### Answers -/

section Except

variable {ε ε' β γ : Type} {x : Except ε β}

lemma map_eq_error {f : β → γ} {e : ε} (h : x.map f = .error e) : x = .error e := by
  cases x with
  | error e' => exact congrArg _ (Except.error.inj h)
  | ok b => exact nomatch h

lemma exists_of_map_eq_ok {f : β → γ} {c : γ} (h : x.map f = .ok c) : ∃ b, x = .ok b := by
  cases x with
  | error e => exact nomatch h
  | ok b => exact ⟨b, rfl⟩

lemma mapError_eq_error {f : ε → ε'} {e' : ε'} (h : x.mapError f = .error e') :
    ∃ e, x = .error e ∧ f e = e' := by
  cases x with
  | error e => exact ⟨e, rfl, Except.error.inj h⟩
  | ok b => exact nomatch h

end Except

lemma map_status_eq_noEquation_iff {r : Except ParseError LineEnd} :
    r.map LineEnd.status = .ok .noEquation ↔ r = .ok .blank := by
  rcases r with e | e
  · simp [Except.map]
  · cases e <;> simp [Except.map, LineEnd.status]

namespace Ledger

lemma fault_of_call {l : Ledger} {s : Session} (h : l.Tracks s) {c : Call} {e : ParseError}
    (he : (s.call c).2 = .error e) : e.fault ≠ .noTermBeforeEqualSign := by
  cases c with
  | parse line => exact (fault_of_read h (map_eq_error he)).1
  | finish => exact fault_of_finish (map_eq_error he)
  | reset => exact nomatch he

lemma finish_of_inFlight {l : Ledger} (h : l.marks.Coherent) (hturn : l.marks.turn = .term)
    (hflight : l.marks.flags.inFlight = true) :
    l.finish.2 = .error ⟨.fault l.marks.flags.lack, l.lineLength⟩ := by
  refine (if_pos ⟨hturn, hflight⟩).trans ?_
  rw [Flags.status, hflight, h.before hflight, Flags.lack]
  cases l.marks.flags.equalSign <;> cases l.marks.flags.termAfter <;>
    cases l.marks.flags.named <;> rfl

/-- **What is reported after any calls.** The flags stand for the phase of the session, and the
answers are those of the session. No report carries the status of a success or misses a term before
the equal sign, and none of a line misses one after it. There is no equation in a blank line where
none is at hand. A line without a fault stops where a term is due, with an equation at hand or
nothing noted. If no call has failed, the end of the input reports an equation at hand with what
its tokens lack, at the end of the last line. -/
theorem answers_of_calls (limits : Limits) (calls : List Call) :
    let l := (fresh limits).after calls
    let s := (Session.fresh limits).after calls
    let lines := (Session.fresh limits).openLines [] calls
    l.Tracks s ∧
      (∀ c, (l.call c).2 = (s.call c).2.mapError ParseError.report) ∧
      (∀ c r, (l.call c).2 = .error r →
        r.status.isSuccess = false ∧ r.status ≠ .fault .noTermBeforeEqualSign) ∧
      (∀ line r, (l.parse line).2 = .error r → r.status ≠ .fault .noTermAfterEqualSign) ∧
      (∀ line, (l.parse line).2 = .ok .noEquation ↔
        IsBlank line ∧ l.marks.flags.inFlight = false) ∧
      (∀ line status, (l.parse line).2 = .ok status →
        (l.parse line).1.marks.turn = .term ∧
          ((l.parse line).1.marks.flags.inFlight = true ∨
            (l.parse line).1.marks.flags = {} ∧ (l.parse line).1.marks.minus = false)) ∧
      ((Session.fresh limits).Passes calls →
        ∃ tss, List.Forall₂ (SpelledLine limits) tss lines ∧
          l.marks.flags = .ofTokens tss.flatten ∧
          l.finish.2 =
            if l.marks.flags.inFlight then
              .error ⟨.fault l.marks.flags.lack, (lines.getLastD []).length⟩
            else .ok .success) := by
  intro l s lines
  have htracks : l.Tracks s := (tracks_fresh limits).after calls
  have hcall (c : Call) := (htracks.call c).1
  have hparse (line : List Char) := (htracks.parse line).1
  refine ⟨htracks, hcall, fun c r hr => ?_, fun line r hr => ?_, fun line => ?_,
    fun line status hok => ?_, fun hpass => ?_⟩
  · obtain ⟨e, he, rfl⟩ := mapError_eq_error ((hcall c).symm.trans hr)
    exact ⟨rfl, fun hf => fault_of_call htracks he (Status.fault.inj hf)⟩
  · obtain ⟨e, he, rfl⟩ := mapError_eq_error ((hparse line).symm.trans hr)
    exact fun hf => (fault_of_read htracks (map_eq_error he)).2 (Status.fault.inj hf)
  · rw [hparse, mapError_eq_ok_iff, map_status_eq_noEquation_iff, read_eq_blank_iff,
      ← htracks.phase_eq, Marks.phase_eq_start_iff]
    refine and_congr_right fun _ => ⟨And.right, fun hflight => ⟨?_, hflight⟩⟩
    cases hturn : l.marks.turn with
    | term => rfl
    | operator =>
      have := (htracks.coherent.behind_term hturn).1
      exact absurd (hflight.symm.trans this) Bool.false_ne_true
  · rw [hparse, mapError_eq_ok_iff] at hok
    obtain ⟨e, he⟩ := exists_of_map_eq_ok hok
    have hlater := (htracks.parse line).2
    exact Marks.settled_of_phase hlater.coherent (hlater.phase_eq ▸ due_of_read he)
  · have hstands : s.Stands lines := (Session.stands_nil rfl).after hpass
    obtain ⟨tss, es, hspelled, htakes⟩ := hstands.spelled
    have hflags : l.marks.flags = .ofTokens tss.flatten := by
      rw [htracks.coherent.flags_eq, htracks.phase_eq, flags_of_takes htakes]
    have hlimits : s.limits = limits := Session.limits_after _ _
    rw [hlimits] at hspelled
    refine ⟨tss, hspelled, hflags, ?_⟩
    split_ifs with hflight
    · have hne : lines ≠ [] := by
        rintro hnil
        rw [hnil, List.forall₂_nil_right_iff] at hspelled
        rw [hflags, hspelled] at hflight
        exact absurd hflight (by decide)
      rw [← hstands.length hne, ← htracks.lineLength_eq]
      exact finish_of_inFlight htracks.coherent
        (Marks.settled_of_phase htracks.coherent (htracks.phase_eq ▸ hstands.due)).1 hflight
    · exact if_neg fun h => hflight h.2

end Ledger

end Simultaneous.Equation
