import Mathlib
import Simultaneous.Equation.Session
import Simultaneous.Proofs.Tokens

/-!
Reading lines.

Tokens take a session from phase to phase, whatever text they are spelled by. The scan of a line
finds no fault just if the line spells tokens that can be taken in turn, and it then makes the
entries that they make and stops in the phase where they lead.
-/

namespace Simultaneous.Equation

open Text (isBlank skipBlanks)

/-! ### Phases -/

/-- What a term is added to, and whether its sign is turned, if a term is due. -/
def Phase.due : Phase → Option (Progress × Bool)
  | start => some (.start, false)
  | term progress minus => some (progress, minus)
  | operator _ => none

/-- The tokens can be taken in turn, make the entries, and lead to the last phase. -/
inductive Phase.Takes : Phase → List Token → List Entry → Phase → Prop where
  | nil (ph : Phase) : Takes ph [] [] ph
  | term {ph next : Phase} {p : Progress} {minus : Bool} {t : Term} {ts : List Token}
    {es : List Entry} (due : ph.due = some (p, minus))
    (more : Takes (.operator (p.addTerm t)) ts es next) :
    Takes ph (.term t :: ts) (.ofTerm p minus t :: es) next
  | operator {p : Progress} {next : Phase} {o : Operator} {ts : List Token} {es : List Entry}
    (first : o.isEquals = true → p.isRight = false)
    (more : Takes (.term (p.addOperator o) o.isMinus) ts es next) :
    Takes (.operator p) (.operator o :: ts) es next

lemma takes_append {ph next : Phase} {ts us : List Token} {es : List Entry} :
    ph.Takes (ts ++ us) es next ↔
      ∃ mid es₁ es₂, ph.Takes ts es₁ mid ∧ mid.Takes us es₂ next ∧ es = es₁ ++ es₂ := by
  induction ts generalizing ph es with
  | nil =>
    refine ⟨fun h => ⟨ph, [], es, .nil ph, h, rfl⟩, ?_⟩
    rintro ⟨mid, es₁, es₂, h₁, h₂, rfl⟩
    cases h₁
    exact h₂
  | cons t ts ih =>
    refine ⟨fun h => ?_, ?_⟩
    · cases h with
      | term due more =>
        obtain ⟨mid, es₁, es₂, h₁, h₂, rfl⟩ := ih.mp more
        exact ⟨mid, _ :: es₁, es₂, .term due h₁, h₂, rfl⟩
      | operator first more =>
        obtain ⟨mid, es₁, es₂, h₁, h₂, rfl⟩ := ih.mp more
        exact ⟨mid, es₁, es₂, .operator first h₁, h₂, rfl⟩
    · rintro ⟨mid, es₁, es₂, h₁, h₂, rfl⟩
      cases h₁ with
      | term due more => exact .term due (ih.mpr ⟨mid, _, es₂, more, h₂, rfl⟩)
      | operator first more => exact .operator first (ih.mpr ⟨mid, _, es₂, more, h₂, rfl⟩)

/-- Behind an operator a term is due, and behind a term none. -/
lemma takes_snoc_operator {ph next : Phase} {ts : List Token} {es : List Entry} {o : Operator}
    (h : ph.Takes (ts ++ [.operator o]) es next) : ∃ p, next = .term p o.isMinus := by
  obtain ⟨mid, es₁, es₂, -, hlast, -⟩ := takes_append.mp h
  cases hlast with
  | operator _ more =>
  cases more
  exact ⟨_, rfl⟩

lemma takes_snoc_term {ph next : Phase} {ts : List Token} {es : List Entry} {t : Term}
    (h : ph.Takes (ts ++ [.term t]) es next) : ∃ p, next = .operator p := by
  obtain ⟨mid, es₁, es₂, -, hlast, -⟩ := takes_append.mp h
  cases hlast with
  | term _ more =>
  cases more
  exact ⟨_, rfl⟩

lemma eq_nil_of_takes_start {ph : Phase} {ts : List Token} {es : List Entry}
    (h : ph.Takes ts es .start) : ts = [] := by
  obtain rfl | ⟨us, t, rfl⟩ := List.eq_nil_or_concat' ts
  · rfl
  · cases t with
    | term t => exact nomatch (takes_snoc_term h).choose_spec
    | operator o => exact nomatch (takes_snoc_operator h).choose_spec

/-- Only nothing leads to the start of an equation, and only from there. -/
lemma eq_of_takes_start {ph : Phase} {ts : List Token} {es : List Entry}
    (h : ph.Takes ts es .start) : ph = .start ∧ ts = [] ∧ es = [] := by
  obtain rfl := eq_nil_of_takes_start h
  cases h
  exact ⟨rfl, rfl, rfl⟩

lemma exists_snoc_operator {ph : Phase} {ts : List Token} {es : List Entry} {p : Progress}
    {minus : Bool} (h : ph.Takes ts es (.term p minus)) :
    (ts = [] ∧ es = [] ∧ ph = .term p minus) ∨ ∃ us o, ts = us ++ [.operator o] := by
  obtain rfl | ⟨us, t, rfl⟩ := List.eq_nil_or_concat' ts
  · cases h
    exact .inl ⟨rfl, rfl, rfl⟩
  · cases t with
    | term t => exact nomatch (takes_snoc_term h).choose_spec
    | operator o => exact .inr ⟨us, o, rfl⟩

lemma exists_snoc_term {ph : Phase} {ts : List Token} {es : List Entry} {p : Progress}
    (hdue : ph.due.isSome = true) (h : ph.Takes ts es (.operator p)) :
    ∃ us t, ts = us ++ [.term t] := by
  obtain rfl | ⟨us, t, rfl⟩ := List.eq_nil_or_concat' ts
  · cases h
    exact nomatch hdue
  · cases t with
    | term t => exact ⟨us, t, rfl⟩
    | operator o => exact nomatch (takes_snoc_operator h).choose_spec

lemma lineEnd_eq_ok {ph : Phase} {e : LineEnd} (h : ph.lineEnd = .ok e) :
    (ph = .start ∧ e = .blank) ∨ (∃ p minus, ph = .term p minus ∧ e = .continued) ∨
      ∃ p, ph = .operator p ∧ p.defect = none ∧ e = .complete := by
  cases ph with
  | start => exact .inl ⟨rfl, (Except.ok.inj h).symm⟩
  | term p minus => exact .inr (.inl ⟨p, minus, rfl, (Except.ok.inj h).symm⟩)
  | operator p =>
    cases hp : p.defect with
    | some f => simp [Phase.lineEnd, hp] at h
    | none =>
      rw [Phase.lineEnd, hp] at h
      exact .inr (.inr ⟨p, rfl, hp, (Except.ok.inj h).symm⟩)

variable {limits : Limits}

lemma step_of_due {ph : Phase} {p : Progress} {minus : Bool} (due : ph.due = some (p, minus))
    (cs : List Char) : ph.step limits cs = Phase.step.term limits p minus cs := by
  cases ph with
  | operator _ => exact nomatch due
  | start | term _ _ =>
    obtain ⟨rfl, rfl⟩ := Prod.mk.inj (Option.some.inj due)
    rfl

lemma step_due_iff {ph next : Phase} {p : Progress} {minus : Bool} {cs rest : List Char}
    {entry : Option Entry} (due : ph.due = some (p, minus)) :
    ph.step limits cs = .ok ((entry, next), rest) ↔
      ∃ t, readTerm limits cs = .ok (t, rest) ∧ entry = some (.ofTerm p minus t) ∧
        next = .operator (p.addTerm t) := by
  rw [step_of_due due, Phase.step.term, bind_eq_ok]
  refine ⟨?_, ?_⟩
  · rintro ⟨⟨t, after⟩, ht, h⟩
    simp only [pure, Except.pure, Except.ok.injEq, Prod.mk.injEq] at h
    obtain ⟨⟨rfl, rfl⟩, rfl⟩ := h
    exact ⟨t, ht, rfl, rfl⟩
  · rintro ⟨t, ht, rfl, rfl⟩
    exact ⟨(t, rest), ht, rfl⟩

lemma step_operator_iff {p : Progress} {next : Phase} {cs rest : List Char}
    {entry : Option Entry} :
    (Phase.operator p).step limits cs = .ok ((entry, next), rest) ↔
      ∃ o, readOperator cs = some (o, rest) ∧ (o.isEquals = true → p.isRight = false) ∧
        entry = none ∧ next = .term (p.addOperator o) o.isMinus := by
  simp only [Phase.step]
  cases hr : readOperator cs with
  | none => simp
  | some r =>
    obtain ⟨o, after⟩ := r
    dsimp only
    split_ifs with hsecond
    · refine ⟨fun h => (nomatch h), ?_⟩
      rintro ⟨o', ho, hfirst, -, -⟩
      obtain ⟨rfl, rfl⟩ := Prod.mk.inj (Option.some.inj ho)
      rw [Bool.and_eq_true] at hsecond
      exact absurd hsecond.2 (Bool.eq_false_iff.mp (hfirst hsecond.1))
    · refine ⟨fun h => ?_, ?_⟩
      · simp only [Except.ok.injEq, Prod.mk.injEq] at h
        obtain ⟨⟨rfl, rfl⟩, rfl⟩ := h
        exact ⟨o, rfl, fun ho => by simpa [ho] using hsecond, rfl, rfl⟩
      · rintro ⟨o', ho, -, rfl, rfl⟩
        obtain ⟨rfl, rfl⟩ := Prod.mk.inj (Option.some.inj ho)
        rfl

/-! ### Scans -/

lemma scan_congr {ph : Phase} {cs ds : List Char} (h : skipBlanks cs = skipBlanks ds) :
    scan limits ph cs = scan limits ph ds := by
  by_cases hne : skipBlanks cs = []
  · rw [scan_of_blank hne, scan_of_blank (h ▸ hne)]
  · cases hs : ph.step limits (skipBlanks cs) with
    | error o =>
      exact (scan_of_error hne hs).trans (scan_of_error (h ▸ hne) (h ▸ hs)).symm
    | ok r =>
      obtain ⟨⟨entry, next⟩, rest⟩ := r
      exact (scan_of_ok hne hs).trans (scan_of_ok (h ▸ hne) (h ▸ hs)).symm

lemma SpelledLine.append_blank {ts : List Token} {bs cs : List Char} (hb : IsBlank bs)
    (h : SpelledLine limits ts cs) : SpelledLine limits ts (bs ++ cs) := by
  cases h with
  | nil blank => exact .nil (hb.append blank)
  | cons blank token more =>
    rw [← List.append_assoc, ← List.append_assoc]
    exact .cons (hb.append blank) token more

lemma SpelledLine.append {ts us : List Token} {cs ds : List Char} (h : SpelledLine limits ts cs)
    (h' : SpelledLine limits us ds) : SpelledLine limits (ts ++ us) (cs ++ ds) := by
  induction h with
  | nil blank => exact h'.append_blank blank
  | cons blank token more ih =>
    rw [List.append_assoc]
    exact .cons blank token ih

lemma Token.Spelled.line {t : Token} {cs : List Char} (h : t.Spelled limits cs) :
    SpelledLine limits [t] cs := by
  have hline := SpelledLine.cons isBlank_nil h (.nil isBlank_nil)
  rwa [List.nil_append, List.append_nil] at hline

/-- A step takes one token, and perhaps white space behind it. -/
lemma spelled_of_step {ph next : Phase} {cs rest : List Char} {entry : Option Entry}
    (h : ph.step limits cs = .ok ((entry, next), rest)) :
    ∃ t text, cs = text ++ rest ∧ SpelledLine limits [t] text ∧ ph.Takes [t] entry.toList next := by
  cases hdue : ph.due with
  | some due =>
    obtain ⟨t, ht, rfl, rfl⟩ := (step_due_iff hdue).mp h
    obtain ⟨text, bs, hspelled, hbs, htext⟩ := spelled_of_readTerm ht
    refine ⟨.term t, text ++ bs, htext, ?_, .term hdue (.nil _)⟩
    exact (Token.Spelled.term hspelled).line.append (.nil hbs)
  | none =>
    cases ph with
    | start | term _ _ => exact nomatch hdue
    | operator p =>
      obtain ⟨o, ho, hfirst, rfl, rfl⟩ := step_operator_iff.mp h
      exact ⟨.operator o, o.text, eq_of_readOperator ho, (Token.Spelled.operator o).line,
        .operator hfirst (.nil _)⟩

/-- **Soundness**: a scan has read tokens that can be taken in turn, to the end of the line or to
the fault in front of which it stands. -/
lemma exists_spelled_front (limits : Limits) (ph : Phase) (cs : List Char) :
    ∃ ts front rest, cs = front ++ rest ∧ SpelledLine limits ts front ∧
      ph.Takes ts (scan limits ph cs).entries (scan limits ph cs).phase ∧
      match (scan limits ph cs).offence with
      | none => rest = []
      | some o => (scan limits ph cs).phase.step limits rest = .error o := by
  -- the scan goes on with a shorter text after each token
  induction hn : cs.length using Nat.strong_induction_on generalizing ph cs with
  | _ n ih =>
    obtain ⟨bs, hbs, hcs⟩ := exists_eq_append_skipBlanks cs
    by_cases hne : skipBlanks cs = []
    · rw [scan_of_blank hne]
      rw [hne] at hcs
      exact ⟨[], bs, [], hcs, .nil hbs, .nil ph, rfl⟩
    cases hs : ph.step limits (skipBlanks cs) with
    | error o =>
      rw [scan_of_error hne hs]
      exact ⟨[], bs, skipBlanks cs, hcs, .nil hbs, .nil ph, hs⟩
    | ok r =>
      obtain ⟨⟨entry, mid⟩, after⟩ := r
      rw [scan_of_ok hne hs]
      have hlt : after.length < n :=
        hn ▸ ((Phase.suffix_of_step hs).2.trans_le (Text.length_skipBlanks_le cs))
      obtain ⟨ts, front, rest, hafter, hline, htakes, hend⟩ := ih _ hlt mid after rfl
      obtain ⟨t, text, htext, htoken, htake⟩ := spelled_of_step hs
      refine ⟨[t] ++ ts, bs ++ (text ++ front), rest, ?_, (htoken.append hline).append_blank hbs,
        takes_append.mpr ⟨mid, _, _, htake, htakes, rfl⟩, hend⟩
      rw [List.append_assoc, List.append_assoc, ← hafter, ← htext]
      exact hcs

/-- A line that is scanned without a fault spells tokens that can be taken in turn. -/
lemma exists_spelled_of_scan {ph : Phase} {cs : List Char}
    (h : (scan limits ph cs).offence = none) :
    ∃ ts, SpelledLine limits ts cs ∧
      ph.Takes ts (scan limits ph cs).entries (scan limits ph cs).phase := by
  obtain ⟨ts, front, rest, hcs, hline, htakes, hrest⟩ := exists_spelled_front limits ph cs
  rw [h] at hrest
  subst hrest
  rw [List.append_nil] at hcs
  exact ⟨ts, hcs ▸ hline, htakes⟩

/-! ### Completeness -/

lemma operatorNext_of_takes {p : Progress} {next : Phase} {ts : List Token} {es : List Entry}
    {cs rest : List Char} (hline : SpelledLine limits ts cs)
    (htakes : (Phase.operator p).Takes ts es next) (hnext : next.due = none → OperatorNext rest) :
    OperatorNext (cs ++ rest) := by
  cases hline with
  | nil blank =>
    cases htakes
    rw [OperatorNext, skipBlanks_append blank]
    exact hnext rfl
  | @cons t ts bs ds more blank token =>
    cases htakes with
    | term due _ => exact nomatch due
    | @operator _ _ o _ _ first _ =>
      cases token
      obtain ⟨c, tail, htext, hc⟩ := o.text_eq_cons
      rw [OperatorNext, List.append_assoc, List.append_assoc, skipBlanks_append blank,
        skipBlanks_of_stops (o.stops_blank (more ++ rest)), htext]
      exact stops_cons (by simp [hc])

/-- A spelled term starts, after white space, with text that spells the same term. -/
lemma Term.Spelled.skipBlanks_append {t : Term} {cs : List Char} (h : t.Spelled limits cs)
    (rest : List Char) :
    ∃ ds, skipBlanks (cs ++ rest) = ds ++ rest ∧ t.Spelled limits ds ∧ ds ++ rest ≠ [] := by
  obtain @⟨q, bs, ds, s, blank, quantity⟩ := h
  cases s with
  | none =>
    refine ⟨ds, ?_, Term.Spelled.mk none isBlank_nil quantity, by simp [quantity.ne_nil]⟩
    rw [signText, List.nil_append, List.append_assoc, Equation.skipBlanks_append blank,
      skipBlanks_of_stops (quantity.stops_blank rest)]
  | some s =>
    refine ⟨signText (some s) ++ bs ++ ds, skipBlanks_of_stops ?_, .mk _ blank quantity, ?_⟩
    · cases s <;> exact stops_cons (by decide)
    · cases s <;> simp [signText]

lemma exists_sign_of_not_stops {cs : List Char} (h : ¬Stops isSignChar cs) :
    ∃ s rest, cs = signText (some s) ++ rest := by
  rw [Stops] at h
  push Not at h
  obtain ⟨c, rest, rfl, hc⟩ := h
  have hc : c = '+' ∨ c = '-' := by
    simpa [isSignChar, or_iff_not_imp_left] using hc
  rcases hc with rfl | rfl
  · exact ⟨.plus, rest, rfl⟩
  · exact ⟨.minus, rest, rfl⟩

lemma signText_inj {s s' : Option Sign} (h : signText s = signText s') : s = s' := by
  revert h
  rcases s with _ | _ | _ <;> rcases s' with _ | _ | _ <;> decide

/-- A sign at the front of a line that is due a term is the sign of that term. -/
lemma SpelledLine.detach_sign {s : Sign} {t : Term} {ts : List Token} {cs : List Char}
    (h : SpelledLine limits (.term t :: ts) (signText (some s) ++ cs)) :
    t.sign = some s ∧ SpelledLine limits (.term ⟨none, t.quantity⟩ :: ts) cs := by
  obtain ⟨c, hc, hsign⟩ : ∃ c, signText (some s) = [c] ∧ isSignChar c = true := by
    cases s <;> exact ⟨_, rfl, rfl⟩
  generalize htext : signText (some s) ++ cs = text at h
  rw [hc, List.singleton_append] at htext
  cases h with
  | @cons _ _ bs ds rest blank token more =>
  cases token with
  | term spelled =>
  obtain @⟨q, bs', qs, s', blank', quantity⟩ := spelled
  cases bs with
  | cons b bs =>
    obtain ⟨rfl, -⟩ := List.cons.inj htext
    have hblank : isSignChar c = false :=
      isSignChar_eq_false (by decide) (by decide) (blank c (.head _))
    exact absurd (hblank.symm.trans hsign) Bool.false_ne_true
  | nil =>
  cases s' with
  | none =>
    have hstop := quantity.stops_sign blank' rest c cs htext.symm
    exact absurd (hstop.symm.trans hsign) Bool.false_ne_true
  | some s' =>
    obtain ⟨c', hc', -⟩ : ∃ c, signText (some s') = [c] ∧ isSignChar c = true := by
      cases s' <;> exact ⟨_, rfl, rfl⟩
    rw [hc'] at htext
    simp only [List.nil_append, List.cons_append, List.cons.injEq] at htext
    obtain ⟨rfl, rfl⟩ := htext
    refine ⟨signText_inj (hc'.trans hc.symm), ?_⟩
    exact .cons blank' (.term (Term.Spelled.mk none isBlank_nil quantity)) more

/-- An equal sign may take the sign of the term behind it: the term makes the same entry. -/
lemma takes_shift_sign {p : Progress} {next : Phase} {s : Sign} {q : Quantity} {ts : List Token}
    {es : List Entry}
    (h : (Phase.term (p.addOperator (.equals none)) (Operator.equals none).isMinus).Takes
      (.term ⟨some s, q⟩ :: ts) es next) :
    (Phase.term (p.addOperator (.equals (some s))) (Operator.equals (some s)).isMinus).Takes
      (.term ⟨none, q⟩ :: ts) es next := by
  cases h with
  | @term _ _ p' minus _ _ es due more =>
    obtain ⟨rfl, rfl⟩ := Prod.mk.inj (Option.some.inj due)
    have hentry : Entry.ofTerm (p.addOperator (.equals none)) (Operator.equals none).isMinus
        ⟨some s, q⟩ = Entry.ofTerm (p.addOperator (.equals (some s)))
          (Operator.equals (some s)).isMinus ⟨none, q⟩ := by
      cases s <;> simp [Entry.ofTerm, Operator.isMinus, Progress.addOperator, Operator.isEquals]
    rw [hentry]
    exact .term rfl more

/-- An operator is read as it is spelled, or else with the sign of the term behind it, which then
has none. What follows the line does not matter, unless it is another sign. -/
lemma exists_readOperator {p : Progress} {next : Phase} {o : Operator} {ts : List Token}
    {es : List Entry} {cs rest : List Char} (hline : SpelledLine limits ts cs)
    (htakes : (Phase.term (p.addOperator o) o.isMinus).Takes ts es next)
    (hrest : Stops isSignChar rest) :
    ∃ o' us after, readOperator (o.text ++ (cs ++ rest)) = some (o', after ++ rest) ∧
      o'.isEquals = o.isEquals ∧ us.length = ts.length ∧ SpelledLine limits us after ∧
      (Phase.term (p.addOperator o') o'.isMinus).Takes us es next := by
  cases o with
  | sign s => exact ⟨.sign s, ts, cs, readOperator_sign s _, rfl, rfl, hline, htakes⟩
  | equals s =>
  by_cases hstop : s = none → Stops isSignChar cs
  · refine ⟨.equals s, ts, cs, readOperator_equals s fun hs => ?_, rfl, rfl, hline, htakes⟩
    cases cs with
    | nil => exact hrest
    | cons c cs => exact stops_append (List.cons_ne_nil c cs) (hstop hs)
  obtain ⟨rfl, hsign⟩ := Classical.not_imp.mp hstop
  obtain ⟨s, after, rfl⟩ := exists_sign_of_not_stops hsign
  cases htakes with
  | nil =>
    cases hline with
    | nil blank => cases s <;> exact absurd (blank _ (.head _)) (by decide)
  | @term _ _ _ _ t us es due more =>
    obtain ⟨hs, hdetached⟩ := hline.detach_sign
    obtain ⟨s', q⟩ := t
    obtain rfl : s' = some s := hs
    have hread :
        readOperator ((Operator.equals none).text ++ (signText (some s) ++ after ++ rest)) =
          some (.equals (some s), after ++ rest) := by
      rw [List.append_assoc]
      exact readOperator_equals (some s) (fun h => nomatch h)
    exact ⟨.equals (some s), .term ⟨none, q⟩ :: us, after, hread, rfl, rfl, hdetached,
      takes_shift_sign (.term due more)⟩

/-- **Completeness**: a scan makes the entries of the tokens that the front of its line spells, and
goes on in the phase where they lead. White space must follow the tokens, and an operator behind
that if they stop after a term. -/
lemma scan_append_of_spelled {ph next : Phase} {ts : List Token} {cs rest : List Char}
    {es : List Entry} (hline : SpelledLine limits ts cs) (htakes : ph.Takes ts es next)
    (hrest : Stops (fun c => !isBlank c) rest) (hnext : next.due = none → OperatorNext rest) :
    scan limits ph (cs ++ rest) =
      { scan limits next rest with entries := es ++ (scan limits next rest).entries } := by
  have hsigns : Stops isSignChar rest := fun c tail h =>
    isSignChar_eq_false (p := isBlank) (by decide) (by decide) (by simpa using hrest c tail h)
  -- by the number of tokens: an operator that takes the sign of a term leaves another term
  induction hn : ts.length using Nat.strong_induction_on generalizing ph ts cs es with
  | _ n ih =>
    cases htakes with
    | nil =>
      cases hline with
      | nil blank => exact scan_congr (skipBlanks_append blank rest)
    | @term _ _ p minus t ts es due more =>
      cases hline with
      | @cons _ _ bs ds cs blank token tail =>
      cases token with
      | term spelled =>
      obtain ⟨ds', hskip, hspelled, hne⟩ := spelled.skipBlanks_append (cs ++ rest)
      obtain ⟨after, hread, hafter⟩ :=
        readTerm_append hspelled (operatorNext_of_takes tail more hnext)
      have hcs : skipBlanks (bs ++ ds ++ cs ++ rest) = ds' ++ (cs ++ rest) := by
        rw [List.append_assoc, List.append_assoc, skipBlanks_append blank, hskip]
      rw [scan_of_ok (hcs ▸ hne) (hcs ▸ (step_due_iff due).mpr ⟨t, hread, rfl, rfl⟩),
        scan_congr hafter, ih _ (hn ▸ Nat.lt_succ_self _) tail more rfl]
      rfl
    | @operator p _ o ts es first more =>
      cases hline with
      | @cons _ _ bs ds cs blank token tail =>
      cases token with
      | operator =>
      obtain ⟨o', us, after, hread, hequals, hlen, hus, hmore⟩ :=
        exists_readOperator tail more hsigns
      have hcs : skipBlanks (bs ++ o.text ++ cs ++ rest) = o.text ++ (cs ++ rest) := by
        rw [List.append_assoc, List.append_assoc, skipBlanks_append blank,
          skipBlanks_of_stops (o.stops_blank (cs ++ rest))]
      have hne : skipBlanks (bs ++ o.text ++ cs ++ rest) ≠ [] := by
        obtain ⟨c, text, htext, -⟩ := o.text_eq_cons
        rw [hcs, htext]
        exact List.cons_ne_nil _ _
      rw [scan_of_ok hne (hcs ▸ step_operator_iff.mpr ⟨o', hread, hequals ▸ first, rfl, rfl⟩),
        ih _ (hn ▸ hlen ▸ Nat.lt_succ_self _) hus hmore rfl]
      rfl

/-- A line that is spelled by tokens has no fault. -/
lemma scan_of_spelled {ph next : Phase} {ts : List Token} {cs : List Char} {es : List Entry}
    (hline : SpelledLine limits ts cs) (htakes : ph.Takes ts es next) :
    scan limits ph cs = ⟨es, next, none⟩ := by
  have h := scan_append_of_spelled hline htakes stops_nil fun _ => stops_nil
  rwa [List.append_nil, scan_of_blank Text.skipBlanks_nil, List.append_nil] at h

end Simultaneous.Equation
