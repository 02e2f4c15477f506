import Mathlib
import Simultaneous.Proofs.Calls
import Simultaneous.Proofs.Readers

/-!
Wider limits.

A limit does nothing but refuse a literal that is longer. Two readings of one line, the second under
wider limits, go side by side up to the first such refusal: the limit on numbers is looked at once
for each digit and once for the whole run, and what was let through under the narrower limit is let
through under the wider one in both places.
-/

namespace Simultaneous

open Equation
open Number (OfDecimal)
open Text (skipBlanks)

namespace Equation

/-- Limits are compared part by part. -/
instance : LE Limits where
  le l w := l.numberLength ≤ w.numberLength ∧ l.exponentLength ≤ w.exponentLength

instance (l w : Limits) : Decidable (l ≤ w) :=
  inferInstanceAs (Decidable (_ ∧ _))

/-- The faults under which a literal that is too long is reported. An exponent with a point in it is
reported under the same one. -/
def Fault.IsExcess (f : Fault) : Prop := f = .tooManyDigits ∨ f = .illegalExponent

/-! ### Readers -/

section Readers

open Reader

variable {β γ : Type}

/-- The second reader does what the first one does, unless that finds a literal too long. -/
def WidensFor (R R' : Reader β) (cs : List Char) : Prop :=
  R' cs = R cs ∨ ∃ o, R cs = .error o ∧ o.fault.IsExcess

def Widens (R R' : Reader β) : Prop := ∀ cs, WidensFor R R' cs

variable {R R' S S' : Reader β}

lemma widens_refl (R : Reader β) : Widens R R := fun _ => Or.inl rfl

lemma WidensFor.andThen {K K' : β → Reader γ} {cs : List Char} (h : WidensFor R R' cs)
    (hK : ∀ b rest, R cs = .ok (b, rest) → WidensFor (K b) (K' b) rest) :
    WidensFor (R.andThen K) (R'.andThen K') cs := by
  rcases h with heq | ⟨o, ho, hexcess⟩
  · cases hR : R cs with
    | error o =>
      left
      rw [andThen_of_error hR, andThen_of_error (heq.trans hR)]
    | ok r =>
      obtain ⟨b, rest⟩ := r
      have hrest := hK b rest hR
      unfold WidensFor at hrest ⊢
      rwa [andThen_of_ok hR, andThen_of_ok (heq.trans hR)]
  · exact Or.inr ⟨o, andThen_of_error ho, hexcess⟩

lemma Widens.andThen {K K' : β → Reader γ} (h : Widens R R') (hK : ∀ b, Widens (K b) (K' b)) :
    Widens (R.andThen K) (R'.andThen K') :=
  fun cs => (h cs).andThen fun b rest _ => hK b rest

lemma Widens.ifNext {c : Char} (hR : Widens R R') (hS : Widens S S') :
    Widens (ifNext c R S) (ifNext c R' S') := by
  intro cs
  unfold WidensFor Reader.ifNext ifAt
  split_ifs
  · exact hR cs.tail
  · exact hS cs

variable {limit wider : ℕ}

/-- The digits that are let through are counted alike. -/
lemma widens_readRun (h : limit ≤ wider) (digits : ℕ) (pointed : Bool) :
    Widens (readRun limit digits pointed) (readRun wider digits pointed) := by
  intro cs
  induction cs generalizing digits pointed with
  | nil => exact Or.inl rfl
  | cons c cs ih =>
    have hcons (digits : ℕ) (pointed : Bool) :=
      (ih digits pointed).andThen (K := fun run => done (c :: run)) fun run rest _ =>
        widens_refl _ rest
    unfold WidensFor
    simp only [readRun]
    by_cases hdigit : c.isDigit = true
    · rw [if_pos hdigit, if_pos hdigit]
      by_cases hlimit : digits < limit
      · have hwider : digits < wider := by omega
        rw [if_pos hlimit, if_pos hwider]
        exact hcons (digits + 1) pointed
      · rw [if_neg hlimit]
        exact Or.inr ⟨_, rfl, Or.inl rfl⟩
    · rw [if_neg hdigit, if_neg hdigit]
      split_ifs
      · exact Or.inl rfl
      · exact hcons digits true
      · exact Or.inl rfl

/-- A run that is let through is let through as a whole, too. -/
lemma widens_readMantissa (h : limit ≤ wider) :
    Widens (readMantissa limit) (readMantissa wider) := by
  intro cs
  unfold WidensFor
  rcases widens_readRun h 0 false cs with heq | ⟨o, ho, hexcess⟩
  · cases hrun : readRun limit 0 false cs with
    | error o =>
      left
      rw [readMantissa_of_error hrun, readMantissa_of_error (heq.trans hrun)]
    | ok r =>
      obtain ⟨run, rest⟩ := r
      rw [readMantissa_of_ok hrun, readMantissa_of_ok (heq.trans hrun)]
      by_cases hlength : limit < run.length
      · rw [if_pos hlength]
        exact Or.inr ⟨_, rfl, Or.inl rfl⟩
      · have hwider : ¬wider < run.length := by omega
        rw [if_neg hlength, if_neg hwider]
        exact Or.inl rfl
  · exact Or.inr ⟨o, readMantissa_of_error ho, hexcess⟩

lemma widens_readExponent (h : limit ≤ wider) :
    Widens (readExponent limit) (readExponent wider) := by
  rw [readExponent_eq, readExponent_eq]
  apply (widens_refl sign).andThen
  intro s
  apply (widens_refl (run isRunChar)).andThen
  intro digits
  split_ifs with hempty hnarrow hwide hwide
  · exact widens_refl _
  · exact widens_refl _
  · exact fun cs => Or.inr ⟨_, rfl, Or.inr rfl⟩
  · -- what is refused under the wider limit is refused under the narrower one
    rw [Bool.or_eq_true, decide_eq_true_eq, not_or, not_lt] at hnarrow
    rw [Bool.or_eq_true, decide_eq_true_eq] at hwide
    rcases hwide with hlong | hpoint
    · omega
    · exact absurd hpoint hnarrow.2
  · exact widens_refl _

variable {limits limits' : Limits}

lemma widens_readLiteral (h : limits ≤ limits') :
    Widens (readLiteral limits) (readLiteral limits') := by
  rw [readLiteral_eq, readLiteral_eq]
  apply (widens_readMantissa h.1).andThen
  intro mantissa
  split_ifs
  · exact widens_refl _
  · apply Widens.ifNext _ (widens_refl _)
    exact (widens_readExponent h.2).andThen fun _ => widens_refl _

lemma widens_readTerm (h : limits ≤ limits') : Widens (readTerm limits) (readTerm limits') := by
  rw [readTerm_eq_andThen, readTerm_eq_andThen]
  apply (widens_refl sign).andThen
  intro s
  apply (widens_refl blanks).andThen
  intro _
  exact (widens_readLiteral h).andThen fun literal => widens_refl _

lemma Phase.widens_step (h : limits ≤ limits') (ph : Phase) :
    Widens (ph.step limits) (ph.step limits') := by
  have hterm (p : Progress) (minus : Bool) :
      Widens (Phase.step.term limits p minus) (Phase.step.term limits' p minus) := by
    rw [Phase.step_term_eq, Phase.step_term_eq]
    exact (widens_readTerm h).andThen fun _ => widens_refl _
  cases ph with
  | start => exact hterm .start false
  | term p minus => exact hterm p minus
  | operator p => exact widens_refl _

/-- The scans of a line stay side by side as long as no literal in it is found too long. -/
lemma scan_of_le (h : limits ≤ limits') (ph : Phase) (cs : List Char) :
    scan limits' ph cs = scan limits ph cs ∨
      ∃ o, (scan limits ph cs).offence = some o ∧ o.fault.IsExcess := by
  -- the scan goes on with a shorter text after each token
  induction hn : cs.length using Nat.strong_induction_on generalizing ph cs with
  | _ n ih =>
    by_cases hne : skipBlanks cs = []
    · left
      rw [scan_of_blank hne, scan_of_blank hne]
    rcases ph.widens_step h (skipBlanks cs) with heq | ⟨o, ho, hexcess⟩
    · cases hs : ph.step limits (skipBlanks cs) with
      | error o =>
        left
        rw [scan_of_error hne hs, scan_of_error hne (heq.trans hs)]
      | ok r =>
        obtain ⟨⟨entry, next⟩, rest⟩ := r
        have hlt : rest.length < n :=
          hn ▸ (Phase.suffix_of_step hs).2.trans_le (Text.length_skipBlanks_le cs)
        rw [scan_of_ok hne hs, scan_of_ok hne (heq.trans hs)]
        rcases ih _ hlt next rest rfl with hrest | hexcess
        · left
          rw [hrest]
        · exact Or.inr hexcess
    · right
      rw [scan_of_error hne ho]
      exact ⟨o, rfl, hexcess⟩

end Readers

/-! ### Sessions -/

/-- The session under other limits. -/
def Session.under (limits : Limits) (s : Session) : Session := { s with limits }

/-- The reading of a session under other limits. -/
def Reading.under (limits : Limits) (r : Reading) : Reading :=
  { r with session := r.session.under limits }

namespace Session

variable {limits : Limits}

lemma advance_under (s : Session) (ph : Phase) (r : Except ParseError LineEnd) :
    (s.under limits).advance ph r = (s.advance ph r).under limits := by
  unfold advance
  split <;> rfl

lemma note_under (s : Session) (r : Except ParseError Status) :
    (s.under limits).note r = (s.note r).under limits := by
  cases r <;> rfl

lemma read_under (s : Session) (h : s.limits ≤ limits) (line : List Char) :
    (s.under limits).read line = (s.read line).under limits ∨
      ∃ e, (s.read line).result = .error e ∧ e.fault.IsExcess := by
  rcases scan_of_le h s.phase line with hscan | ⟨o, ho, hexcess⟩
  · left
    have hsame : scan (s.under limits).limits (s.under limits).phase line =
        scan s.limits s.phase line := hscan
    unfold read
    rw [hsame]
    unfold Reading.under
    dsimp only
    rw [← note_under, ← advance_under]
    rfl
  · right
    refine ⟨o.inLine line, ?_, hexcess⟩
    simp only [read, ho]

end Session

end Equation

/-! ### Drafts -/

variable {α : Type} [One α] [Add α] [Neg α] [OfDecimal α]

namespace Draft

/-- The draft with its session under other limits. -/
def under (limits : Limits) (d : Draft α) : Draft α := { d with session := d.session.under limits }

variable {limits : Limits}

lemma feed_under (d : Draft α) (h : d.session.limits ≤ limits) (line : List Char) :
    (((d.under limits).feed line).value =
        ((d.feed line).value.1.under limits, (d.feed line).value.2) ∧
      ((d.under limits).feed line).log = (d.feed line).log) ∨
      ∃ e, (d.feed line).value.2 = .error e ∧ e.fault.IsExcess := by
  rcases d.session.read_under h line with hread | hexcess
  · left
    have hsame : (d.under limits).session.read line = (d.session.read line).under limits := hread
    unfold feed
    rw [hsame]
    exact ⟨rfl, rfl⟩
  · exact Or.inr hexcess

lemma feedAll_under (d : Draft α) (h : d.session.limits ≤ limits) (lines : List (List Char)) :
    (((d.under limits).feedAll lines).value = (d.feedAll lines).value.map (under limits) ∧
      ((d.under limits).feedAll lines).log = (d.feedAll lines).log) ∨
      ∃ e, (d.feedAll lines).value = .error e ∧ e.fault.IsExcess := by
  induction lines generalizing d with
  | nil => exact Or.inl ⟨rfl, rfl⟩
  | cons line lines ih =>
    have hlimits : (d.feed line).value.1.session.limits ≤ limits := by
      have hkept := d.session.limits_read line
      exact hkept ▸ h
    simp only [feedAll, Logged.value_bind, Logged.log_bind]
    rcases d.feed_under h line with ⟨hvalue, hlog⟩ | ⟨e, he, hexcess⟩
    · rw [hvalue, hlog]
      cases hresult : (d.feed line).value.2 with
      | error e => exact Or.inl ⟨rfl, rfl⟩
      | ok e =>
        rcases ih (d.feed line).value.1 hlimits with ⟨hrest, hlogs⟩ | hexcess
        · left
          exact ⟨hrest, congrArg _ hlogs⟩
        · exact Or.inr hexcess
    · right
      refine ⟨e, ?_, hexcess⟩
      rw [he]
      rfl

end Draft

namespace LinearSystem

variable [Zero α]

lemma ofText_eq_or_excess (limits wider : Limits) (h : limits ≤ wider) (text : String) :
    ((ofText wider text : Logged (Record α) _).value = (ofText limits text).value ∧
      (ofText wider text : Logged (Record α) _).log = (ofText limits text).log) ∨
      ∃ e, (ofText limits text : Logged (Record α) _).value = .error e ∧ e.fault.IsExcess := by
  have hlimits : (Draft.fresh limits : Draft α).session.limits ≤ wider := h
  have hwider : (Draft.fresh wider : Draft α) = (Draft.fresh limits).under wider := rfl
  simp only [ofText, Logged.value_bind, Logged.log_bind]
  rcases (Draft.fresh limits : Draft α).feedAll_under hlimits (Text.splitChars text.toList) with
    ⟨hvalue, hlog⟩ | ⟨e, he, hexcess⟩
  · left
    rw [hwider, hvalue, hlog]
    -- the end of the input is taken alike
    cases ((Draft.fresh limits : Draft α).feedAll (Text.splitChars text.toList)).value with
    | error e => exact ⟨rfl, rfl⟩
    | ok d => exact ⟨rfl, rfl⟩
  · right
    refine ⟨e, ?_, hexcess⟩
    rw [he]
    rfl

/-- **Limits on literals only reject.** What is read under some limits is read under wider ones,
and comes to the same system. Any other fault than that of a literal that is too long is found
under wider limits, too, in the same place. -/
theorem ofText_of_le (limits wider : Limits) (h : limits ≤ wider) (text : String) :
    let narrow : Logged (Record α) (Except ParseError (LinearSystem α)) := ofText limits text
    let wide : Logged (Record α) (Except ParseError (LinearSystem α)) := ofText wider text
    (∀ s, narrow.value = .ok s → wide.value = .ok s ∧ wide.log = narrow.log) ∧
      ∀ e, narrow.value = .error e → e.fault ≠ .tooManyDigits → e.fault ≠ .illegalExponent →
        wide.value = .error e ∧ wide.log = narrow.log := by
  intro narrow wide
  rcases ofText_eq_or_excess (α := α) limits wider h text with ⟨hvalue, hlog⟩ | ⟨e, he, hexcess⟩
  · exact ⟨fun s hs => ⟨hvalue.trans hs, hlog⟩, fun e he _ _ => ⟨hvalue.trans he, hlog⟩⟩
  · have hnarrow : narrow.value = .error e := he
    constructor
    · intro s hs
      rw [hs] at hnarrow
      cases hnarrow
    · intro e' he' hdigits hexponent
      rw [he'] at hnarrow
      cases hnarrow
      rcases hexcess with h | h
      · exact absurd h hdigits
      · exact absurd h hexponent

/-- A text that is read under narrow limits, one with a fault, and one whose fault is the limit. -/
theorem ofText_of_le_three_digits :
    let narrow : Limits := ⟨3, 1⟩
    (∃ s : LinearSystem ℚ, (ofText narrow "125x = 2^1").value = .ok s ∧
        (ofText {} "125x = 2^1").value = .ok s) ∧
      (ofText {} "125x = 2 = 1" : Logged (Record ℚ) _).value =
        .error ⟨.multipleEqualSigns, 9⟩ ∧
      (ofText narrow "1250x = 2" : Logged (Record ℚ) _).value.toBool = false ∧
      (ofText {} "1250x = 2" : Logged (Record ℚ) _).value.toBool = true := by
  intro narrow
  have hle : narrow ≤ {} := by decide
  refine ⟨?_, ?_, by decide +kernel, by decide +kernel⟩
  · have hread : (ofText narrow "125x = 2^1" : Logged (Record ℚ) _).value.toBool = true := by
      decide +kernel
    cases h : (ofText narrow "125x = 2^1" : Logged (Record ℚ) _).value with
    | error e => exact nomatch (congrArg Except.toBool h).symm.trans hread
    | ok s => exact ⟨s, rfl, ((ofText_of_le narrow {} hle "125x = 2^1").1 s h).1⟩
  · have hread : (ofText narrow "125x = 2 = 1" : Logged (Record ℚ) _).value.map (fun _ => ()) =
        .error ⟨.multipleEqualSigns, 9⟩ := by decide +kernel
    cases h : (ofText narrow "125x = 2 = 1" : Logged (Record ℚ) _).value with
    | ok s => exact nomatch (congrArg (Except.map fun _ => ()) h).symm.trans hread
    | error e =>
      obtain rfl : e = ⟨.multipleEqualSigns, 9⟩ :=
        Except.error.inj ((congrArg (Except.map fun _ => ()) h).symm.trans hread)
      exact ((ofText_of_le narrow {} hle "125x = 2 = 1").2 _ h (by decide) (by decide)).1

end LinearSystem

end Simultaneous
