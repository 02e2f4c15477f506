import Mathlib
import Simultaneous.Proofs.Readers

/-!
One character of lookahead.

A reader takes some text off the front of a line, and of what it leaves it has seen the first
character at most. So it reads the same text in front of all lines that go on with that character
(or all end there), with one exception: a point alone is refused where it stands, although only what
follows it shows that it is alone. What each part of the reading does in this respect follows from
its parts, down to the scan of a line.
-/

namespace Simultaneous.Equation

open Reader
open Text (isBlank isNameChar skipBlanks)

/-! ### Readers -/

section Readers

variable {β γ : Type}

/-- The answer refuses a point. -/
def RefusesPoint (out : Except Fault β) (rest : List Char) : Prop :=
  out = .error .illegalEquation ∧ rest.head? = some '.'

lemma RefusesPoint.cast {f : Fault} {rest : List Char}
    (h : RefusesPoint (.error f : Except Fault β) rest) :
    RefusesPoint (.error f : Except Fault γ) rest :=
  ⟨congrArg _ (Except.error.inj h.1), h.2⟩

lemma not_refusesPoint_ok (b : β) (rest : List Char) : ¬RefusesPoint (.ok b) rest :=
  fun h => nomatch h.1

/-- The reader takes some text off the line, and it takes the same text off all lines that go on
with the same character. -/
def PeeksFor (R : Reader β) (cs : List Char) : Prop :=
  ∃ text rest out, cs = text ++ rest ∧ R cs = answer out rest ∧
    (¬RefusesPoint out rest → ∀ rest' : List Char, rest'.head? = rest.head? →
      R (text ++ rest') = answer out rest')

def Peeks (R : Reader β) : Prop := ∀ cs, PeeksFor R cs

variable {R S : Reader β} {cs rest : List Char}

lemma head?_append_congr {rest' : List Char} (text : List Char) (h : rest'.head? = rest.head?) :
    (text ++ rest').head? = (text ++ rest).head? := by
  rw [List.head?_append, List.head?_append, h]

lemma peeksFor_append (text : List Char) (out : Except Fault β)
    (h : ∀ rest' : List Char, rest'.head? = rest.head? → R (text ++ rest') = answer out rest') :
    PeeksFor R (text ++ rest) :=
  ⟨text, rest, out, rfl, h rest rfl, fun _ => h⟩

/-- The reader takes nothing, and the first character tells what it answers. -/
lemma peeksFor_of_head? (out : Except Fault β)
    (h : ∀ cs' : List Char, cs'.head? = cs.head? → R cs' = answer out cs') : PeeksFor R cs :=
  peeksFor_append [] out h

lemma peeks_done (b : β) : Peeks (done b) :=
  fun _ => peeksFor_of_head? (.ok b) fun _ _ => rfl

lemma peeks_fault (f : Fault) : Peeks (fault f : Reader β) :=
  fun _ => peeksFor_of_head? (.error f) fun _ _ => rfl

/-- The first character tells that the reader goes on as another one. -/
lemma PeeksFor.congr (h : PeeksFor S cs)
    (hR : ∀ cs' : List Char, cs'.head? = cs.head? → R cs' = S cs') : PeeksFor R cs := by
  obtain ⟨text, rest, out, rfl, hread, hstable⟩ := h
  refine ⟨text, rest, out, rfl, (hR _ rfl).trans hread, fun hpoint rest' hhead => ?_⟩
  exact (hR _ (head?_append_congr text hhead)).trans (hstable hpoint rest' hhead)

/-- The reader takes one character and goes on as another one. -/
lemma PeeksFor.cons {c : Char} (h : PeeksFor S cs) (hR : ∀ cs, R (c :: cs) = S cs) :
    PeeksFor R (c :: cs) := by
  obtain ⟨text, rest, out, rfl, hread, hstable⟩ := h
  exact ⟨c :: text, rest, out, rfl, (hR _).trans hread,
    fun hpoint rest' hhead => (hR _).trans (hstable hpoint rest' hhead)⟩

lemma PeeksFor.andThen {K : β → Reader γ} (h : PeeksFor R cs)
    (hK : ∀ b rest, R cs = .ok (b, rest) → PeeksFor (K b) rest) : PeeksFor (R.andThen K) cs := by
  obtain ⟨text, mid, out, rfl, hread, hstable⟩ := h
  cases out with
  | error f =>
    exact ⟨text, mid, .error f, rfl, andThen_of_error hread, fun hpoint rest' hhead =>
      andThen_of_error (hstable (fun hp => hpoint hp.cast) rest' hhead)⟩
  | ok b =>
    obtain ⟨text', rest, out', rfl, hread', hstable'⟩ := hK b mid hread
    refine ⟨text ++ text', rest, out', (List.append_assoc _ _ _).symm,
      (andThen_of_ok hread).trans hread', fun hpoint rest' hhead => ?_⟩
    have hmid := hstable (not_refusesPoint_ok b _) _ (head?_append_congr text' hhead)
    rw [List.append_assoc, andThen_of_ok hmid]
    exact hstable' hpoint rest' hhead

lemma Peeks.andThen {K : β → Reader γ} (h : Peeks R) (hK : ∀ b, Peeks (K b)) :
    Peeks (R.andThen K) :=
  fun cs => (h cs).andThen fun b rest _ => hK b rest

lemma Peeks.ifAt {c : Char} (hR : Peeks R) (hS : Peeks S) : Peeks (ifAt c R S) := by
  intro cs
  by_cases hc : cs.head? = some c
  · exact (hR cs).congr fun _ hhead => if_pos (hhead.trans hc)
  · exact (hS cs).congr fun _ hhead => if_neg (hhead ▸ hc)

lemma Peeks.ifNext {c : Char} (hR : Peeks R) (hS : Peeks S) : Peeks (ifNext c R S) := by
  intro cs
  by_cases hc : cs.head? = some c
  · obtain ⟨rest, rfl⟩ := List.head?_eq_some_iff.mp hc
    exact (hR rest).cons fun _ => if_pos rfl
  · exact (hS cs).congr fun _ hhead => if_neg (hhead ▸ hc)

lemma PeeksFor.ifEnd (hR : Peeks R) (hS : cs ≠ [] → PeeksFor S cs) : PeeksFor (ifEnd R S) cs := by
  by_cases hc : cs = []
  · refine (hR cs).congr fun cs' hhead => if_pos ?_
    rw [hc] at hhead
    exact List.head?_eq_none_iff.mp hhead
  · refine (hS hc).congr fun cs' hhead => if_neg ?_
    rintro rfl
    exact hc (List.head?_eq_none_iff.mp hhead.symm)

lemma stops_of_head? {p : Char → Bool} {cs' : List Char} (h : cs'.head? = cs.head?)
    (hs : Stops p cs) : Stops p cs' := by
  rintro c rest rfl
  obtain ⟨tail, rfl⟩ := List.head?_eq_some_iff.mp h.symm
  exact hs c tail rfl

/-- A run of characters of one kind is seen to end. -/
lemma peeks_span (p : Char → Bool) (f : List Char → β) :
    Peeks fun cs => .ok (f (cs.takeWhile p), cs.dropWhile p) := by
  intro cs
  rw [← List.takeWhile_append_dropWhile (p := p) (l := cs)]
  refine peeksFor_append _ (.ok (f (cs.takeWhile p))) fun rest' hhead => ?_
  have hall : ∀ c ∈ cs.takeWhile p, p c = true := fun _ => List.mem_takeWhile_imp
  have hstop := stops_of_head? hhead stops_dropWhile
  rw [takeWhile_append_of_stops hall hstop, dropWhile_append_of_stops hall hstop]
  rfl

lemma peeks_run (p : Char → Bool) : Peeks (run p) := peeks_span p id

lemma peeks_blanks : Peeks blanks := peeks_span isBlank fun _ => ()

/-- A fault is found in all lines that go on alike, except for a point that is refused. -/
lemma Peeks.of_error {o : Offence} (h : Peeks R) (hr : R cs = .error o) :
    ∃ text, cs = text ++ o.rest ∧ ((o.fault = .illegalEquation → o.rest.head? ≠ some '.') →
      ∀ rest' : List Char, rest'.head? = o.rest.head? →
        R (text ++ rest') = .error ⟨o.fault, rest'⟩) := by
  obtain ⟨text, after, out, rfl, hread, hstable⟩ := h cs
  rw [hr] at hread
  cases out with
  | ok b => exact nomatch hread
  | error f =>
    obtain rfl := Except.error.inj hread
    exact ⟨text, rfl, fun hpoint => hstable fun hp => hpoint (Except.error.inj hp.1) hp.2⟩

end Readers

/-! ### Terms and operators -/

lemma peeks_sign : Peeks sign := by
  intro cs
  by_cases hsign : Stops isSignChar cs
  · refine peeksFor_of_head? (.ok none) fun cs' hhead => ?_
    exact congrArg _ (readSign_of_stops (stops_of_head? hhead hsign))
  · obtain ⟨s, rest, rfl⟩ := exists_sign_of_not_stops hsign
    cases s
    · exact (peeks_done (some .plus) rest).cons fun _ => rfl
    · exact (peeks_done (some .minus) rest).cons fun _ => rfl

lemma peeks_readRun (limit digits : ℕ) (pointed : Bool) : Peeks (readRun limit digits pointed) := by
  intro cs
  induction cs generalizing digits pointed with
  | nil =>
    refine peeksFor_of_head? (.ok []) fun cs' hhead => ?_
    rw [List.head?_eq_none_iff.mp hhead]
    rfl
  | cons c cs ih =>
    obtain ⟨digits', pointed', hread⟩ | ⟨out, hread⟩ := readRun_cons limit digits pointed c
    · exact ((ih digits' pointed').andThen fun run rest _ => peeks_done (c :: run) rest).cons hread
    · refine peeksFor_of_head? out fun cs' hhead => ?_
      obtain ⟨tail, rfl⟩ := List.head?_eq_some_iff.mp hhead
      exact hread tail

lemma peeks_readMantissa (limit : ℕ) : Peeks (readMantissa limit) := by
  intro cs
  obtain ⟨text, rest, out, rfl, hread, hstable⟩ := peeks_readRun limit 0 false cs
  cases out with
  | error f =>
    exact ⟨text, rest, .error f, rfl, readMantissa_of_error hread, fun hpoint rest' hhead =>
      readMantissa_of_error (hstable hpoint rest' hhead)⟩
  | ok digits =>
    have hok (rest' : List Char) (hhead : rest'.head? = rest.head?) :=
      readMantissa_of_ok (hstable (not_refusesPoint_ok digits rest) rest' hhead)
    by_cases hlimit : limit < digits.length
    · refine peeksFor_append text (.error .tooManyDigits) fun rest' hhead => ?_
      rw [hok rest' hhead, if_pos hlimit]
      rfl
    by_cases hpoint : digits = ['.']
    · obtain rfl := List.append_cancel_right (append_of_readRun hread)
      refine ⟨[], digits ++ rest, .error .illegalEquation, rfl, ?_, fun h => absurd ⟨rfl, ?_⟩ h⟩
      · rw [hok rest rfl, if_neg hlimit, if_pos hpoint]
        rfl
      · rw [hpoint]
        rfl
    · refine peeksFor_append text (.ok digits) fun rest' hhead => ?_
      rw [hok rest' hhead, if_neg hlimit, if_neg hpoint]
      rfl

lemma peeks_readExponent (limit : ℕ) : Peeks (readExponent limit) := by
  rw [readExponent_eq]
  refine peeks_sign.andThen fun s => (peeks_run isRunChar).andThen fun digits => ?_
  split_ifs
  · exact peeks_fault _
  · exact peeks_fault _
  · exact peeks_done _

lemma peeks_readLiteral (limits : Limits) : Peeks (readLiteral limits) := by
  rw [readLiteral_eq]
  refine (peeks_readMantissa limits.numberLength).andThen fun mantissa => ?_
  split_ifs
  · exact peeks_done _
  · exact ((peeks_readExponent limits.exponentLength).andThen fun _ => peeks_done _).ifNext
      (peeks_done _)

lemma peeks_readTerm (limits : Limits) : Peeks (readTerm limits) := by
  rw [readTerm_eq_andThen]
  refine peeks_sign.andThen fun s => peeks_blanks.andThen fun _ =>
    (peeks_readLiteral limits).andThen fun literal => peeks_blanks.andThen fun _ =>
      (peeks_run isNameChar).andThen fun name => ?_
  split_ifs
  · cases literal with
    | none => exact peeks_fault _
    | some value => exact peeks_done _
  · exact peeks_done _

lemma Phase.peeks_step (limits : Limits) (ph : Phase) : Peeks (ph.step limits) := by
  have hterm (p : Progress) (minus : Bool) : Peeks (Phase.step.term limits p minus) := by
    rw [Phase.step_term_eq]
    exact (peeks_readTerm limits).andThen fun _ => peeks_done _
  cases ph with
  | start => exact hterm .start false
  | term p minus => exact hterm p minus
  | operator p =>
    have hsign : Peeks (sign.andThen fun s => s.elim (fault .illegalEquation) fun s =>
        done (none, Phase.term (p.addOperator (.sign s)) (Operator.sign s).isMinus) :
        Reader (Option Entry × Phase)) := by
      refine peeks_sign.andThen fun s => ?_
      cases s with
      | none => exact peeks_fault _
      | some s => exact peeks_done _
    rw [Phase.step_operator_eq]
    split_ifs
    · exact (peeks_fault _).ifAt hsign
    · exact (peeks_sign.andThen fun s => peeks_done _).ifNext hsign

/-- A scan reads with one character of lookahead. -/
lemma peeks_scanAll (limits : Limits) (ph : Phase) : Peeks (scanAll limits ph) := by
  intro cs
  -- the scan goes on with a shorter text after each token
  induction hn : cs.length using Nat.strong_induction_on generalizing ph cs with
  | _ n ih =>
    rw [scanAll_eq]
    refine (peeks_blanks cs).andThen fun _ rest hblanks => .ifEnd (peeks_done _) fun hne => ?_
    refine (ph.peeks_step limits rest).andThen fun r after hstep => ?_
    have hlt : after.length < n := by
      obtain ⟨-, rfl⟩ := Prod.mk.inj (Except.ok.inj hblanks)
      exact hn ▸ (Phase.suffix_of_step hstep).2.trans_le (Text.length_skipBlanks_le cs)
    exact (ih _ hlt r.2 after rfl).andThen fun _ _ _ => peeks_done _ _

/-- The fault of a line is found in all lines that go on alike from its place, except for a point
that is refused. What is left of the line there is the end of the line. -/
lemma scan_offence_congr {limits : Limits} {ph : Phase} {cs : List Char} {o : Offence}
    (h : (scan limits ph cs).offence = some o) :
    ∃ front, cs = front ++ o.rest ∧ ((o.fault = .illegalEquation → o.rest.head? ≠ some '.') →
      ∀ rest : List Char, rest.head? = o.rest.head? →
        (scan limits ph (front ++ rest)).offence = some ⟨o.fault, rest⟩) := by
  have hscan : scanAll limits ph cs = .error o := by rw [scanAll, h]
  obtain ⟨front, hcs, hstable⟩ := (peeks_scanAll limits ph).of_error hscan
  refine ⟨front, hcs, fun hpoint rest hhead => ?_⟩
  have hrest := hstable hpoint rest hhead
  rw [scanAll] at hrest
  split at hrest
  · cases hrest
  · next heq => rw [heq, Except.error.inj hrest]

lemma suffix_of_scan {limits : Limits} {ph : Phase} {cs : List Char} {o : Offence}
    (h : (scan limits ph cs).offence = some o) : o.rest <:+ cs := by
  obtain ⟨front, hcs, -⟩ := scan_offence_congr h
  exact ⟨front, hcs.symm⟩

end Simultaneous.Equation
