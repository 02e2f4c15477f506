import Mathlib
import Simultaneous.LinearSystem.Draft
import Simultaneous.Proofs.Chains

/-!
Reading systems of equations.

Between two lines a session stands at the start of an equation or behind an operator. A line
takes it from one such place to another, and a reading that ends at the start of an equation has
cut the lines into blank lines and equations.
-/

namespace Simultaneous

open Equation
open Number (OfDecimal)

/-- A line without a fault spells tokens that lead to a place where a line can end. -/
lemma Equation.Session.exists_spelled_of_read {s : Session} {line : List Char} {e : LineEnd}
    (h : (s.read line).result = .ok e) :
    ∃ ts, SpelledLine s.limits ts line ∧
      s.phase.Takes ts (s.read line).entries (scan s.limits s.phase line).phase ∧
      (scan s.limits s.phase line).phase.lineEnd = .ok e := by
  cases hoff : (scan s.limits s.phase line).offence with
  | some o => simp [Session.read, hoff] at h
  | none =>
    obtain ⟨ts, hline, htakes⟩ := exists_spelled_of_scan hoff
    refine ⟨ts, hline, htakes, ?_⟩
    cases hend : (scan s.limits s.phase line).phase.lineEnd with
    | error f => simp [Session.read, hoff, hend, Except.mapError] at h
    | ok e' => simpa [Session.read, hoff, hend, Except.mapError] using h

variable {α : Type} [One α] [Add α] [Neg α] [OfDecimal α]

/-- The system with all entries of an equation in its row. -/
def LinearSystem.enterEquation (s : LinearSystem α) (row : ℕ) (es : List Entry) : LinearSystem α :=
  { es.foldl (·.enter row ·) s with equationCount := row + 1 }

/-- The system with equations entered in the rows from the given one on. -/
def LinearSystem.enterAll (s : LinearSystem α) (row : ℕ) : List Chain → LinearSystem α
  | [] => s
  | e :: es => (s.enterEquation row (e.occurrences.map Occurrence.entry)).enterAll (row + 1) es

namespace Draft

/-- What a draft has come to. -/
structure At (d : Draft α) (limits : Limits) (ph : Phase) (row : ℕ) (s : LinearSystem α) :
    Prop where
  limits_eq : d.session.limits = limits
  phase_eq : d.session.phase = ph
  row_eq : d.session.equations = row
  system_eq : d.system = s

variable {limits : Limits} {ph next : Phase} {row : ℕ} {s : LinearSystem α} {d d' : Draft α}
  {ts : List Token} {es : List Entry} {line : List Char} {lines more : List (List Char)}

omit [One α] [Add α] [Neg α] [OfDecimal α] in
lemma at_fresh [Zero α] : (fresh limits : Draft α).At limits .start 0 .empty :=
  ⟨rfl, rfl, rfl, rfl⟩

/-! ### One line -/

lemma feed_complete (h : d.At limits ph row s) (hline : SpelledLine limits ts line)
    (htakes : ph.Takes ts es next) (hend : next.lineEnd = .ok .complete) :
    ∃ d', (d.feed line).value = (d', .ok .complete) ∧
      d'.At limits .start (row + 1) (s.enterEquation row es) := by
  obtain ⟨rfl, rfl, rfl, rfl⟩ := h
  have hscan := scan_of_spelled hline htakes
  have hread : (d.session.read line).result = .ok .complete := by
    simp [Session.read, hscan, hend, Except.mapError]
  refine ⟨_, congrArg (Prod.mk _) hread, ?_⟩
  constructor <;>
    simp [Session.read, hscan, hend, Session.note, Session.advance, Except.mapError, Except.map,
      LinearSystem.absorb, LinearSystem.enterEquation]

lemma feed_continued (h : d.At limits ph row s) (hline : SpelledLine limits ts line)
    (htakes : ph.Takes ts es next) {e : LineEnd} (hend : next.lineEnd = .ok e)
    (hne : e ≠ .complete) :
    ∃ d', (d.feed line).value = (d', .ok e) ∧
      d'.At limits next row (es.foldl (·.enter row ·) s) := by
  obtain ⟨rfl, rfl, rfl, rfl⟩ := h
  have hscan := scan_of_spelled hline htakes
  have hread : (d.session.read line).result = .ok e := by
    simp [Session.read, hscan, hend, Except.mapError]
  refine ⟨_, congrArg (Prod.mk _) hread, ?_⟩
  constructor <;>
    cases e <;>
      simp_all [Session.read, Session.note, Session.advance, Except.mapError, Except.map,
        LinearSystem.absorb]

lemma exists_spelled_of_feed (h : d.At limits ph row s) {e : LineEnd}
    (hfeed : (d.feed line).value = (d', .ok e)) :
    ∃ ts es next, SpelledLine limits ts line ∧ ph.Takes ts es next ∧ next.lineEnd = .ok e := by
  obtain ⟨rfl, rfl, rfl, rfl⟩ := h
  obtain ⟨ts, hline, htakes, hend⟩ := Session.exists_spelled_of_read (congrArg Prod.snd hfeed)
  exact ⟨ts, _, _, hline, htakes, hend⟩

/-! ### Many lines -/

lemma feedAll_cons (d : Draft α) (line : List Char) (lines : List (List Char)) :
    (d.feedAll (line :: lines)).value =
      (d.feed line).value.2.bind fun _ => ((d.feed line).value.1.feedAll lines).value := by
  rw [feedAll, Logged.value_bind]
  obtain ⟨d', r⟩ := (d.feed line).value
  cases r <;> rfl

lemma feedAll_cons_of_feed {e : LineEnd} (h : (d.feed line).value = (d', .ok e)) :
    (d.feedAll (line :: lines)).value = (d'.feedAll lines).value := by
  rw [feedAll_cons, h]
  rfl

lemma exists_feed_of_feedAll_cons {d'' : Draft α}
    (h : (d.feedAll (line :: lines)).value = .ok d'') :
    ∃ d' e, (d.feed line).value = (d', .ok e) ∧ (d'.feedAll lines).value = .ok d'' := by
  cases hf : (d.feed line).value with
  | mk d' r =>
  rw [feedAll, Logged.value_bind, hf] at h
  cases r with
  | error e => exact nomatch h
  | ok e => exact ⟨d', e, rfl, h⟩

lemma feedAll_append_eq_bind (d : Draft α) (lines more : List (List Char)) :
    (d.feedAll (lines ++ more)).value =
      (d.feedAll lines).value.bind fun d' => (d'.feedAll more).value := by
  induction lines generalizing d with
  | nil => rfl
  | cons line lines ih =>
    rw [List.cons_append, feedAll_cons, feedAll_cons]
    cases (d.feed line).value.2 with
    | error e => rfl
    | ok e => exact ih _

lemma feedAll_append (h : (d.feedAll lines).value = .ok d') :
    (d.feedAll (lines ++ more)).value = (d'.feedAll more).value := by
  rw [feedAll_append_eq_bind, h]
  rfl

lemma feedAll_blank {p : Progress} {minus : Bool} (h : d.At limits (.term p minus) row s)
    (hblank : ∀ b ∈ lines, IsBlank b) :
    ∃ d', (d.feedAll lines).value = .ok d' ∧ d'.At limits (.term p minus) row s := by
  induction lines generalizing d with
  | nil => exact ⟨d, rfl, h⟩
  | cons line lines ih =>
    obtain ⟨d₁, hfeed, hat⟩ :=
      feed_continued h (.nil (hblank line (.head _))) (.nil _) rfl (by decide)
    rw [feedAll_cons_of_feed hfeed]
    exact ih hat fun b hb => hblank b (.tail _ hb)

/-! ### Completeness -/

lemma feedAll_of_group {q : Progress} (hgroup : SpelledGroup limits ts lines)
    (h : d.At limits ph row s) (htakes : ph.Takes ts es (.operator q)) (hq : q.defect = none) :
    ∃ d', (d.feedAll lines).value = .ok d' ∧
      d'.At limits .start (row + 1) (s.enterEquation row es) := by
  induction hgroup generalizing d ph s es with
  | last hline =>
    obtain ⟨d', hfeed, hat⟩ := feed_complete h hline htakes (by rw [Phase.lineEnd, hq])
    exact ⟨d', feedAll_cons_of_feed hfeed, hat⟩
  | more hline hblank _ ih =>
    obtain ⟨mid, es₁, es₂, h₁, h₂, rfl⟩ := takes_append.mp htakes
    obtain ⟨p, rfl⟩ := takes_snoc_operator h₁
    obtain ⟨d₁, hfeed, hat₁⟩ := feed_continued h hline h₁ rfl (by decide)
    obtain ⟨d₂, hblanks, hat₂⟩ := feedAll_blank hat₁ hblank
    obtain ⟨d', hrest, hat'⟩ := ih hat₂ h₂
    refine ⟨d', ?_, ?_⟩
    · rw [List.cons_append, feedAll_cons_of_feed hfeed, feedAll_append hblanks, hrest]
    · rwa [LinearSystem.enterEquation, List.foldl_append]

/-- **Completeness**: lines that spell equations are read, and their equations are entered. -/
lemma feedAll_of_spelled {chains : List Chain} (hspelled : SpelledSystem limits chains lines)
    (h : d.At limits .start row s) :
    ∃ d', (d.feedAll lines).value = .ok d' ∧
      d'.At limits .start (row + chains.length) (s.enterAll row chains) := by
  induction hspelled generalizing d row s with
  | nil => exact ⟨d, rfl, h⟩
  | blank hblank _ ih =>
    obtain ⟨d₁, hfeed, hat⟩ := feed_continued h (.nil hblank) (.nil _) rfl (by decide)
    obtain ⟨d', hrest, hat'⟩ := ih hat
    exact ⟨d', (feedAll_cons_of_feed hfeed).trans hrest, hat'⟩
  | @equation e chains group lines hequation hgroup _ ih =>
    obtain ⟨htakes, hdefect⟩ := Chain.takes_of_isEquation hequation
    obtain ⟨d₁, hfeed, hat⟩ := feedAll_of_group hgroup h htakes hdefect
    obtain ⟨d', hrest, hat'⟩ := ih hat
    refine ⟨d', (feedAll_append hfeed).trans hrest, ?_⟩
    rwa [List.length_cons, Nat.add_comm chains.length, ← Nat.add_assoc]

/-! ### Soundness -/

/-- The lines spell equations, the first of which has come to the given phase already. -/
def Spells (limits : Limits) (lines : List (List Char)) : Phase → Prop
  | .start => ∃ chains, SpelledSystem limits chains lines
  | .term p minus => ∃ blanks group rest ts es q chains, lines = blanks ++ (group ++ rest) ∧
      (∀ b ∈ blanks, IsBlank b) ∧ SpelledGroup limits ts group ∧
      (Phase.term p minus).Takes ts es (.operator q) ∧ q.defect = none ∧
      SpelledSystem limits chains rest
  | .operator _ => True

omit [One α] [Add α] [Neg α] [OfDecimal α] in
lemma spells_of_group {q : Progress} {chains : List Chain} (hgroup : SpelledGroup limits ts lines)
    (htakes : ph.Takes ts es (.operator q)) (hq : q.defect = none)
    (hmore : SpelledSystem limits chains more) : Spells limits (lines ++ more) ph := by
  cases ph with
  | operator => exact trivial
  | term p minus =>
    exact ⟨[], lines, more, ts, es, q, chains, rfl, by simp, hgroup, htakes, hq, hmore⟩
  | start =>
    obtain ⟨e, rfl, hequation⟩ := Chain.exists_isEquation htakes hq
    exact ⟨e :: chains, .equation hequation hgroup hmore⟩

/-- **Soundness**: lines that are read without a fault spell equations. -/
lemma spells_of_feedAll (h : d.At limits ph row s) (hdue : ph.due.isSome = true)
    (hfeed : (d.feedAll lines).value = .ok d') (hfinish : d'.session.finish.2 = .ok ()) :
    Spells limits lines ph := by
  induction lines generalizing d ph row s with
  | nil =>
    obtain rfl := Except.ok.inj hfeed
    cases ph with
    | start => exact ⟨[], .nil⟩
    | operator => exact trivial
    | term p minus => simp [Session.finish, h.phase_eq] at hfinish
  | cons line lines ih =>
    obtain ⟨d₁, e, hline, hlines⟩ := exists_feed_of_feedAll_cons hfeed
    obtain ⟨ts, es, next, hspelled, htakes, hend⟩ := exists_spelled_of_feed h hline
    rcases lineEnd_eq_ok hend with ⟨rfl, rfl⟩ | ⟨p, minus, rfl, rfl⟩ | ⟨p, rfl, hp, rfl⟩
    · -- a blank line between two equations
      obtain ⟨d₂, hline', hat⟩ := feed_continued h hspelled htakes hend (by decide)
      obtain ⟨rfl, -⟩ := Prod.mk.inj (hline.symm.trans hline')
      obtain ⟨chains, hmore⟩ := ih hat rfl hlines
      obtain rfl := eq_nil_of_takes_start htakes
      cases htakes
      cases hspelled with
      | nil hblank => exact ⟨chains, .blank hblank hmore⟩
    · -- the equation goes on
      obtain ⟨d₂, hline', hat⟩ := feed_continued h hspelled htakes hend (by decide)
      obtain ⟨rfl, -⟩ := Prod.mk.inj (hline.symm.trans hline')
      obtain ⟨blanks, group, rest, us, es', q, chains, rfl, hblanks, hgroup, hmore, hq, hsystem⟩ :=
        ih hat rfl hlines
      rcases exists_snoc_operator htakes with ⟨rfl, rfl, rfl⟩ | ⟨ts, o, rfl⟩
      · cases hspelled with
        | nil hblank =>
        exact ⟨line :: blanks, group, rest, us, es', q, chains, rfl,
          List.forall_mem_cons.mpr ⟨hblank, hblanks⟩, hgroup, hmore, hq, hsystem⟩
      · have hall := takes_append.mpr ⟨_, es, es', htakes, hmore, rfl⟩
        have hlines' : line :: (blanks ++ (group ++ rest)) = line :: blanks ++ group ++ rest := by
          simp
        rw [hlines']
        exact spells_of_group (.more hspelled hblanks hgroup) hall hq hsystem
    · -- the equation is complete
      obtain ⟨d₂, hline', hat⟩ := feed_complete h hspelled htakes hend
      obtain ⟨rfl, -⟩ := Prod.mk.inj (hline.symm.trans hline')
      obtain ⟨chains, hmore⟩ := ih hat rfl hlines
      obtain ⟨us, t, rfl⟩ := exists_snoc_term hdue htakes
      exact spells_of_group (.last hspelled) htakes hp hmore

/-- What reads to the end without a fault are the spellings of equations, and nothing else. -/
theorem feedAll_ok_iff_spelled [Zero α] (limits : Limits) (lines : List (List Char)) :
    (∃ d : Draft α, ((fresh limits).feedAll lines).value = .ok d ∧ d.session.finish.2 = .ok ()) ↔
      ∃ chains, SpelledSystem limits chains lines := by
  refine ⟨?_, ?_⟩
  · rintro ⟨d, hfeed, hfinish⟩
    exact spells_of_feedAll at_fresh rfl hfeed hfinish
  · rintro ⟨chains, hspelled⟩
    obtain ⟨d, hfeed, hat⟩ := feedAll_of_spelled hspelled (at_fresh (α := α))
    exact ⟨d, hfeed, by rw [Session.finish, hat.phase_eq]⟩

end Draft

end Simultaneous
