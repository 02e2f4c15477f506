import Mathlib
import Simultaneous.Proofs.Meaning
import Simultaneous.Proofs.Seams

/-!
Reading two texts in one.

Nothing of an equation that is complete shows in the reading of the next one, except for the number
of its row and the columns that its names have. So the system of two texts with a separator between
them has the equations of the one above those of the other, and a fault in one of the texts is found
in both together.
-/

namespace Simultaneous

open Equation
open Number (OfDecimal)

variable {α : Type}

/-! ### Sessions -/

namespace Equation.Session

/-- The sessions take every line alike. Their rows and their reports may differ. -/
structure Alike (s t : Session) : Prop where
  limits_eq : s.limits = t.limits
  phase_eq : s.phase = t.phase

variable {s t : Session}

lemma Alike.result_read (h : s.Alike t) (line : List Char) :
    (s.read line).result = (t.read line).result := by
  simp only [read, h.limits_eq, h.phase_eq]

lemma limits_note (s : Session) (r : Except ParseError Status) : (s.note r).limits = s.limits := by
  cases r <;> rfl

lemma phase_note (s : Session) (r : Except ParseError Status) : (s.note r).phase = s.phase := by
  cases r <;> rfl

lemma lineLength_note (s : Session) (r : Except ParseError Status) :
    (s.note r).lineLength = s.lineLength := by
  cases r <;> rfl

lemma limits_advance (s : Session) (ph : Phase) (r : Except ParseError LineEnd) :
    (s.advance ph r).limits = s.limits := by
  unfold advance
  split <;> rfl

lemma phase_advance (s : Session) (ph : Phase) (r : Except ParseError LineEnd) :
    (s.advance ph r).phase = if r = .ok .complete then .start else ph := by
  unfold advance
  split <;> simp_all

lemma lineLength_advance (s : Session) (ph : Phase) (r : Except ParseError LineEnd) :
    (s.advance ph r).lineLength = s.lineLength := by
  unfold advance
  split <;> rfl

lemma lineLength_read (s : Session) (line : List Char) :
    (s.read line).session.lineLength = line.length := by
  rw [read, lineLength_note, lineLength_advance]

lemma Alike.read (h : s.Alike t) (line : List Char) :
    (s.read line).session.Alike (t.read line).session := by
  simp only [Session.read]
  constructor
  · simp only [limits_note, limits_advance, h.limits_eq]
  · simp only [phase_note, phase_advance, h.limits_eq, h.phase_eq]

lemma Alike.finish (h : s.Alike t) (hlength : s.lineLength = t.lineLength) :
    s.finish.2 = t.finish.2 := by
  simp only [Session.finish, h.phase_eq, hlength]

end Equation.Session

/-! ### Readings -/

namespace Draft

variable [One α] [Add α] [Neg α] [OfDecimal α]

/-- Whether the lines can be read to the end of the input, and the first fault if not. -/
def verdict (d : Draft α) (lines : List (List Char)) : Except ParseError Unit :=
  (d.feedAll lines).value.bind fun d' => d'.session.finish.2

variable {d d' : Draft α} {line : List Char} {lines more : List (List Char)} {e : ParseError}

lemma feedAll_cons_of_error (h : (d.feed line).value.2 = .error e) :
    (d.feedAll (line :: lines)).value = .error e := by
  rw [feedAll_cons, h]
  rfl

lemma verdict_cons (d : Draft α) (line : List Char) (lines : List (List Char)) :
    d.verdict (line :: lines) =
      (d.feed line).value.2.bind fun _ => (d.feed line).value.1.verdict lines := by
  rw [verdict, feedAll_cons]
  cases (d.feed line).value.2 <;> rfl

/-- Sessions that are alike come to the same, if the lines last read are equally long. -/
lemma verdict_congr (h : d.session.Alike d'.session)
    (hlength : lines = [] → d.session.lineLength = d'.session.lineLength) :
    d.verdict lines = d'.verdict lines := by
  induction lines generalizing d d' with
  | nil => exact h.finish (hlength rfl)
  | cons line lines ih =>
    have hlast : (d.feed line).value.1.session.lineLength =
        (d'.feed line).value.1.session.lineLength :=
      (Session.lineLength_read _ line).trans (Session.lineLength_read _ line).symm
    rw [verdict_cons, verdict_cons, ih (h.read line) fun _ => hlast]
    exact congrArg (Except.bind · _) (h.result_read line)

lemma verdict_append (h : (d.feedAll lines).value = .ok d') :
    d.verdict (lines ++ more) = d'.verdict more := by
  rw [verdict, feedAll_append h, verdict]

lemma verdict_of_feedAll_error (h : (d.feedAll lines).value = .error e) :
    d.verdict lines = .error e := by
  rw [verdict, h]
  rfl

lemma feedAll_append_of_error (h : (d.feedAll lines).value = .error e) :
    (d.feedAll (lines ++ more)).value = .error e := by
  rw [feedAll_append_eq_bind, h]
  rfl

/-! ### Empty lines -/

/-- Between two lines a term is due. -/
lemma due_of_feed {e : LineEnd} (h : (d.feed line).value = (d', .ok e)) :
    d'.session.phase.due.isSome = true := by
  have hat : d.At d.session.limits d.session.phase d.session.equations d.system :=
    ⟨rfl, rfl, rfl, rfl⟩
  obtain ⟨ts, es, next, hspelled, htakes, hend⟩ := exists_spelled_of_feed hat h
  by_cases he : e = .complete
  · subst he
    obtain ⟨d₁, hline, hat₁⟩ := feed_complete hat hspelled htakes hend
    obtain ⟨rfl, -⟩ := Prod.mk.inj (h.symm.trans hline)
    rw [hat₁.phase_eq]
    rfl
  · obtain ⟨d₁, hline, hat₁⟩ := feed_continued hat hspelled htakes hend he
    obtain ⟨rfl, -⟩ := Prod.mk.inj (h.symm.trans hline)
    rw [hat₁.phase_eq]
    rcases lineEnd_eq_ok hend with ⟨rfl, -⟩ | ⟨p, minus, rfl, -⟩ | ⟨p, -, -, hcomplete⟩
    · rfl
    · rfl
    · exact absurd hcomplete he

lemma due_of_feedAll (hdue : d.session.phase.due.isSome = true)
    (h : (d.feedAll lines).value = .ok d') : d'.session.phase.due.isSome = true := by
  induction lines generalizing d with
  | nil => exact Except.ok.inj h ▸ hdue
  | cons line lines ih =>
    obtain ⟨d₁, e, hline, hrest⟩ := exists_feed_of_feedAll_cons h
    exact ih (due_of_feed hline) hrest

/-- Where a term is due, an empty line changes nothing. -/
lemma exists_feed_nil (hdue : d.session.phase.due.isSome = true) :
    ∃ d' e, (d.feed []).value = (d', .ok e) ∧
      d'.At d.session.limits d.session.phase d.session.equations d.system := by
  have hat : d.At d.session.limits d.session.phase d.session.equations d.system :=
    ⟨rfl, rfl, rfl, rfl⟩
  obtain ⟨e, hend, hne⟩ : ∃ e, d.session.phase.lineEnd = .ok e ∧ e ≠ .complete := by
    cases hph : d.session.phase with
    | start => exact ⟨.blank, rfl, by decide⟩
    | term p minus => exact ⟨.continued, rfl, by decide⟩
    | operator p => simp [hph, Phase.due] at hdue
  obtain ⟨d', hfeed, hat'⟩ := feed_continued hat (.nil (List.forall_mem_nil _)) (.nil _) hend hne
  exact ⟨d', e, hfeed, hat'⟩

variable [Zero α] {limits : Limits}

lemma exists_spelled_of_concat_nil
    (h : ((fresh limits : Draft α).feedAll (lines ++ [[]])).value = .ok d)
    (hfinish : d.session.finish.2 = .ok ()) : ∃ es, SpelledSystem limits es lines := by
  cases hlines : ((fresh limits : Draft α).feedAll lines).value with
  | error e => exact nomatch (feedAll_append_of_error hlines).symm.trans h
  | ok d₁ =>
    obtain ⟨d₂, e, hfeed, hat⟩ := exists_feed_nil (due_of_feedAll rfl hlines)
    rw [feedAll_append hlines, feedAll_cons_of_feed hfeed] at h
    obtain rfl := Except.ok.inj h
    -- the fault of an unfinished equation does not depend on the empty line
    have hfinish₁ : d₁.session.finish.2 = .ok () := by
      rw [Session.finish, hat.phase_eq] at hfinish
      rw [Session.finish]
      cases hph : d₁.session.phase <;> simp_all
    exact spells_of_feedAll at_fresh rfl hlines hfinish₁

lemma feedAll_of_concat_nil_error
    (h : ((fresh limits : Draft α).feedAll (lines ++ [[]])).value = .error e) :
    ((fresh limits : Draft α).feedAll lines).value = .error e := by
  cases hlines : ((fresh limits : Draft α).feedAll lines).value with
  | error e' => exact (feedAll_append_of_error hlines).symm.trans h
  | ok d₁ =>
    obtain ⟨d₂, end', hfeed, -⟩ := exists_feed_nil (due_of_feedAll rfl hlines)
    rw [feedAll_append hlines, feedAll_cons_of_feed hfeed] at h
    exact nomatch h

lemma exists_spelled_of_cons_nil
    (h : ((fresh limits : Draft α).feedAll ([] :: lines)).value = .ok d)
    (hfinish : d.session.finish.2 = .ok ()) : ∃ es, SpelledSystem limits es lines := by
  obtain ⟨d₁, e, hfeed, hat⟩ := exists_feed_nil (d := (fresh limits : Draft α)) rfl
  rw [feedAll_cons_of_feed hfeed] at h
  exact spells_of_feedAll hat rfl h hfinish

lemma verdict_nil_cons (hne : lines ≠ []) :
    (fresh limits : Draft α).verdict ([] :: lines) = (fresh limits : Draft α).verdict lines := by
  obtain ⟨d₁, e, hfeed, hat⟩ := exists_feed_nil (d := (fresh limits : Draft α)) rfl
  rw [verdict_cons, hfeed]
  exact verdict_congr ⟨hat.limits_eq, hat.phase_eq⟩ fun hnil => absurd hnil hne

end Draft

/-! ### Systems -/

lemma Equation.SpelledSystem.append {limits : Limits} {es es' : List Chain}
    {lines more : List (List Char)}
    (h : SpelledSystem limits es lines) (h' : SpelledSystem limits es' more) :
    SpelledSystem limits (es ++ es') (lines ++ more) := by
  induction h with
  | nil => exact h'
  | blank hblank _ ih => exact .blank hblank ih
  | equation hequation hgroup _ ih =>
    rw [List.append_assoc]
    exact .equation hequation hgroup ih

namespace LinearSystem

/-- The equations of one system above those of another, which find their columns by name. -/
structure Stacks (s₁ s₂ s : LinearSystem α) : Prop where
  equationCount_eq : s.equationCount = s₁.equationCount + s₂.equationCount
  names_eq : s.names = s₁.names ++ s₂.names.filter (· ∉ s₁.names)
  above : ∀ i j, i < s₁.equationCount → s.matrix.get? (i, j) = s₁.matrix.get? (i, j)
  below : ∀ i j name, s₂.names[j]? = some name →
    s.matrix.get? (s₁.equationCount + i, s.column name) = s₂.matrix.get? (i, j)
  below_else : ∀ i j, (∀ name ∈ s₂.names, s.column name ≠ j) →
    s.matrix.get? (s₁.equationCount + i, j) = none
  rhs_above : ∀ i, i < s₁.equationCount → s.rhs.get? i = s₁.rhs.get? i
  rhs_below : ∀ i, s.rhs.get? (s₁.equationCount + i) = s₂.rhs.get? i

variable [Zero α] [One α] [Add α] [Neg α] [OfDecimal α] {s s₁ s₂ : LinearSystem α}
  {es es₁ es₂ : List Chain}

lemma Means.nodup_names (h : s.Means es) : s.names.Nodup := h.names_eq ▸ nodup_eraseDups _

lemma Means.coefficient?_eq_none (h : s.Means es) {e : Chain} (he : e ∈ es) {name : String}
    (hname : name ∉ s.names) : (e.coefficient? name : Option α) = none := by
  refine if_neg fun hmem => hname ?_
  rw [h.names_eq, List.mem_eraseDups, List.mem_flatMap]
  exact ⟨e, he, hmem⟩

/-- The system of equations in a row has those of the first above those of the last. -/
lemma Means.stacks (h₁ : s₁.Means es₁) (h₂ : s₂.Means es₂) (h : s.Means (es₁ ++ es₂)) :
    Stacks s₁ s₂ s := by
  have hnames : s.names = s₁.names ++ s₂.names.filter (· ∉ s₁.names) := by
    rw [h.names_eq, h₁.names_eq, h₂.names_eq, List.flatMap_append, eraseDups_append_filter]
  have hbelow (i : ℕ) : (es₁ ++ es₂)[s₁.equationCount + i]? = es₂[i]? := by
    rw [h₁.equationCount_eq, List.getElem?_append_right (Nat.le_add_right _ _),
      Nat.add_sub_cancel_left]
  have habove {i : ℕ} (hi : i < s₁.equationCount) : (es₁ ++ es₂)[i]? = es₁[i]? :=
    List.getElem?_append_left (h₁.equationCount_eq ▸ hi)
  refine ⟨?_, hnames, fun i j hi => ?_, fun i j name hname => ?_, fun i j hj => ?_,
    fun i hi => ?_, fun i => ?_⟩
  · rw [h.equationCount_eq, h₁.equationCount_eq, h₂.equationCount_eq, List.length_append]
  · rw [h.matrix_eq, h₁.matrix_eq, habove hi, hnames]
    by_cases hj : j < s₁.names.length
    · rw [List.getElem?_append_left hj]
    · -- a column behind those of the first system has a name that its equations lack
      rw [List.getElem?_eq_none (not_lt.mp hj)]
      refine Option.bind_congr fun e he => ?_
      rw [List.getElem?_append_right (not_lt.mp hj), Option.bind_none]
      refine Option.bind_eq_none_iff.mpr fun name hname => ?_
      have hnew := List.mem_filter.mp (List.mem_of_getElem? hname)
      exact h₁.coefficient?_eq_none (List.mem_of_getElem? he) (of_decide_eq_true hnew.2)
  · have hmem : name ∈ s.names := by
      rw [hnames, List.mem_append, List.mem_filter]
      by_cases h' : name ∈ s₁.names
      · exact .inl h'
      · exact .inr ⟨List.mem_of_getElem? hname, decide_eq_true h'⟩
    have hcolumn : s.names[s.column name]? = some name := List.getElem?_idxOf hmem
    rw [h.matrix_eq, h₂.matrix_eq, hbelow, hcolumn, hname]
  · rw [h.matrix_eq, hbelow]
    refine Option.bind_eq_none_iff.mpr fun e he => Option.bind_eq_none_iff.mpr fun name hname => ?_
    refine h₂.coefficient?_eq_none (List.mem_of_getElem? he) fun hmem => hj name hmem ?_
    obtain ⟨hlt, rfl⟩ := List.getElem?_eq_some_iff.mp hname
    exact h.nodup_names.idxOf_getElem j hlt
  · rw [h.rhs_eq, h₁.rhs_eq, habove hi]
  · rw [h.rhs_eq, h₂.rhs_eq, hbelow]

/-! ### Texts -/

variable {limits : Limits} {text : String}

lemma ofText_eq_error_iff {e : ParseError} :
    (ofText limits text : Logged (Record α) _).value = .error e ↔
      (Draft.fresh limits : Draft α).verdict (Text.splitChars text.toList) = .error e := by
  rw [ofText, Logged.value_bind, Draft.verdict]
  cases ((Draft.fresh limits : Draft α).feedAll (Text.splitChars text.toList)).value with
  | error e => simp [Except.bind]
  | ok d => cases h : d.session.finish.2 <;> simp [h, Except.map, Except.bind]

lemma exists_means_of_before (h : (ofText limits text).value = .ok s) {lines : List (List Char)}
    (hlines : Text.splitChars text.toList = lines ∨ Text.splitChars text.toList = lines ++ [[]]) :
    ∃ es, SpelledSystem limits es lines ∧ s.Means es := by
  rcases hlines with rfl | hlines
  · obtain ⟨es, hes⟩ := exists_spelled_of_ofText h
    exact ⟨es, hes, means_of_spelled h hes⟩
  · obtain ⟨d, hfeed, hfinish, -⟩ := ofText_eq_ok_iff.mp h
    obtain ⟨es, hes⟩ := Draft.exists_spelled_of_concat_nil (hlines ▸ hfeed) hfinish
    have hall := hes.append (.blank (List.forall_mem_nil _) .nil)
    rw [List.append_nil, ← hlines] at hall
    exact ⟨es, hes, means_of_spelled h hall⟩

lemma exists_means_of_after (h : (ofText limits text).value = .ok s) {lines : List (List Char)}
    (hlines : Text.splitChars text.toList = lines ∨ Text.splitChars text.toList = [] :: lines) :
    ∃ es, SpelledSystem limits es lines ∧ s.Means es := by
  rcases hlines with rfl | hlines
  · obtain ⟨es, hes⟩ := exists_spelled_of_ofText h
    exact ⟨es, hes, means_of_spelled h hes⟩
  · obtain ⟨d, hfeed, hfinish, -⟩ := ofText_eq_ok_iff.mp h
    obtain ⟨es, hes⟩ := Draft.exists_spelled_of_cons_nil (hlines ▸ hfeed) hfinish
    have hall : SpelledSystem limits es ([] :: lines) := .blank (List.forall_mem_nil _) hes
    rw [← hlines] at hall
    exact ⟨es, hes, means_of_spelled h hall⟩

/-- **Composition**: the system of two texts with a separator between them stacks those of the two
texts. If only the first text can be read, the fault in the second is found, and a fault in a line
of the first is found whatever follows. -/
theorem ofText_append (limits : Limits) (t₁ t₂ : String) (sep : Text.Separator) :
    let both := t₁ ++ String.ofList sep.chars ++ t₂
    (∀ s₁ s₂ : LinearSystem α, (ofText limits t₁).value = .ok s₁ →
        (ofText limits t₂).value = .ok s₂ →
        ∃ s, (ofText limits both).value = .ok s ∧ Stacks s₁ s₂ s) ∧
      (∀ (s₁ : LinearSystem α) e, (ofText limits t₁).value = .ok s₁ →
        (ofText limits t₂ : Logged (Record α) _).value = .error e →
        (ofText limits both : Logged (Record α) _).value = .error e) ∧
      (∀ before line after e (d : Draft α),
        Text.splitChars t₁.toList = before ++ line :: after →
        ((Draft.fresh limits).feedAll before).value = .ok d →
        (d.feed line).value.2 = .error e →
        (ofText limits both : Logged (Record α) _).value = .error e) := by
  intro both
  obtain ⟨us, vs, hboth, hus, hvs⟩ := Text.exists_splitChars_join sep t₁.toList t₂.toList
  replace hboth : Text.splitChars both.toList = Text.splitChars us ++ Text.splitChars vs := by
    simpa [both] using hboth
  refine ⟨fun s₁ s₂ h₁ h₂ => ?_, fun s₁ e h₁ h₂ => ?_, fun before line after e d hlines hd he => ?_⟩
  · obtain ⟨es₁, hes₁, hmeans₁⟩ := exists_means_of_before h₁ hus
    obtain ⟨es₂, hes₂, hmeans₂⟩ := exists_means_of_after h₂ hvs
    have hes : SpelledSystem limits (es₁ ++ es₂) (Text.splitChars both.toList) :=
      hboth ▸ hes₁.append hes₂
    exact ⟨_, ofText_of_spelled hes, hmeans₁.stacks hmeans₂ (means_enterAll _)⟩
  · obtain ⟨es₁, hes₁, -⟩ := exists_means_of_before h₁ hus
    obtain ⟨d, hd, hat⟩ := Draft.feedAll_of_spelled hes₁ (Draft.at_fresh (α := α))
    have hne := Text.splitChars_ne_nil vs
    -- the rows that the first text has filled do not matter to the second
    have hsecond : (Draft.fresh limits : Draft α).verdict (Text.splitChars vs) = .error e := by
      rw [ofText_eq_error_iff] at h₂
      rcases hvs with hvs | hvs
      · rwa [hvs] at h₂
      · rwa [hvs, Draft.verdict_nil_cons hne] at h₂
    rw [ofText_eq_error_iff, hboth, Draft.verdict_append hd, ← hsecond]
    exact Draft.verdict_congr ⟨hat.limits_eq, hat.phase_eq⟩ fun hnil => absurd hnil hne
  · have hfirst : ((Draft.fresh limits : Draft α).feedAll (Text.splitChars t₁.toList)).value =
        .error e := by
      rw [hlines, Draft.feedAll_append hd, Draft.feedAll_cons_of_error he]
    have hbefore : ((Draft.fresh limits : Draft α).feedAll (Text.splitChars us)).value =
        .error e := by
      rcases hus with hus | hus
      · rwa [hus] at hfirst
      · exact Draft.feedAll_of_concat_nil_error (hus ▸ hfirst)
    rw [ofText_eq_error_iff, hboth]
    exact Draft.verdict_of_feedAll_error (Draft.feedAll_append_of_error hbefore)

/-- The return at the end of the first text and the line feed behind it are one line break. The
line `2 y` lacks an equal sign, whether it comes first or last. -/
theorem ofText_append_line_feed :
    (∃ s₁ s₂ s : LinearSystem ℚ, (ofText {} "x = 1\r").value = .ok s₁ ∧
        (ofText {} "2 y = x").value = .ok s₂ ∧
        (ofText {} "x = 1\r\n2 y = x").value = .ok s ∧ Stacks s₁ s₂ s) ∧
      (ofText {} "x = 1\r\n2 y" : Logged (Record ℚ) _).value = .error ⟨.noEqualSign, 3⟩ ∧
      (ofText {} "2 y\nx = 1\r" : Logged (Record ℚ) _).value = .error ⟨.noEqualSign, 3⟩ := by
  have hok (text : String) (h : (ofText {} text : Logged (Record ℚ) _).value.toBool = true) :
      ∃ s : LinearSystem ℚ, (ofText {} text).value = .ok s := by
    cases hs : (ofText {} text : Logged (Record ℚ) _).value with
    | error e => exact nomatch (congrArg Except.toBool hs).symm.trans h
    | ok s => exact ⟨s, rfl⟩
  obtain ⟨s₁, h₁⟩ := hok "x = 1\r" (by decide +kernel)
  obtain ⟨s₂, h₂⟩ := hok "2 y = x" (by decide +kernel)
  obtain ⟨s, h, hstacks⟩ := (ofText_append {} "x = 1\r" "2 y = x" .lineFeed).1 s₁ s₂ h₁ h₂
  refine ⟨⟨s₁, s₂, s, h₁, h₂, h, hstacks⟩, ?_, ?_⟩
  · exact (ofText_append {} "x = 1\r" "2 y" .lineFeed).2.1 s₁ _ h₁
      (ofText_eq_error_iff.mpr (by decide +kernel))
  · exact (ofText_append {} "2 y" "x = 1\r" .lineFeed).2.2 [] "2 y".toList [] _ (Draft.fresh {})
      (by decide +kernel) rfl (by decide +kernel)

end LinearSystem

end Simultaneous
