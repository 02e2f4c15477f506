import Mathlib
import Simultaneous.Proofs.Cursors
import Simultaneous.Proofs.Ledger

/-!
How far the cursor gets.

The loop over a line knows neither how long the line is nor how many tokens are on it: it goes on
until the cursor is at the end or a fault is found, and what makes it end is that every token takes
a character at least. That holds although each part of a term may be missing, and whatever the notes
at the start of the line are.
-/

namespace Simultaneous.Equation

open Number (Decimal)
open Text (isNameChar skipBlanks)

/-! ### Terms and operators -/

namespace Walk

variable {β : Type} {W : Walk β} {R : Reader β} {c c' : Cursor} {limits : Limits}

/-- The cursor stays on the line and passes all that it leaves behind. -/
def Moves (W : Walk β) : Prop :=
  ∀ c : Cursor, c.position ≤ c.line.length → c.Passes (W c).2

lemma Tracks.moves (h : W.Tracks R) : W.Moves :=
  fun c hc => (h c hc).leads.passes hc

lemma TracksAt.reads {b : β} (h : W.TracksAt R c) (hW : W c = (.ok b, c')) :
    c.Leads c' ∧ R c.rest = .ok (b, c'.rest) := by
  obtain ⟨hleads, hanswer⟩ := h
  rw [hW] at hleads hanswer
  exact ⟨hleads, mapError_eq_ok_iff.mp hanswer.symm⟩

/-- A term that is read takes a character at least, and what the cursor passes spells it. -/
lemma scanTerm_of_ok (hc : c.position ≤ c.line.length) {t : Term} {d : Option Decimal}
    (h : scanTerm limits c = (.ok (t, d), c')) :
    c.position < c'.position ∧ d = t.quantity.literal?.map Literal.decimal ∧
      ∃ text bs, c.rest = text ++ bs ++ c'.rest ∧ t.Spelled limits text ∧ IsBlank bs := by
  obtain ⟨hleads, hread⟩ := (tracks_scanTerm limits c hc).reads h
  obtain ⟨⟨⟨t', d'⟩, rest⟩, hconverted, hblanks⟩ := bind_eq_ok.mp hread
  obtain ⟨ht, rfl⟩ := readConverted_eq_ok_iff.mp hconverted
  obtain ⟨hvalue, hrest⟩ := Prod.mk.inj (Except.ok.inj hblanks)
  obtain ⟨rfl, rfl⟩ := Prod.mk.inj hvalue
  have hrest' : c'.rest = skipBlanks rest := hrest.symm
  have hlt : c'.rest.length < c.rest.length := by
    have hskip := Text.length_skipBlanks_le rest
    have hterm := (suffix_of_readTerm ht).2
    rw [hrest']
    omega
  obtain ⟨text, bs, hspelled, hbs, hcs⟩ := spelled_of_readTerm ht
  obtain ⟨bs', hbs', hsplit⟩ := exists_eq_append_skipBlanks rest
  refine ⟨hleads.position_lt_of_length_rest hlt, rfl, text, bs ++ bs', ?_, hspelled,
    hbs.append hbs'⟩
  rw [hcs, hrest', List.append_assoc _ _ (skipBlanks rest), List.append_assoc bs, ← hsplit]
  exact List.append_assoc _ _ _

lemma scanOperator_of_ok (hc : c.position ≤ c.line.length) {equalSign : Bool} {o : Operator}
    (h : scanOperator equalSign c = (.ok (some o), c')) :
    c.position < c'.position ∧ ∃ bs, c.rest = bs ++ o.text ++ c'.rest ∧ IsBlank bs := by
  obtain ⟨hleads, hread⟩ := (tracks_scanOperator equalSign c hc).reads h
  rw [readOperatorUnless] at hread
  cases ho : readOperator (skipBlanks c.rest) with
  | none =>
    rw [ho] at hread
    cases hread
  | some r =>
    obtain ⟨o', rest⟩ := r
    simp only [ho] at hread
    split_ifs at hread
    obtain ⟨heq, rfl⟩ := Prod.mk.inj (Except.ok.inj hread)
    obtain rfl := Option.some.inj heq
    have hlt : c'.rest.length < c.rest.length := by
      have hskip := Text.length_skipBlanks_le c.rest
      have hoperator := (suffix_of_readOperator ho).2
      omega
    obtain ⟨bs, hbs, hsplit⟩ := exists_eq_append_skipBlanks c.rest
    refine ⟨hleads.position_lt_of_length_rest hlt, bs, ?_, hbs⟩
    rw [List.append_assoc, ← eq_of_readOperator ho]
    exact hsplit

end Walk

/-! ### Turns of the loop -/

namespace Marks

/-- One token, as `Marks.step` takes it off the front of a line, and the white space behind a
term. -/
def pass (limits : Limits) (m : Marks) (c : Cursor) :
    Marks × Except ParseError (Option Entry) × Cursor :=
  match m.turn with
  | .term =>
    match Walk.scanTerm limits c with
    | (.error e, c) => (m, .error e, c)
    | (.ok (t, _), c) =>
      let negative := m.flags.equalSign ^^ m.minus ^^ t.sign == some .minus
      ({ m with turn := .operator, flags := m.flags.addTerm t },
        .ok (some ⟨negative, t.quantity⟩), c)
  | .operator =>
    let m : Marks := ⟨.operator, m.flags, false⟩
    match Walk.scanOperator m.flags.equalSign c with
    | (.error e, c) => (m, .error e, c)
    | (.ok none, c) => (m, .error ⟨.illegalEquation, c.position⟩, c)
    | (.ok (some o), c) => (⟨.term, m.flags.addOperator o, o.isMinus⟩, .ok none, c)

/-- What a line comes to, and where the cursor is then. -/
structure Outcome where
  entries : List Entry
  marks : Marks
  fault : Option ParseError
  cursor : Cursor

/-- The cursor behind white space. -/
def front (c : Cursor) : Cursor := (Walk.blanks c).2

/-- The loop over a line, with the number of turns in which it takes a token or finds a fault. The
look that finds the end of the line ends the loop and is no such turn. The last pass of a refinement
is one, since it works before it ends its loop. -/
inductive Runs (limits : Limits) : Marks → Cursor → ℕ → Outcome → Prop where
  | stop {m : Marks} {c : Cursor} (hend : (front c).atEnd = true) :
    Runs limits m c 0 ⟨[], m, none, front c⟩
  | fault {m m' : Marks} {c c' : Cursor} {e : ParseError} (hmore : (front c).atEnd = false)
    (hpass : m.pass limits (front c) = (m', .error e, c')) : Runs limits m c 1 ⟨[], m', some e, c'⟩
  | next {m m' : Marks} {c c' : Cursor} {entry : Option Entry} {n : ℕ} {r : Outcome}
    (hmore : (front c).atEnd = false)
    (hpass : m.pass limits (front c) = (m', .ok entry, c')) (hnext : Runs limits m' c' n r) :
    Runs limits m c (n + 1) { r with entries := entry.toList ++ r.entries }

variable {limits : Limits} {m m' : Marks} {c c' : Cursor} {cs ds rest : List Char}

/-- The loop can go one way only. -/
lemma Runs.unique {n n' : ℕ} {r r' : Outcome} (h : Runs limits m c n r)
    (h' : Runs limits m c n' r') :
    n' = n ∧ r' = r := by
  induction h generalizing n' r' with
  | stop hend =>
    cases h' with
    | stop => exact ⟨rfl, rfl⟩
    | fault hmore | next hmore => exact nomatch hend.symm.trans hmore
  | fault hmore hpass =>
    cases h' with
    | stop hend => exact nomatch hend.symm.trans hmore
    | fault _ hpass' =>
      obtain ⟨rfl, heq⟩ := Prod.mk.inj (hpass.symm.trans hpass')
      obtain ⟨he, rfl⟩ := Prod.mk.inj heq
      obtain rfl := Except.error.inj he
      exact ⟨rfl, rfl⟩
    | next _ hpass' =>
      obtain ⟨-, heq⟩ := Prod.mk.inj (hpass.symm.trans hpass')
      exact nomatch (Prod.mk.inj heq).1
  | next hmore hpass _ ih =>
    cases h' with
    | stop hend => exact nomatch hend.symm.trans hmore
    | fault _ hpass' =>
      obtain ⟨-, heq⟩ := Prod.mk.inj (hpass.symm.trans hpass')
      exact nomatch (Prod.mk.inj heq).1
    | next _ hpass' hnext' =>
      obtain ⟨rfl, heq⟩ := Prod.mk.inj (hpass.symm.trans hpass')
      obtain ⟨hentry, rfl⟩ := Prod.mk.inj heq
      obtain rfl := Except.ok.inj hentry
      obtain ⟨rfl, rfl⟩ := ih hnext'
      exact ⟨rfl, rfl⟩

lemma scan_congr (h : skipBlanks cs = skipBlanks ds) : m.scan limits cs = m.scan limits ds := by
  by_cases hne : skipBlanks cs = []
  · rw [scan_of_blank hne, scan_of_blank (h ▸ hne)]
  · rcases hs : m.step limits (skipBlanks cs) with ⟨m', stop | ⟨entry, rest⟩⟩
    · exact (scan_of_error hne hs).trans (scan_of_error (h ▸ hne) (h ▸ hs)).symm
    · exact (scan_of_ok hne hs).trans (scan_of_ok (h ▸ hne) (h ▸ hs)).symm

lemma front_spec (hc : c.position ≤ c.line.length) :
    c.Leads (front c) ∧ (front c).rest = skipBlanks c.rest := by
  obtain ⟨c', hwalk, hleads, hrest⟩ := (Walk.tracks_blanks c hc).exists_of_ok rfl
  have hfront : front c = c' := congrArg Prod.snd hwalk
  rw [hfront]
  exact ⟨hleads, hrest⟩

/-- A token off the front of a line, and what a cursor at that front does: it finds the same fault
at its position in the line, or it passes at least one character, up to the same place. -/
inductive Corresponds (c : Cursor) : Marks × Except Stop (Option Entry × List Char) →
    Marks × Except ParseError (Option Entry) × Cursor → Prop where
  | error {m : Marks} {f : Fault} {rest : List Char} {c' : Cursor} (leads : c.Leads c') :
    Corresponds c (m, .error (.fault f, rest))
      (m, .error ((⟨f, rest⟩ : Offence).inLine c.line), c')
  | ok {m : Marks} {entry : Option Entry} {rest : List Char} {c' : Cursor} (leads : c.Leads c')
    (position_lt : c.position < c'.position) (skip_eq : skipBlanks c'.rest = skipBlanks rest) :
    Corresponds c (m, .ok (entry, rest)) (m, .ok entry, c')

lemma corresponds_term (hc : c.position ≤ c.line.length) (hturn : m.turn = .term) :
    Corresponds c (m.step limits c.rest) (m.pass limits c) := by
  have htracks := Walk.tracks_scanTerm limits c hc
  rw [step, pass, hturn]
  cases ht : readTerm limits c.rest with
  | error o =>
    have hconverted : readConverted limits c.rest = .error o := by
      rw [readConverted_eq, ht]
      rfl
    obtain ⟨c', hwalk, hleads⟩ := htracks.exists_of_error (Reader.andThen_of_error hconverted)
    rw [hwalk]
    exact .error hleads
  | ok r =>
    obtain ⟨t, rest⟩ := r
    have hconverted := readConverted_eq_ok_iff.mpr ⟨ht, rfl⟩
    obtain ⟨c', hwalk, hleads, hrest⟩ := htracks.exists_of_ok (Reader.andThen_of_ok hconverted)
    have hskip : skipBlanks c'.rest = skipBlanks rest := by
      rw [hrest]
      exact skipBlanks_skipBlanks rest
    have hlt := (Walk.scanTerm_of_ok hc hwalk).1
    rw [hwalk]
    exact .ok hleads hlt hskip

lemma corresponds_operator (hc : c.position ≤ c.line.length)
    (hfront : skipBlanks c.rest = c.rest) (hturn : m.turn = .operator) :
    Corresponds c (m.step limits c.rest) (m.pass limits c) := by
  have htracks := Walk.tracks_scanOperator m.flags.equalSign c hc
  rw [step, pass, hturn]
  dsimp only
  cases ho : readOperator c.rest with
  | none =>
    have hread : readOperatorUnless m.flags.equalSign c.rest = .ok (none, c.rest) := by
      rw [readOperatorUnless, hfront, ho]
    obtain ⟨c', hwalk, hleads, hrest⟩ := htracks.exists_of_ok hread
    have hposition := Cursor.inLine_rest .illegalEquation (hleads.inside hc)
    rw [hrest, hleads.line_eq] at hposition
    rw [hwalk]
    dsimp only
    rw [← hposition]
    exact .error hleads
  | some r =>
    obtain ⟨o, rest⟩ := r
    have hread : readOperatorUnless m.flags.equalSign c.rest =
        if o.isEquals && m.flags.equalSign then .error ⟨.multipleEqualSigns, c.rest⟩
        else .ok (some o, rest) := by
      rw [readOperatorUnless, hfront, ho]
    dsimp only
    by_cases hsecond : (o.isEquals && m.flags.equalSign) = true
    · rw [if_pos hsecond] at hread ⊢
      obtain ⟨c', hwalk, hleads⟩ := htracks.exists_of_error hread
      rw [hwalk]
      exact .error hleads
    · rw [if_neg hsecond] at hread ⊢
      obtain ⟨c', hwalk, hleads, hrest⟩ := htracks.exists_of_ok hread
      have hlt := (Walk.scanOperator_of_ok hc hwalk).1
      rw [hwalk]
      exact .ok hleads hlt (by rw [hrest])

lemma corresponds_pass (limits : Limits) (m : Marks) (hc : c.position ≤ c.line.length)
    (hfront : skipBlanks c.rest = c.rest) :
    Corresponds c (m.step limits c.rest) (m.pass limits c) := by
  cases hturn : m.turn with
  | term => exact corresponds_term hc hturn
  | operator => exact corresponds_operator hc hfront hturn

/-! ### The loop -/

/-- What the loop comes to is what the line comes to, and the cursor has not stood still. -/
structure Outcome.Accounts (r : Outcome) (limits : Limits) (m : Marks) (c : Cursor) (n : ℕ) :
    Prop where
  leads : c.Leads r.cursor
  turns_le : n ≤ c.rest.length
  /-- Without a fault nothing is left of the line. -/
  all : r.fault = none → r.cursor.atEnd = true
  entries_eq : r.entries = (m.scan limits c.rest).entries
  marks_eq : r.marks = (m.scan limits c.rest).marks
  fault_eq : r.fault.map (fun e => (Status.fault e.fault, e.position)) =
    (m.scan limits c.rest).stop.map fun s => (s.1, c.line.length - s.2.length)

/-- The loop ends, whatever the notes are. -/
lemma exists_runs (limits : Limits) (m : Marks) (c : Cursor) (hc : c.position ≤ c.line.length) :
    ∃ n r, Runs limits m c n r ∧ r.Accounts limits m c n := by
  -- by the length of what is left of the line
  induction hn : c.rest.length using Nat.strong_induction_on generalizing m c with
  | _ k ih =>
    obtain ⟨hleads, hrest⟩ := front_spec hc
    have hinside := hleads.inside hc
    by_cases hblank : skipBlanks c.rest = []
    · -- only white space is left
      have hend : (front c).atEnd = true := by rw [← Cursor.rest_eq_nil_iff, hrest, hblank]
      refine ⟨0, _, .stop hend, hleads, Nat.zero_le _, fun _ => hend, ?_, ?_, ?_⟩
      all_goals rw [scan_of_blank hblank]
      rfl
    have hmore : (front c).atEnd = false := by
      rw [← hrest, Cursor.rest_eq_nil_iff, Bool.not_eq_true] at hblank
      exact hblank
    have hfront : skipBlanks (front c).rest = (front c).rest := by
      rw [hrest, skipBlanks_skipBlanks]
    have hskip := Text.length_skipBlanks_le c.rest
    have hpos : 0 < (skipBlanks c.rest).length := List.length_pos_iff.mpr hblank
    have hturn := corresponds_pass limits m hinside hfront
    rw [hrest] at hturn
    rcases hs : m.step limits (skipBlanks c.rest) with ⟨m', out⟩
    rcases hpass : m.pass limits (front c) with ⟨m'', out', c'⟩
    rw [hs, hpass] at hturn
    cases hturn with
    | error hleads' =>
      -- a character is left, and this turn is the last
      refine ⟨1, _, .fault hmore hpass, hleads.trans hleads', by omega, nofun, ?_, ?_, ?_⟩
      all_goals rw [scan_of_error hblank hs]
      rw [hleads.line_eq]
      rfl
    | ok hleads' hlt hafter =>
      -- the turn has taken a character, and the others take no more than what is left
      have hall := hleads.trans hleads'
      have hshorter := hall.length_rest_lt hc (hleads.position_le.trans_lt hlt)
      obtain ⟨n, r, hruns, haccounts⟩ := ih _ (hn ▸ hshorter) m' c' (hall.inside hc) rfl
      obtain ⟨hleads'', hturns, hend, hentries, hmarks, hfault⟩ := haccounts
      rw [scan_congr hafter] at hentries hmarks hfault
      refine ⟨n + 1, _, .next hmore hpass hruns, hall.trans hleads'', by omega, hend, ?_, ?_, ?_⟩
      all_goals rw [scan_of_ok hblank hs]
      · rw [hentries]
      · exact hmarks
      · rw [hfault, hall.line_eq]

/-- How the line is taken, as it is told from the outcome of the loop. -/
def Outcome.result (r : Outcome) : Except ParseError LineEnd :=
  match r.fault with
  | some e => .error e
  | none => r.marks.phase.lineEnd.mapError (⟨·, r.cursor.line.length⟩)

/-- A session reads the line as the loop does with notes that stand for its phase. -/
lemma Outcome.Accounts.read {s : Session} {line : List Char} {n : ℕ} {r : Outcome}
    (h : r.Accounts limits m ⟨line, 0, []⟩ n) (hlimits : s.limits = limits) (hm : m.Coherent)
    (hphase : m.phase = s.phase) :
    r.entries = (s.read line).entries ∧ r.result = (s.read line).result := by
  subst hlimits
  obtain ⟨hleads, -, -, hentries, hmarks, hfault⟩ := h
  obtain ⟨m', hscan, -, hlater⟩ := scan_of_coherent hm s.limits line
  have hrest : (⟨line, 0, []⟩ : Cursor).rest = line := rfl
  rw [hrest, hscan, hphase] at hentries hmarks hfault
  rw [hphase] at hlater
  refine ⟨hentries, ?_⟩
  rw [Outcome.result, Session.read, hmarks, hlater, hleads.line_eq]
  dsimp only at hfault ⊢
  cases ho : (Equation.scan s.limits s.phase line).offence with
  | none =>
    rw [ho] at hfault
    have hnone : r.fault = none := Option.map_eq_none_iff.mp hfault
    rw [hnone]
  | some o =>
    rw [ho] at hfault
    obtain ⟨e, he, heq⟩ := Option.map_eq_some_iff.mp hfault
    obtain ⟨hsame, hposition⟩ := Prod.mk.inj heq
    have hoffence : e = o.inLine line := by
      obtain ⟨f, position⟩ := e
      obtain rfl := Status.fault.inj hsame
      obtain rfl := hposition
      rfl
    rw [he, hoffence]

/-- A line without a fault is read from end to end, every character once. -/
lemma Outcome.Accounts.trail_eq {line : List Char} {n : ℕ} {r : Outcome}
    (h : r.Accounts limits m ⟨line, 0, []⟩ n) (hfault : r.fault = none) :
    r.cursor.trail.map Prod.fst = List.range line.length := by
  have hpasses := h.leads.passes (Nat.zero_le _)
  obtain ⟨trail, htrail, hpositions, -⟩ := hpasses.trail
  have hend : r.cursor.line.length ≤ r.cursor.position := by
    have hatEnd := h.all hfault
    rwa [Cursor.atEnd, decide_eq_true_eq] at hatEnd
  have hposition : r.cursor.position = line.length := by
    have hinside := hpasses.inside
    rw [hpasses.line_eq] at hinside hend
    exact le_antisymm hinside hend
  rw [htrail, List.nil_append, hpositions, hposition, List.range_eq_range']
  rfl

lemma Runs.read_after {calls : List Call} {line : List Char} {n : ℕ} {r : Outcome}
    (h : Runs limits ((Ledger.fresh limits).after calls).marks ⟨line, 0, []⟩ n r) :
    r.entries = (((Session.fresh limits).after calls).read line).entries ∧
      r.result = (((Session.fresh limits).after calls).read line).result := by
  have htracks := (Ledger.tracks_fresh limits).after calls
  have hlimits : ((Session.fresh limits).after calls).limits = limits :=
    Session.limits_after _ calls
  obtain ⟨n', r', hruns, haccounts⟩ :=
    exists_runs limits ((Ledger.fresh limits).after calls).marks ⟨line, 0, []⟩ (Nat.zero_le _)
  obtain ⟨rfl, rfl⟩ := hruns.unique h
  exact haccounts.read hlimits htracks.coherent htracks.phase_eq

end Marks

open Marks (Runs)

/-- **The loop over a line ends** after at most as many turns as the line has characters, whatever
the notes at its start are and however malformed the line is. No walk leaves the line or goes back,
each passes the characters between two stops once and takes them for something, and a term or an
operator that is read takes one character at least. The outcome is the one of the session.

The turns are those that take a token or find a fault. Where the end of the line ends the loop, its
body is entered once more, to look for the end. -/
theorem runs_within_length (limits : Limits) :
    (Walk.blanks.Moves ∧ Walk.sign.Moves ∧ Walk.Moves (Walk.run isNameChar .name) ∧
      (Walk.scanNumber limits.numberLength).Moves ∧
      (Walk.scanExponent limits.exponentLength).Moves ∧ (Walk.scanTerm limits).Moves ∧
      ∀ equalSign, (Walk.scanOperator equalSign).Moves) ∧
    (∀ c c' : Cursor, c.position ≤ c.line.length → ∀ t d,
      Walk.scanTerm limits c = (.ok (t, d), c') →
        c.position < c'.position ∧ d = t.quantity.literal?.map Literal.decimal ∧
          ∃ text bs, c.rest = text ++ bs ++ c'.rest ∧ t.Spelled limits text ∧ IsBlank bs) ∧
    (∀ c c' : Cursor, c.position ≤ c.line.length → ∀ equalSign o,
      Walk.scanOperator equalSign c = (.ok (some o), c') →
        c.position < c'.position ∧ ∃ bs, c.rest = bs ++ o.text ++ c'.rest ∧ IsBlank bs) ∧
    (∀ (m : Marks) (line : List Char), ∃ n r, Runs limits m ⟨line, 0, []⟩ n r ∧ n ≤ line.length ∧
      (∀ n' r', Runs limits m ⟨line, 0, []⟩ n' r' → n' = n ∧ r' = r) ∧
      Cursor.Passes ⟨line, 0, []⟩ r.cursor ∧ r.Accounts limits m ⟨line, 0, []⟩ n ∧
      (r.fault = none → r.cursor.trail.map Prod.fst = List.range line.length)) ∧
    ∀ (calls : List Call) (line : List Char) (n : ℕ) (r : Marks.Outcome),
      Runs limits ((Ledger.fresh limits).after calls).marks ⟨line, 0, []⟩ n r →
        r.entries = (((Session.fresh limits).after calls).read line).entries ∧
          r.result = (((Session.fresh limits).after calls).read line).result := by
  refine ⟨⟨Walk.tracks_blanks.moves, Walk.tracks_sign.moves, Walk.tracks_name.moves,
    (Walk.tracks_scanNumber _).moves, (Walk.tracks_scanExponent _).moves,
    (Walk.tracks_scanTerm limits).moves, fun _ => (Walk.tracks_scanOperator _).moves⟩,
    fun _ _ hc _ _ h => Walk.scanTerm_of_ok hc h, fun _ _ hc _ _ h => Walk.scanOperator_of_ok hc h,
    fun m line => ?_, fun _ _ _ _ h => h.read_after⟩
  obtain ⟨n, r, hruns, haccounts⟩ := Marks.exists_runs limits m ⟨line, 0, []⟩ (Nat.zero_le _)
  exact ⟨n, r, hruns, haccounts.turns_le, fun _ _ h => hruns.unique h,
    haccounts.leads.passes (Nat.zero_le _), haccounts, haccounts.trail_eq⟩

/-- The second line stops at its fourth character, in the middle of an equation. -/
theorem runs_within_length_malformed :
    (∃ c', Walk.scanTerm {} ⟨"2.5 x =".toList, 0, []⟩ =
        (.ok (⟨none, .multiple (some ⟨['2', '.', '5'], none⟩) "x"⟩, some ⟨25, -1⟩), c') ∧
      0 < c'.position) ∧
    ∃ n r, Runs {} {} ⟨"2x ? = 1".toList, 0, []⟩ n r ∧ n ≤ 8 ∧
      r.result = .error ⟨.illegalEquation, 3⟩ := by
  obtain ⟨-, hterm, -, hloop, hread⟩ := runs_within_length {}
  have hscan : Walk.scanTerm {} ⟨"2.5 x =".toList, 0, []⟩ =
      (.ok (⟨none, .multiple (some ⟨['2', '.', '5'], none⟩) "x"⟩, some ⟨25, -1⟩),
        ⟨"2.5 x =".toList, 6, [(0, .number), (1, .number), (2, .number), (3, .blank), (4, .name),
          (5, .blank)]⟩) := by decide +kernel
  obtain ⟨n, r, hruns, hle, -⟩ := hloop {} "2x ? = 1".toList
  refine ⟨⟨_, hscan, (hterm _ _ (Nat.zero_le _) _ _ hscan).1⟩, n, r, hruns, hle, ?_⟩
  rw [(hread [] _ n r hruns).2]
  decide +kernel

end Simultaneous.Equation
