import Mathlib
import Simultaneous.Proofs.Readers

/-!
Lines with other names.

The names of a line are its maximal runs of letters and underscores. If other names stand for them,
everything else stays where it is between them, so each reader takes from the renamed line what it
takes from the line, with the names changed. Nothing here asks that different names stay different.
-/

namespace Simultaneous.Equation

open Reader
open Text (isBlank isNameChar skipBlanks)

/-! ### Names -/

/-- The runs of letters and underscores. -/
abbrev Name := {cs : List Char // IsName cs}

lemma isName_takeWhile {c : Char} (hc : isNameChar c = true) (cs : List Char) :
    IsName (c :: cs.takeWhile isNameChar) :=
  ⟨List.cons_ne_nil _ _, List.forall_mem_cons.mpr ⟨hc, fun _ => List.mem_takeWhile_imp⟩⟩

/-- The text with another name for each maximal run of name characters. -/
def rename (ρ : Name → Name) : List Char → List Char
  | [] => []
  | c :: cs =>
    if hc : isNameChar c = true then
      ρ ⟨c :: cs.takeWhile isNameChar, isName_takeWhile hc cs⟩ ++
        rename ρ (cs.dropWhile isNameChar)
    else c :: rename ρ cs
termination_by cs => cs.length
decreasing_by
  · exact Nat.lt_succ_of_le (List.dropWhile_suffix _).length_le
  · exact Nat.lt_succ_self _

instance (cs : List Char) : Decidable (IsName cs) :=
  decidable_of_iff (cs ≠ [] ∧ ∀ c ∈ cs, isNameChar c = true)
    ⟨fun h => ⟨h.1, h.2⟩, fun h => ⟨h.ne_nil, h.chars⟩⟩

/-- The other name for a name. What is no name stays. -/
def renameRun (ρ : Name → Name) (cs : List Char) : List Char :=
  if h : IsName cs then ρ ⟨cs, h⟩ else cs

variable {ρ : Name → Name} {cs rest : List Char}

lemma renameRun_of_isName (h : IsName cs) : renameRun ρ cs = ρ ⟨cs, h⟩ := dif_pos h

lemma renameRun_nil : renameRun ρ [] = [] := dif_neg fun h => h.ne_nil rfl

lemma isName_renameRun (h : IsName cs) : IsName (renameRun ρ cs) := by
  rw [renameRun_of_isName h]
  exact (ρ ⟨cs, h⟩).property

lemma isEmpty_renameRun (ρ : Name → Name) (cs : List Char) :
    (renameRun ρ cs).isEmpty = cs.isEmpty := by
  by_cases h : IsName cs
  · rw [List.isEmpty_eq_false_iff.mpr (isName_renameRun h).ne_nil,
      List.isEmpty_eq_false_iff.mpr h.ne_nil]
  · rw [renameRun, dif_neg h]

lemma rename_nil : rename ρ [] = [] := by
  rw [rename]

lemma rename_cons {c : Char} (hc : isNameChar c = false) :
    rename ρ (c :: cs) = c :: rename ρ cs := by
  rw [rename, dif_neg (Bool.eq_false_iff.mp hc)]

lemma rename_append {ds : List Char} (h : ∀ c ∈ ds, isNameChar c = false) :
    rename ρ (ds ++ cs) = ds ++ rename ρ cs := by
  induction ds with
  | nil => rfl
  | cons c ds ih =>
    obtain ⟨hc, hds⟩ := List.forall_mem_cons.mp h
    rw [List.cons_append, rename_cons hc, ih hds, List.cons_append]

lemma rename_name_append {ds : List Char} (h : IsName ds) (hs : Stops isNameChar cs) :
    rename ρ (ds ++ cs) = renameRun ρ ds ++ rename ρ cs := by
  obtain ⟨c, ds, rfl⟩ := List.exists_cons_of_ne_nil h.ne_nil
  obtain ⟨hc, hds⟩ := List.forall_mem_cons.mp h.chars
  simp only [List.cons_append, rename, dif_pos hc, takeWhile_append_of_stops hds hs,
    dropWhile_append_of_stops hds hs, renameRun_of_isName h]

/-- A renamed text starts as the text does, or both start with a name. -/
lemma head?_rename (ρ : Name → Name) (cs : List Char) :
    (rename ρ cs).head? = cs.head? ∨ ∃ c d, cs.head? = some c ∧ (rename ρ cs).head? = some d ∧
      isNameChar c = true ∧ isNameChar d = true := by
  cases cs with
  | nil => exact .inl (by rw [rename_nil])
  | cons c cs =>
    cases hc : isNameChar c with
    | false => exact .inl (by rw [rename_cons hc, List.head?_cons, List.head?_cons])
    | true =>
      have hname := (ρ ⟨_, isName_takeWhile hc cs⟩).property
      obtain ⟨d, tail, hd⟩ := List.exists_cons_of_ne_nil hname.ne_nil
      refine .inr ⟨c, d, rfl, ?_, hc, hname.chars d (hd ▸ .head _)⟩
      rw [rename, dif_pos hc, hd]
      rfl

lemma head?_rename_eq_iff {c : Char} (hc : isNameChar c = false) :
    (rename ρ cs).head? = some c ↔ cs.head? = some c := by
  obtain h | ⟨d, d', hd, hd', hname, hname'⟩ := head?_rename ρ cs
  · rw [h]
  · rw [hd, hd', Option.some.injEq, Option.some.injEq]
    refine ⟨?_, ?_⟩
    · rintro rfl
      exact absurd (hc.symm.trans hname') Bool.false_ne_true
    · rintro rfl
      exact absurd (hc.symm.trans hname) Bool.false_ne_true

lemma rename_eq_nil_iff : rename ρ cs = [] ↔ cs = [] := by
  rw [← List.head?_eq_none_iff, ← List.head?_eq_none_iff]
  obtain h | ⟨d, d', hd, hd', -⟩ := head?_rename ρ cs
  · rw [h]
  · rw [hd, hd']
    simp

/-- A kind of characters that has no character of names or all of them is as far off in the renamed
text. -/
lemma stops_rename_of_forall {p : Char → Bool}
    (hp : ∀ c d, isNameChar c = true → isNameChar d = true → p c = p d) (h : Stops p cs) :
    Stops p (rename ρ cs) := by
  intro c rest hc
  obtain hhead | ⟨d, d', hd, hd', hname, hname'⟩ := head?_rename ρ cs
  · rw [hc, List.head?_cons] at hhead
    obtain ⟨tail, rfl⟩ := List.head?_eq_some_iff.mp hhead.symm
    exact h c tail rfl
  · rw [hc, List.head?_cons, Option.some.injEq] at hd'
    obtain ⟨tail, rfl⟩ := List.head?_eq_some_iff.mp hd
    rw [hd', hp d' d hname' hname]
    exact h d tail rfl

lemma stops_rename {p : Char → Bool} (hp : ∀ c, isNameChar c = true → p c = false)
    (h : Stops p cs) : Stops p (rename ρ cs) :=
  stops_rename_of_forall (fun c d hc hd => (hp c hc).trans (hp d hd).symm) h

lemma stops_name_rename (h : Stops isNameChar cs) : Stops isNameChar (rename ρ cs) :=
  stops_rename_of_forall (fun _ _ hc hd => hc.trans hd.symm) h

/-- A run of characters that are in no name is the same in the renamed text. -/
lemma span_rename {p : Char → Bool} (hp : ∀ c, isNameChar c = true → p c = false)
    (ρ : Name → Name) (cs : List Char) :
    (rename ρ cs).takeWhile p = cs.takeWhile p ∧
      (rename ρ cs).dropWhile p = rename ρ (cs.dropWhile p) := by
  have hall : ∀ c ∈ cs.takeWhile p, p c = true := fun _ => List.mem_takeWhile_imp
  have hapart : ∀ c ∈ cs.takeWhile p, isNameChar c = false :=
    fun c hc => Text.eq_false_symm hp c (hall c hc)
  have hstop : Stops p (rename ρ (cs.dropWhile p)) := stops_rename hp stops_dropWhile
  have hcs : rename ρ cs = cs.takeWhile p ++ rename ρ (cs.dropWhile p) := by
    rw [← rename_append hapart, List.takeWhile_append_dropWhile]
  rw [hcs, takeWhile_append_of_stops hall hstop, dropWhile_append_of_stops hall hstop]
  exact ⟨rfl, rfl⟩

/-- The name at the front of the renamed text is the other name. -/
lemma span_name_rename (ρ : Name → Name) (cs : List Char) :
    (rename ρ cs).takeWhile isNameChar = renameRun ρ (cs.takeWhile isNameChar) ∧
      (rename ρ cs).dropWhile isNameChar = rename ρ (cs.dropWhile isNameChar) := by
  have hstop : Stops isNameChar (rename ρ (cs.dropWhile isNameChar)) :=
    stops_name_rename stops_dropWhile
  have hspan := List.takeWhile_append_dropWhile (p := isNameChar) (l := cs)
  by_cases hne : cs.takeWhile isNameChar = []
  · rw [hne, List.nil_append] at hspan
    rw [hspan] at hstop
    rw [takeWhile_of_stops hstop, dropWhile_of_stops hstop, hne, hspan, renameRun_nil]
    exact ⟨rfl, rfl⟩
  · have hname : IsName (cs.takeWhile isNameChar) := ⟨hne, fun _ => List.mem_takeWhile_imp⟩
    have hcs : rename ρ cs =
        renameRun ρ (cs.takeWhile isNameChar) ++ rename ρ (cs.dropWhile isNameChar) := by
      rw [← rename_name_append hname stops_dropWhile, hspan]
    have hother := (isName_renameRun (ρ := ρ) hname).chars
    rw [hcs, takeWhile_append_of_stops hother hstop, dropWhile_append_of_stops hother hstop]
    exact ⟨rfl, rfl⟩

/-! ### Readers -/

section Readers

variable {β β' γ γ' : Type}

/-- The answer with another value, and with other names in the rest of the line. -/
def renameAnswer (ρ : Name → Name) (φ : β → β') :
    Except Offence (β × List Char) → Except Offence (β' × List Char)
  | .ok (b, rest) => .ok (φ b, rename ρ rest)
  | .error o => .error ⟨o.fault, rename ρ o.rest⟩

/-- The second reader takes from the renamed line what the first one takes from the line. -/
def RenamesFor (ρ : Name → Name) (φ : β → β') (R : Reader β) (R' : Reader β') (cs : List Char) :
    Prop :=
  R' (rename ρ cs) = renameAnswer ρ φ (R cs)

def Renames (ρ : Name → Name) (φ : β → β') (R : Reader β) (R' : Reader β') : Prop :=
  ∀ cs, RenamesFor ρ φ R R' cs

variable {φ : β → β'} {ψ : γ → γ'} {R S : Reader β} {R' S' : Reader β'}

lemma renames_done (φ : β → β') (b : β) : Renames ρ φ (done b) (done (φ b)) := fun _ => rfl

lemma renames_fault (φ : β → β') (f : Fault) : Renames ρ φ (fault f) (fault f) := fun _ => rfl

lemma RenamesFor.andThen {K : β → Reader γ} {K' : β' → Reader γ'} (h : RenamesFor ρ φ R R' cs)
    (hK : ∀ b rest, R cs = .ok (b, rest) → RenamesFor ρ ψ (K b) (K' (φ b)) rest) :
    RenamesFor ρ ψ (R.andThen K) (R'.andThen K') cs := by
  rw [RenamesFor] at h ⊢
  cases hR : R cs with
  | error o =>
    rw [hR] at h
    rw [andThen_of_error hR, andThen_of_error h]
    rfl
  | ok r =>
    obtain ⟨b, rest⟩ := r
    rw [hR] at h
    rw [andThen_of_ok hR, andThen_of_ok h]
    exact hK b rest hR

lemma Renames.andThen {K : β → Reader γ} {K' : β' → Reader γ'} (h : Renames ρ φ R R')
    (hK : ∀ b, Renames ρ ψ (K b) (K' (φ b))) : Renames ρ ψ (R.andThen K) (R'.andThen K') :=
  fun cs => (h cs).andThen fun b rest _ => hK b rest

lemma Renames.ifAt {c : Char} (hc : isNameChar c = false) (hR : Renames ρ φ R R')
    (hS : Renames ρ φ S S') : Renames ρ φ (ifAt c R S) (ifAt c R' S') := by
  intro cs
  simp only [RenamesFor, Reader.ifAt, head?_rename_eq_iff hc]
  split_ifs
  · exact hR cs
  · exact hS cs

lemma Renames.ifNext {c : Char} (hc : isNameChar c = false) (hR : Renames ρ φ R R')
    (hS : Renames ρ φ S S') : Renames ρ φ (ifNext c R S) (ifNext c R' S') := by
  intro cs
  simp only [RenamesFor, Reader.ifNext, Reader.ifAt, head?_rename_eq_iff hc]
  split_ifs with hhead
  · obtain ⟨rest, rfl⟩ := List.head?_eq_some_iff.mp hhead
    rw [rename_cons hc]
    exact hR rest
  · exact hS cs

lemma Renames.elim {δ : Type} {K : δ → Reader β} {K' : δ → Reader β'} (hR : Renames ρ φ R R')
    (hK : ∀ d, Renames ρ φ (K d) (K' d)) (d : Option δ) :
    Renames ρ φ (d.elim R K) (d.elim R' K') := by
  cases d with
  | none => exact hR
  | some d => exact hK d

lemma renames_run {p : Char → Bool} (hp : ∀ c, isNameChar c = true → p c = false) :
    Renames ρ id (run p) (run p) := by
  intro cs
  obtain ⟨htake, hdrop⟩ := span_rename hp ρ cs
  rw [RenamesFor, run, htake, hdrop]
  rfl

lemma renames_name : Renames ρ (renameRun ρ) (run isNameChar) (run isNameChar) := by
  intro cs
  obtain ⟨htake, hdrop⟩ := span_name_rename ρ cs
  rw [RenamesFor, run, htake, hdrop]
  rfl

lemma skipBlanks_rename (ρ : Name → Name) (cs : List Char) :
    skipBlanks (rename ρ cs) = rename ρ (skipBlanks cs) :=
  (span_rename (Text.eq_false_symm fun _ => Text.isNameChar_eq_false_of_isBlank) ρ cs).2

lemma renames_blanks : Renames ρ id blanks blanks := by
  intro cs
  rw [RenamesFor, blanks, skipBlanks_rename]
  rfl

lemma isSignChar_eq_false_of_isNameChar {c : Char} (hc : isNameChar c = true) :
    isSignChar c = false :=
  isSignChar_eq_false (Text.isNameChar_eq_false_of_plain (by decide))
    (Text.isNameChar_eq_false_of_plain (by decide)) hc

lemma isRunChar_eq_false_of_isNameChar {c : Char} (hc : isNameChar c = true) :
    isRunChar c = false :=
  Text.eq_false_symm
    (fun _ hd => Text.isNameChar_eq_false_of_plain (plain_contains_of_isRunChar hd)) c hc

lemma renames_sign : Renames ρ id sign sign := by
  intro cs
  by_cases hsign : Stops isSignChar cs
  · have hstop : Stops isSignChar (rename ρ cs) :=
      stops_rename (fun _ => isSignChar_eq_false_of_isNameChar) hsign
    rw [RenamesFor, sign, sign, readSign_of_stops hsign, readSign_of_stops hstop]
    rfl
  · obtain ⟨s, rest, rfl⟩ := exists_sign_of_not_stops hsign
    cases s
    · rw [RenamesFor, signText, List.singleton_append, rename_cons (by decide +kernel)]
      rfl
    · rw [RenamesFor, signText, List.singleton_append, rename_cons (by decide +kernel)]
      rfl

lemma readRun_of_stops (limit digits : ℕ) (pointed : Bool) (h : Stops isRunChar cs) :
    readRun limit digits pointed cs = .ok ([], cs) := by
  cases cs with
  | nil => rfl
  | cons c cs =>
    obtain ⟨hdigit, hpoint⟩ := Bool.or_eq_false_iff.mp (h c cs rfl)
    rw [readRun, if_neg (Bool.eq_false_iff.mp hdigit), if_neg (beq_eq_false_iff_ne.mp hpoint)]

lemma renamesFor_readRun_of_stops (limit digits : ℕ) (pointed : Bool) (h : Stops isRunChar cs) :
    RenamesFor ρ id (readRun limit digits pointed) (readRun limit digits pointed) cs := by
  have hstop : Stops isRunChar (rename ρ cs) :=
    stops_rename (fun _ => isRunChar_eq_false_of_isNameChar) h
  rw [RenamesFor, readRun_of_stops _ _ _ h, readRun_of_stops _ _ _ hstop]
  rfl

lemma renames_readRun (limit digits : ℕ) (pointed : Bool) :
    Renames ρ id (readRun limit digits pointed) (readRun limit digits pointed) := by
  intro cs
  induction cs generalizing digits pointed with
  | nil => exact renamesFor_readRun_of_stops _ _ _ stops_nil
  | cons c cs ih =>
    cases hc : isNameChar c with
    | true =>
      exact renamesFor_readRun_of_stops _ _ _ (stops_cons (isRunChar_eq_false_of_isNameChar hc))
    | false =>
      obtain ⟨digits', pointed', hread⟩ | ⟨out, hread⟩ := readRun_cons limit digits pointed c
      · rw [RenamesFor, rename_cons hc, hread, hread]
        exact (ih digits' pointed').andThen fun run rest _ => renames_done id (c :: run) rest
      · rw [RenamesFor, rename_cons hc, hread, hread]
        cases out with
        | ok run => exact congrArg (fun rest => Except.ok (run, rest)) (rename_cons hc).symm
        | error f =>
          exact congrArg (fun rest => Except.error (Offence.mk f rest)) (rename_cons hc).symm

lemma renames_readMantissa (limit : ℕ) :
    Renames ρ id (readMantissa limit) (readMantissa limit) := by
  intro cs
  have hrename := renames_readRun (ρ := ρ) limit 0 false cs
  rw [RenamesFor] at hrename ⊢
  cases hrun : readRun limit 0 false cs with
  | error o =>
    rw [hrun] at hrename
    rw [readMantissa_of_error hrun, readMantissa_of_error hrename]
    rfl
  | ok r =>
    obtain ⟨digits, rest⟩ := r
    rw [hrun] at hrename
    rw [readMantissa_of_ok hrun, readMantissa_of_ok hrename]
    dsimp only [id]
    split_ifs <;> rfl

lemma renames_readExponent (limit : ℕ) :
    Renames ρ id (readExponent limit) (readExponent limit) := by
  rw [readExponent_eq]
  refine renames_sign.andThen fun s =>
    (renames_run fun _ => isRunChar_eq_false_of_isNameChar).andThen fun digits => ?_
  dsimp only [id]
  split_ifs
  · exact renames_fault _ _
  · exact renames_fault _ _
  · exact renames_done _ _

lemma renames_readLiteral (limits : Limits) :
    Renames ρ id (readLiteral limits) (readLiteral limits) := by
  rw [readLiteral_eq]
  refine (renames_readMantissa limits.numberLength).andThen fun mantissa => ?_
  dsimp only [id]
  split_ifs
  · exact renames_done _ _
  · refine .ifNext (by decide +kernel) ?_ (renames_done _ _)
    exact (renames_readExponent limits.exponentLength).andThen fun _ => renames_done _ _

end Readers

/-! ### Terms and scans -/

def renameName (ρ : Name → Name) (name : String) : String := String.ofList (renameRun ρ name.toList)

def Quantity.rename (f : String → String) : Quantity → Quantity
  | .constant l => .constant l
  | .multiple l name => .multiple l (f name)

def Term.rename (f : String → String) (t : Term) : Term :=
  { t with quantity := t.quantity.rename f }

def Entry.rename (f : String → String) (e : Entry) : Entry :=
  { e with quantity := e.quantity.rename f }

lemma isMultiple_rename (f : String → String) (q : Quantity) :
    (q.rename f).isMultiple = q.isMultiple := by
  cases q <;> rfl

lemma renames_readTerm (limits : Limits) :
    Renames ρ (Term.rename (renameName ρ)) (readTerm limits) (readTerm limits) := by
  rw [readTerm_eq_andThen]
  refine renames_sign.andThen fun s => renames_blanks.andThen fun _ =>
    (renames_readLiteral limits).andThen fun literal => renames_blanks.andThen fun _ =>
      renames_name.andThen fun name => ?_
  dsimp only [id]
  rw [isEmpty_renameRun]
  split_ifs
  · exact (renames_fault _ _).elim (fun _ => renames_done _ _) literal
  · have hname : renameName ρ (String.ofList name) = String.ofList (renameRun ρ name) := by
      rw [renameName, String.toList_ofList]
    rw [← hname]
    exact renames_done _ _

/-- What a step comes to, with other names. -/
def renameStep (ρ : Name → Name) (r : Option Entry × Phase) : Option Entry × Phase :=
  (r.1.map (Entry.rename (renameName ρ)), r.2)

lemma Phase.renames_step (limits : Limits) (ph : Phase) :
    Renames ρ (renameStep ρ) (ph.step limits) (ph.step limits) := by
  have hterm (p : Progress) (minus : Bool) :
      Renames ρ (renameStep ρ) (Phase.step.term limits p minus)
        (Phase.step.term limits p minus) := by
    rw [Phase.step_term_eq]
    refine (renames_readTerm limits).andThen fun t => ?_
    have hnext : p.addTerm (t.rename (renameName ρ)) = p.addTerm t := by
      rw [Progress.addTerm, Term.rename, isMultiple_rename]
      rfl
    rw [hnext]
    exact renames_done _ _
  cases ph with
  | start => exact hterm .start false
  | term p minus => exact hterm p minus
  | operator p =>
    rw [Phase.step_operator_eq]
    split_ifs
    · refine .ifAt (by decide +kernel) (renames_fault _ _) (renames_sign.andThen fun s => ?_)
      exact (renames_fault _ _).elim (fun _ => renames_done _ _) s
    · refine .ifNext (by decide +kernel) (renames_sign.andThen fun s => ?_)
        (renames_sign.andThen fun s => ?_)
      · exact renames_done _ _
      · exact (renames_fault _ _).elim (fun _ => renames_done _ _) s

/-- **Names matter only as such**: the scan of the renamed line makes the entries of the line with
the other names, stops in the same phase, and finds the same fault where the line goes on alike. -/
lemma scan_rename (limits : Limits) (ph : Phase) (cs : List Char) :
    scan limits ph (rename ρ cs) =
      { entries := (scan limits ph cs).entries.map (Entry.rename (renameName ρ))
        phase := (scan limits ph cs).phase
        offence := (scan limits ph cs).offence.map fun o => ⟨o.fault, rename ρ o.rest⟩ } := by
  -- the scan goes on with a shorter text after each token
  induction hn : cs.length using Nat.strong_induction_on generalizing ph cs with
  | _ n ih =>
    have hskip := skipBlanks_rename ρ cs
    by_cases hne : skipBlanks cs = []
    · rw [scan_of_blank hne, scan_of_blank (hskip.trans (rename_eq_nil_iff.mpr hne))]
      rfl
    have hne' : skipBlanks (rename ρ cs) ≠ [] := hskip ▸ mt rename_eq_nil_iff.mp hne
    have hstep := ph.renames_step (ρ := ρ) limits (skipBlanks cs)
    rw [RenamesFor, ← hskip] at hstep
    cases hs : ph.step limits (skipBlanks cs) with
    | error o =>
      rw [hs] at hstep
      rw [scan_of_error hne hs, scan_of_error hne' hstep]
      rfl
    | ok r =>
      obtain ⟨⟨entry, next⟩, rest⟩ := r
      rw [hs] at hstep
      have hlt : rest.length < n :=
        hn ▸ (Phase.suffix_of_step hs).2.trans_le (Text.length_skipBlanks_le cs)
      rw [scan_of_ok hne hs, scan_of_ok hne' hstep, ih _ hlt next rest rfl]
      cases entry <;> rfl

end Simultaneous.Equation
