import Mathlib
import Simultaneous.Proofs.Numerals

/-!
Lines read by position.

A cursor stands at a position of a line and goes on by one character at a time. Nothing in the step
itself keeps it from leaving the line behind: that a character is there has been seen before. The
cursor leaves a trail, the positions that it passed and what it took the characters for, and it
stays where it is when a fault is found. What a walk of the cursor reads is what a reader reads.
-/

namespace Simultaneous.Equation

open Number (Decimal)
open Text (isBlank isNameChar skipBlanks)

/-- What a character is taken for. -/
inductive Role where
  | blank
  | sign
  | number
  | exponent
  | name
  | equals
  deriving DecidableEq, Repr

def Role.fits : Role → Char → Bool
  | blank, ch => isBlank ch
  | sign, ch => isSignChar ch
  | number, ch => isRunChar ch
  | exponent, ch => ch == '^' || isRunChar ch
  | name, ch => isNameChar ch
  | equals, ch => ch == '='

structure Cursor where
  line : List Char
  position : ℕ := 0
  /-- The positions passed, in the order in which they were, and what stood there. -/
  trail : List (ℕ × Role) := []
  deriving DecidableEq, Repr

namespace Cursor

def peek (c : Cursor) : Option Char := c.line[c.position]?

def atEnd (c : Cursor) : Bool := c.line.length ≤ c.position

/-- Goes on by one, whether a character is there or not. -/
def bump (c : Cursor) (role : Role) : Cursor where
  line := c.line
  position := c.position + 1
  trail := c.trail ++ [(c.position, role)]

/-- What is left of the line. -/
def rest (c : Cursor) : List Char := c.line.drop c.position

/-- The second cursor is where the first one gets by passing characters that are there, each of
them once and taken for what it can be. -/
inductive Leads (c : Cursor) : Cursor → Prop where
  | stay : Leads c c
  | bump {c' : Cursor} {role : Role} {ch : Char} (h : Leads c c') (hpeek : c'.peek = some ch)
    (hfits : role.fits ch = true) : Leads c (c'.bump role)

/-- What that means for the position and for the trail. -/
structure Passes (c c' : Cursor) : Prop where
  line_eq : c'.line = c.line
  position_le : c.position ≤ c'.position
  inside : c'.position ≤ c'.line.length
  trail : ∃ trail, c'.trail = c.trail ++ trail ∧
    trail.map Prod.fst = List.range' c.position (c'.position - c.position) ∧
    ∀ p ∈ trail, ∃ ch, c.line[p.1]? = some ch ∧ p.2.fits ch = true

variable {c c' c'' : Cursor} {role : Role} {ch : Char} {cs : List Char}

lemma lt_of_peek (h : c.peek = some ch) : c.position < c.line.length :=
  (List.getElem?_eq_some_iff.mp h).1

lemma peek_eq_head? : c.peek = c.rest.head? := List.head?_drop.symm

lemma rest_bump : (c.bump role).rest = c.rest.tail := List.tail_drop.symm

/-- A character that is there can be passed. -/
lemma of_rest_eq_cons (role : Role) (h : c.rest = ch :: cs) :
    c.peek = some ch ∧ (c.bump role).rest = cs ∧
      (c.bump role).position ≤ (c.bump role).line.length := by
  have hpeek : c.peek = some ch := by rw [peek_eq_head?, h, List.head?_cons]
  refine ⟨hpeek, ?_, lt_of_peek hpeek⟩
  rw [rest_bump, h, List.tail_cons]

lemma rest_eq_nil_iff : c.rest = [] ↔ c.atEnd = true := by
  rw [rest, List.drop_eq_nil_iff, atEnd, decide_eq_true_eq]

lemma length_rest : c.rest.length = c.line.length - c.position := List.length_drop

/-- A position is told by what is left behind it. -/
lemma inLine_rest (f : Fault) (h : c.position ≤ c.line.length) :
    (⟨f, c.rest⟩ : Offence).inLine c.line = ⟨f, c.position⟩ := by
  rw [Offence.inLine, length_rest, Nat.sub_sub_self h]

namespace Leads

lemma trans (h : c.Leads c') (h' : c'.Leads c'') : c.Leads c'' := by
  induction h' with
  | stay => exact h
  | bump _ hpeek hfits ih => exact ih.bump hpeek hfits

lemma line_eq (h : c.Leads c') : c'.line = c.line := by
  induction h with
  | stay => rfl
  | bump _ _ _ ih => exact ih

lemma inside (h : c.Leads c') (hc : c.position ≤ c.line.length) :
    c'.position ≤ c'.line.length := by
  induction h with
  | stay => exact hc
  | bump _ hpeek _ _ => exact lt_of_peek hpeek

lemma position_le (h : c.Leads c') : c.position ≤ c'.position := by
  induction h with
  | stay => exact le_rfl
  | bump _ _ _ ih => exact ih.trans (Nat.le_succ _)

/-- The trail grows by the positions in turn. -/
lemma exists_trail (h : c.Leads c') :
    ∃ trail, c'.trail = c.trail ++ trail ∧
      trail.map Prod.fst = List.range' c.position (c'.position - c.position) ∧
      ∀ p ∈ trail, ∃ ch, c.line[p.1]? = some ch ∧ p.2.fits ch = true := by
  induction h with
  | stay => exact ⟨[], by simp⟩
  | @bump c' role ch hlead hpeek hfits ih =>
    obtain ⟨trail, htrail, hpositions, hroles⟩ := ih
    have hle := hlead.position_le
    refine ⟨trail ++ [(c'.position, role)], ?_, ?_, fun p hp => ?_⟩
    · rw [Cursor.bump, htrail, List.append_assoc]
    · have hstep : c'.position + 1 - c.position = c'.position - c.position + 1 := by omega
      have hlast : c.position + (c'.position - c.position) = c'.position := by omega
      rw [List.map_append, hpositions, Cursor.bump, hstep, List.range'_1_concat, hlast]
      rfl
    · rcases List.mem_append.mp hp with hp | hp
      · exact hroles p hp
      · rw [List.mem_singleton.mp hp, ← hlead.line_eq]
        exact ⟨ch, hpeek, hfits⟩

lemma passes (h : c.Leads c') (hc : c.position ≤ c.line.length) : c.Passes c' :=
  ⟨h.line_eq, h.position_le, h.inside hc, h.exists_trail⟩

lemma position_lt_of_length_rest (h : c.Leads c') (hlt : c'.rest.length < c.rest.length) :
    c.position < c'.position := by
  rw [length_rest, length_rest, h.line_eq] at hlt
  omega

lemma length_rest_lt (h : c.Leads c') (hc : c.position ≤ c.line.length)
    (hlt : c.position < c'.position) : c'.rest.length < c.rest.length := by
  have hinside := h.inside hc
  rw [h.line_eq] at hinside
  rw [length_rest, length_rest, h.line_eq]
  omega

end Leads

end Cursor

/-! ### Operators with white space before them -/

/-- The operator behind white space, if there is one. A second equal sign is a fault. -/
def readOperatorUnless (equalSign : Bool) : Reader (Option Operator) := fun cs =>
  match readOperator (skipBlanks cs) with
  | none => .ok (none, skipBlanks cs)
  | some (o, rest) =>
    if o.isEquals && equalSign then .error ⟨.multipleEqualSigns, skipBlanks cs⟩
    else .ok (some o, rest)

lemma readOperatorUnless_eq (equalSign : Bool) :
    readOperatorUnless equalSign = Reader.blanks.andThen fun _ =>
      (if equalSign then Reader.ifAt '=' (Reader.fault .multipleEqualSigns)
        else Reader.ifNext '=' (Reader.sign.andThen fun s => Reader.done (some (.equals s))))
        (Reader.sign.andThen fun s => Reader.done (s.map .sign)) := by
  funext cs
  rw [Reader.blanks_andThen, readOperatorUnless]
  generalize skipBlanks cs = cs
  unfold readOperator
  split
  · next h =>
    split at h
    · cases h
    · cases h
    · cases h
    · next hequals hplus hminus =>
      have hread : readSign cs = (none, cs) := by
        rw [readSign]
        · exact hplus
        · exact hminus
      cases equalSign with
      | false =>
        rw [if_neg Bool.false_ne_true, Reader.ifNext, Reader.ifAt_of_forall _ _ hequals,
          Reader.sign_andThen, hread]
        rfl
      | true =>
        rw [if_pos rfl, Reader.ifAt_of_forall _ _ hequals, Reader.sign_andThen, hread]
        rfl
  · next h =>
    split at h
    · obtain ⟨rfl, rfl⟩ := Prod.mk.inj (Option.some.inj h)
      cases equalSign <;> rfl
    · obtain ⟨rfl, rfl⟩ := Prod.mk.inj (Option.some.inj h)
      cases equalSign <;> rfl
    · obtain ⟨rfl, rfl⟩ := Prod.mk.inj (Option.some.inj h)
      cases equalSign <;> rfl
    · cases h

/-! ### Walks -/

/-- Moves a cursor and returns something or finds a fault. -/
abbrev Walk (β : Type) := Cursor → Except ParseError β × Cursor

variable {β γ : Type}

namespace Walk

def done (b : β) : Walk β := fun c => (.ok b, c)

/-- Finds a fault where the cursor stands. -/
def fault (f : Fault) : Walk β := fun c => (.error ⟨f, c.position⟩, c)

/-- One walk after another. -/
def andThen (W : Walk β) (K : β → Walk γ) : Walk γ := fun c =>
  match W c with
  | (.ok b, c) => K b c
  | (.error e, c) => (.error e, c)

/-- Goes on with the place in mind where it starts. -/
def remember (K : Cursor → Walk β) : Walk β := fun c => K c c

/-- Finds a fault at a place that was passed before. -/
def faultAt (f : Fault) (start : Cursor) : Walk β := fun c => (.error ⟨f, start.position⟩, c)

/-- Goes on as `W` if the next character is this one, and otherwise as `V`. -/
def ifAt (ch : Char) (W V : Walk β) : Walk β := fun c => if c.peek = some ch then W c else V c

/-- Passes the next character if it is this one and goes on as `W`, and otherwise goes on as `V`. -/
def ifNext (ch : Char) (role : Role) (W V : Walk β) : Walk β := ifAt ch (fun c => W (c.bump role)) V

/-- Passes a run of characters of one kind. -/
def run (p : Char → Bool) (role : Role) (c : Cursor) : Except ParseError (List Char) × Cursor :=
  match h : c.peek with
  | some ch =>
    if p ch then
      have : c.line.length - (c.position + 1) < c.line.length - c.position := by
        have := Cursor.lt_of_peek h
        omega
      let r := run p role (c.bump role)
      (r.1.map (ch :: ·), r.2)
    else (.ok [], c)
  | none => (.ok [], c)
termination_by c.line.length - c.position

def blanks : Walk Unit := Walk.andThen (run isBlank .blank) fun _ => done ()

def sign : Walk (Option Sign) :=
  ifNext '+' .sign (done (some .plus)) (ifNext '-' .sign (done (some .minus)) (done none))

/-- What a walk does at a place is what a reader does with the rest of the line: the cursor passes
what is read, characters that are there, and a fault has the same position. -/
structure TracksAt (W : Walk β) (R : Reader β) (c : Cursor) : Prop where
  leads : c.Leads (W c).2
  answer : (W c).1.map (fun b => (b, (W c).2.rest)) = (R c.rest).mapError (·.inLine c.line)

def Tracks (W : Walk β) (R : Reader β) : Prop :=
  ∀ c : Cursor, c.position ≤ c.line.length → W.TracksAt R c

variable {W V : Walk β} {R S : Reader β} {c : Cursor}

lemma TracksAt.exists_of_ok {b : β} {rest : List Char} (h : W.TracksAt R c)
    (hR : R c.rest = .ok (b, rest)) : ∃ c', W c = (.ok b, c') ∧ c.Leads c' ∧ c'.rest = rest := by
  obtain ⟨hleads, hanswer⟩ := h
  rcases hW : W c with ⟨answer, c'⟩
  rw [hW] at hleads hanswer
  rw [hR] at hanswer
  cases answer with
  | error e => cases hanswer
  | ok b' =>
    obtain ⟨rfl, hrest⟩ := Prod.mk.inj (Except.ok.inj hanswer)
    exact ⟨c', rfl, hleads, hrest⟩

lemma TracksAt.exists_of_error {o : Offence} (h : W.TracksAt R c) (hR : R c.rest = .error o) :
    ∃ c', W c = (.error (o.inLine c.line), c') ∧ c.Leads c' := by
  obtain ⟨hleads, hanswer⟩ := h
  rcases hW : W c with ⟨answer, c'⟩
  rw [hW] at hleads hanswer
  rw [hR] at hanswer
  cases answer with
  | ok b => cases hanswer
  | error e =>
    obtain rfl := Except.error.inj hanswer
    exact ⟨c', rfl, hleads⟩

lemma TracksAt.congr {W' : Walk β} {R' : Reader β} (h : W'.TracksAt R' c) (hW : W c = W' c)
    (hR : R c.rest = R' c.rest) : W.TracksAt R c :=
  ⟨hW ▸ h.leads, by rw [hW, hR, h.answer]⟩

lemma tracks_done (b : β) : (done b).Tracks (Reader.done b) := fun _ _ => ⟨.stay, rfl⟩

lemma tracks_fault (f : Fault) : (fault f : Walk β).Tracks (Reader.fault f) := by
  intro c hc
  have hposition := Cursor.inLine_rest f hc
  exact ⟨.stay, congrArg Except.error hposition.symm⟩

lemma tracksAt_faultAt (f : Fault) {start : Cursor} (hstart : start.position ≤ start.line.length)
    (h : start.Leads c) :
    (faultAt f start : Walk β).TracksAt (fun _ => .error ⟨f, start.rest⟩) c := by
  have hposition := Cursor.inLine_rest f hstart
  rw [← h.line_eq] at hposition
  exact ⟨.stay, congrArg Except.error hposition.symm⟩

lemma tracks_remember {K : Cursor → Walk β} {K' : List Char → Reader β}
    (h : ∀ c : Cursor, c.position ≤ c.line.length → (K c).TracksAt (K' c.rest) c) :
    (remember K).Tracks (Reader.remember K') :=
  fun c hc => (h c hc).congr rfl rfl

/-- A walk goes on where the one before it has stopped. -/
lemma TracksAt.andThen {K : β → Walk γ} {K' : β → Reader γ} (h : W.TracksAt R c)
    (hK : ∀ b c', c.Leads c' → (K b).TracksAt (K' b) c') :
    (W.andThen K).TracksAt (R.andThen K') c := by
  cases hR : R c.rest with
  | error o =>
    obtain ⟨c', hW, hleads⟩ := h.exists_of_error hR
    have hthen : W.andThen K c = (.error (o.inLine c.line), c') := by rw [Walk.andThen, hW]
    refine ⟨by rwa [hthen], ?_⟩
    rw [hthen, Reader.andThen_of_error hR]
    rfl
  | ok r =>
    obtain ⟨b, rest⟩ := r
    obtain ⟨c', hW, hleads, rfl⟩ := h.exists_of_ok hR
    have hthen : W.andThen K c = K b c' := by rw [Walk.andThen, hW]
    obtain ⟨hleads', hanswer⟩ := hK b c' hleads
    refine ⟨by rw [hthen]; exact hleads.trans hleads', ?_⟩
    rw [hthen, hanswer, Reader.andThen_of_ok hR, hleads.line_eq]

lemma Tracks.andThen {K : β → Walk γ} {K' : β → Reader γ} (h : W.Tracks R)
    (hK : ∀ b, (K b).Tracks (K' b)) : (W.andThen K).Tracks (R.andThen K') := by
  intro c hc
  refine (h c hc).andThen fun b c' hleads => hK b c' (hleads.inside hc)

lemma TracksAt.map (h : W.TracksAt R c) (hc : c.position ≤ c.line.length) (f : β → γ) :
    (W.andThen fun b => done (f b)).TracksAt (R.andThen fun b => Reader.done (f b)) c :=
  h.andThen fun b c' hleads => tracks_done (f b) c' (hleads.inside hc)

lemma TracksAt.ifAt {ch : Char} (hW : c.peek = some ch → W.TracksAt R c) (hV : V.TracksAt S c) :
    (ifAt ch W V).TracksAt (Reader.ifAt ch R S) c := by
  by_cases hpeek : c.peek = some ch
  · have hhead : c.rest.head? = some ch := Cursor.peek_eq_head? ▸ hpeek
    exact (hW hpeek).congr (if_pos hpeek) (if_pos hhead)
  · have hhead : c.rest.head? ≠ some ch := Cursor.peek_eq_head? ▸ hpeek
    exact hV.congr (if_neg hpeek) (if_neg hhead)

lemma Tracks.ifAt (ch : Char) (hW : W.Tracks R) (hV : V.Tracks S) :
    (ifAt ch W V).Tracks (Reader.ifAt ch R S) :=
  fun c hc => TracksAt.ifAt (fun _ => hW c hc) (hV c hc)

/-- A character that has been seen is passed. -/
lemma TracksAt.bump {role : Role} {ch : Char} (hpeek : c.peek = some ch)
    (hfits : role.fits ch = true) (h : W.TracksAt R (c.bump role)) :
    TracksAt (fun c => W (c.bump role)) (fun cs => R cs.tail) c := by
  obtain ⟨hleads, hanswer⟩ := h
  refine ⟨(Cursor.Leads.stay.bump hpeek hfits).trans hleads, ?_⟩
  rw [Cursor.rest_bump] at hanswer
  exact hanswer

lemma Tracks.ifNext {ch : Char} {role : Role} (hfits : role.fits ch = true) (hW : W.Tracks R)
    (hV : V.Tracks S) : (ifNext ch role W V).Tracks (Reader.ifNext ch R S) := by
  refine fun c hc => TracksAt.ifAt (fun hpeek => ?_) (hV c hc)
  exact TracksAt.bump hpeek hfits (hW (c.bump role) (Cursor.lt_of_peek hpeek))

/-! ### Runs, white space and signs -/

variable {p : Char → Bool} {role : Role} {ch : Char} {cs : List Char}

lemma map_eq_andThen (f : β → γ) :
    ((W c).1.map f, (W c).2) = W.andThen (fun b => done (f b)) c := by
  rw [Walk.andThen]
  split
  · next h => rw [h]; rfl
  · next h => rw [h]; rfl

lemma run_of_peek (hpeek : c.peek = some ch) (hp : p ch = true) :
    run p role c = Walk.andThen (run p role) (fun cs => done (ch :: cs)) (c.bump role) := by
  rw [← map_eq_andThen, run]
  split
  · next ch' h =>
    obtain rfl := Option.some.inj (h.symm.trans hpeek)
    exact if_pos hp
  · next h => exact nomatch h.symm.trans hpeek

lemma run_of_stops (h : Stops p c.rest) : run p role c = done [] c := by
  rw [run]
  split
  · next ch hpeek =>
    rw [Cursor.peek_eq_head?] at hpeek
    obtain ⟨rest, hrest⟩ := List.head?_eq_some_iff.mp hpeek
    rw [if_neg (by simp [h ch rest hrest])]
    rfl
  · rfl

lemma tracks_run (hfits : ∀ ch, p ch = true → role.fits ch = true) :
    Tracks (run p role) (Reader.run p) := by
  intro c hc
  -- on what is left of the line
  induction hrest : c.rest generalizing c with
  | nil =>
    have hstops : Stops p c.rest := hrest ▸ stops_nil
    refine (tracks_done [] c hc).congr (run_of_stops hstops) ?_
    rw [hrest]
    rfl
  | cons ch cs ih =>
    obtain ⟨hpeek, hnext, hinside⟩ := Cursor.of_rest_eq_cons role hrest
    by_cases hp : p ch = true
    · have hmore := (ih (c.bump role) hinside hnext).map hinside (ch :: ·)
      refine (TracksAt.bump hpeek (hfits ch hp) hmore).congr (run_of_peek hpeek hp) ?_
      rw [hrest, Reader.run, List.takeWhile_cons_of_pos hp, List.dropWhile_cons_of_pos hp]
      rfl
    · have hstops : Stops p c.rest := hrest ▸ stops_cons (Bool.eq_false_iff.mpr hp)
      refine (tracks_done [] c hc).congr (run_of_stops hstops) ?_
      rw [Reader.run, takeWhile_of_stops hstops, dropWhile_of_stops hstops]
      rfl

lemma tracks_name : Tracks (run isNameChar .name) (Reader.run isNameChar) :=
  tracks_run fun _ hch => hch

lemma tracks_blanks : blanks.Tracks Reader.blanks := by
  have hrun : Tracks (run isBlank .blank) (Reader.run isBlank) := tracks_run fun _ hch => hch
  exact hrun.andThen fun _ => tracks_done ()

lemma tracks_sign : sign.Tracks Reader.sign := by
  have h : sign.Tracks (Reader.ifNext '+' (Reader.done (some .plus))
      (Reader.ifNext '-' (Reader.done (some .minus)) (Reader.done none))) :=
    (tracks_done _).ifNext rfl ((tracks_done _).ifNext rfl (tracks_done _))
  refine fun c hc => (h c hc).congr rfl ?_
  generalize c.rest = cs
  unfold Reader.sign readSign
  split
  · rfl
  · rfl
  · next hplus hminus =>
    rw [Reader.ifNext, Reader.ifAt_of_forall _ _ hplus, Reader.ifNext,
      Reader.ifAt_of_forall _ _ hminus]
    rfl

/-! ### Literals -/

/-- Passes the digits and points of a number, counting both. -/
def scanRun (limit digits points : ℕ) (c : Cursor) : Except ParseError (List Char) × Cursor :=
  match h : c.peek with
  | some ch =>
    have : c.line.length - (c.position + 1) < c.line.length - c.position := by
      have := Cursor.lt_of_peek h
      omega
    if ch.isDigit then
      if limit < digits + 1 then fault .tooManyDigits c
      else
        let r := scanRun limit (digits + 1) points (c.bump .number)
        (r.1.map (ch :: ·), r.2)
    else if ch = '.' then
      if 1 < points + 1 then fault .multipleDecimalPoints c
      else
        let r := scanRun limit digits (points + 1) (c.bump .number)
        (r.1.map (ch :: ·), r.2)
    else done [] c
  | none => done [] c
termination_by c.line.length - c.position

/-- The mantissa, empty if there is none. A point alone is a fault where it stands. -/
def scanNumber (limit : ℕ) : Walk (List Char) :=
  remember fun start => Walk.andThen (scanRun limit 0 0) fun text =>
    if limit < text.length then fault .tooManyDigits
    else if text = ['.'] then faultAt .illegalEquation start
    else done text

def scanExponent (limit : ℕ) : Walk Exponent :=
  sign.andThen fun s => Walk.andThen (run isRunChar .exponent) fun digits =>
    if digits.isEmpty then fault .missingExponent
    else if limit < digits.length || digits.contains '.' then fault .illegalExponent
    else done ⟨s == some .minus, digits⟩

def scanLiteral (limits : Limits) : Walk (Option Literal) :=
  (scanNumber limits.numberLength).andThen fun mantissa =>
    if mantissa.isEmpty then done none
    else ifNext '^' .exponent
      ((scanExponent limits.exponentLength).andThen fun e => done (some ⟨mantissa, some e⟩))
      (done (some ⟨mantissa, none⟩))

lemma scanRun_of_peek (limit digits points : ℕ) (hpeek : c.peek = some ch) :
    scanRun limit digits points c =
      if ch.isDigit then
        if limit < digits + 1 then fault .tooManyDigits c
        else Walk.andThen (scanRun limit (digits + 1) points) (fun cs => done (ch :: cs))
          (c.bump .number)
      else if ch = '.' then
        if 1 < points + 1 then fault .multipleDecimalPoints c
        else Walk.andThen (scanRun limit digits (points + 1)) (fun cs => done (ch :: cs))
          (c.bump .number)
      else done [] c := by
  rw [← map_eq_andThen, ← map_eq_andThen, scanRun]
  split
  · next ch' h =>
    obtain rfl := Option.some.inj (h.symm.trans hpeek)
    rfl
  · next h => exact nomatch h.symm.trans hpeek

/-- The counts say what the reader needs to know. -/
lemma tracks_scanRun (limit digits points : ℕ) :
    Tracks (scanRun limit digits points) (readRun limit digits (decide (1 ≤ points))) := by
  intro c hc
  induction hrest : c.rest generalizing c digits points with
  | nil =>
    have hpeek : c.peek = none := by rw [Cursor.peek_eq_head?, hrest, List.head?_nil]
    have hwalk : scanRun limit digits points c = done [] c := by
      rw [scanRun]
      split
      · next h => exact nomatch h.symm.trans hpeek
      · rfl
    refine (tracks_done [] c hc).congr hwalk ?_
    rw [hrest]
    rfl
  | cons ch cs ih =>
    obtain ⟨hpeek, hnext, hinside⟩ := Cursor.of_rest_eq_cons .number hrest
    have hmore (digits points : ℕ) (hfits : Role.number.fits ch = true) :=
      TracksAt.bump hpeek hfits ((ih digits points (c.bump .number) hinside hnext).map hinside
        (ch :: ·))
    have hwalk := scanRun_of_peek limit digits points hpeek
    by_cases hdigit : ch.isDigit = true
    · rw [if_pos hdigit] at hwalk
      by_cases hlimit : digits < limit
      · rw [if_neg (by omega)] at hwalk
        refine (hmore (digits + 1) points (by simp [Role.fits, isRunChar, hdigit])).congr hwalk ?_
        rw [hrest, readRun, if_pos hdigit, if_pos hlimit]
        rfl
      · rw [if_pos (by omega)] at hwalk
        refine (tracks_fault .tooManyDigits c hc).congr hwalk ?_
        rw [hrest, readRun, if_pos hdigit, if_neg hlimit]
        rfl
    · rw [if_neg hdigit] at hwalk
      by_cases hpoint : ch = '.'
      · rw [if_pos hpoint] at hwalk
        by_cases hpoints : 1 ≤ points
        · rw [if_pos (by omega)] at hwalk
          refine (tracks_fault .multipleDecimalPoints c hc).congr hwalk ?_
          rw [hrest, readRun, if_neg hdigit, if_pos hpoint, if_pos (decide_eq_true hpoints)]
          rfl
        · rw [if_neg (by omega)] at hwalk
          refine (hmore digits (points + 1) (by simp [Role.fits, isRunChar, hpoint])).congr hwalk ?_
          have hpointed : decide (1 ≤ points) = false := decide_eq_false hpoints
          have hpointed' : decide (1 ≤ points + 1) = true := decide_eq_true (by omega)
          rw [hrest, readRun, if_neg hdigit, if_pos hpoint, hpointed, hpointed',
            if_neg Bool.false_ne_true]
          rfl
      · rw [if_neg hpoint] at hwalk
        refine (tracks_done [] c hc).congr hwalk ?_
        rw [hrest, readRun, if_neg hdigit, if_neg hpoint]
        rfl

lemma tracks_scanNumber (limit : ℕ) : (scanNumber limit).Tracks (readMantissa limit) := by
  have h : (scanNumber limit).Tracks (Reader.remember fun start =>
      Reader.andThen (readRun limit 0 false) fun text =>
        if limit < text.length then Reader.fault .tooManyDigits
        else if text = ['.'] then fun _ => .error ⟨.illegalEquation, start⟩
        else Reader.done text) := by
    refine tracks_remember fun start hstart => ?_
    refine (tracks_scanRun limit 0 0 start hstart).andThen fun text c hleads => ?_
    have hc := hleads.inside hstart
    split_ifs
    · exact tracks_fault _ c hc
    · exact tracksAt_faultAt _ hstart hleads
    · exact tracks_done _ c hc
  refine fun c hc => (h c hc).congr rfl ?_
  rw [Reader.remember]
  cases hrun : readRun limit 0 false c.rest with
  | error o => rw [readMantissa_of_error hrun, Reader.andThen_of_error hrun]
  | ok r =>
    rw [readMantissa_of_ok hrun, Reader.andThen_of_ok hrun]
    split_ifs <;> rfl

lemma tracks_scanExponent (limit : ℕ) : (scanExponent limit).Tracks (readExponent limit) := by
  rw [readExponent_eq]
  refine tracks_sign.andThen fun s => (tracks_run fun ch hch => ?_).andThen fun digits => ?_
  · simp [Role.fits, hch]
  · split_ifs
    · exact tracks_fault _
    · exact tracks_fault _
    · exact tracks_done _

lemma tracks_scanLiteral (limits : Limits) : (scanLiteral limits).Tracks (readLiteral limits) := by
  rw [readLiteral_eq]
  refine (tracks_scanNumber limits.numberLength).andThen fun mantissa => ?_
  split_ifs
  · exact tracks_done _
  · refine Tracks.ifNext rfl ?_ (tracks_done _)
    exact (tracks_scanExponent limits.exponentLength).andThen fun e => tracks_done _

/-! ### Terms and operators -/

/-- A term with the decimal that its literal denotes, up to the name. -/
def scanConverted (limits : Limits) : Walk (Term × Option Decimal) :=
  sign.andThen fun s => blanks.andThen fun _ => remember fun start =>
    (scanLiteral limits).andThen fun literal => blanks.andThen fun _ =>
      Walk.andThen (run isNameChar .name) fun name =>
        match literal.map fun l => (l, ofNumeral? l.text) with
        | some (_, none) => faultAt .illegalEquation start
        | some (l, some d) =>
          if name.isEmpty then done (⟨s, .constant l⟩, some d)
          else done (⟨s, .multiple (some l) (String.ofList name)⟩, some d)
        | none =>
          if name.isEmpty then fault .noTerm
          else done (⟨s, .multiple none (String.ofList name)⟩, none)

/-- A term with the decimal that its literal denotes, and the white space behind it. -/
def scanTerm (limits : Limits) : Walk (Term × Option Decimal) :=
  (scanConverted limits).andThen fun t => blanks.andThen fun _ => done t

/-- An operator, or nothing if there is none. A second equal sign is a fault. -/
def scanOperator (equalSign : Bool) : Walk (Option Operator) :=
  blanks.andThen fun _ =>
    (if equalSign then ifAt '=' (fault .multipleEqualSigns)
      else ifNext '=' .equals (sign.andThen fun s => done (some (.equals s))))
      (sign.andThen fun s => done (s.map .sign))

lemma tracks_scanConverted (limits : Limits) :
    (scanConverted limits).Tracks (readConverted limits) := by
  refine tracks_sign.andThen fun s => tracks_blanks.andThen fun _ => ?_
  refine tracks_remember fun start hstart => ?_
  refine (tracks_scanLiteral limits start hstart).andThen fun literal c hliteral => ?_
  have hc := hliteral.inside hstart
  refine (tracks_blanks c hc).andThen fun _ c' hblanks => ?_
  have hc' := hblanks.inside hc
  refine (tracks_name c' hc').andThen fun name c'' hname => ?_
  have hc'' := hname.inside hc'
  have hleads := (hliteral.trans hblanks).trans hname
  generalize literal.map (fun l => (l, ofNumeral? l.text)) = converted
  rcases converted with _ | ⟨l, _ | d⟩
  · dsimp only
    split_ifs
    · exact tracks_fault _ c'' hc''
    · exact tracks_done _ c'' hc''
  · exact tracksAt_faultAt _ hstart hleads
  · dsimp only
    split_ifs
    · exact tracks_done _ c'' hc''
    · exact tracks_done _ c'' hc''

lemma tracks_scanTerm (limits : Limits) :
    (scanTerm limits).Tracks ((readConverted limits).andThen fun t =>
      Reader.blanks.andThen fun _ => Reader.done t) :=
  (tracks_scanConverted limits).andThen fun t => tracks_blanks.andThen fun _ => tracks_done t

lemma tracks_scanOperator (equalSign : Bool) :
    (scanOperator equalSign).Tracks (readOperatorUnless equalSign) := by
  have hsign : (sign.andThen fun s => done (s.map Operator.sign)).Tracks
      (Reader.sign.andThen fun s => Reader.done (s.map Operator.sign)) :=
    tracks_sign.andThen fun s => tracks_done _
  have hequals : (sign.andThen fun s => done (some (Operator.equals s))).Tracks
      (Reader.sign.andThen fun s => Reader.done (some (Operator.equals s))) :=
    tracks_sign.andThen fun s => tracks_done _
  rw [readOperatorUnless_eq]
  refine tracks_blanks.andThen fun _ => ?_
  cases equalSign with
  | true => exact (tracks_fault _).ifAt '=' hsign
  | false => exact hequals.ifNext rfl hsign

end Walk

end Simultaneous.Equation
