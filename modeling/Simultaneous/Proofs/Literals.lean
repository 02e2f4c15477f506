import Mathlib
import Simultaneous.Proofs.CharClasses
import Simultaneous.Proofs.Grammar

/-!
Reading signs, numbers and literals.

Each reader takes off the front of a line just what spells the thing it reads, provided that what
follows cannot be taken for more of it; and whatever a reader takes spells what it returns.
-/

namespace Simultaneous.Equation

open Text (isBlank isNameChar skipBlanks)

lemma bind_eq_ok {ε β γ : Type} {x : Except ε β} {f : β → Except ε γ} {c : γ} :
    (x >>= f) = .ok c ↔ ∃ b, x = .ok b ∧ f b = .ok c := by
  cases x with
  | error e => simp [bind, Except.bind]
  | ok b => simp [bind, Except.bind]

lemma bind_eq_error {ε β γ : Type} {x : Except ε β} {f : β → Except ε γ} {e : ε} :
    (x >>= f) = .error e ↔ x = .error e ∨ ∃ b, x = .ok b ∧ f b = .error e := by
  cases x with
  | error e => simp [bind, Except.bind]
  | ok b => simp [bind, Except.bind]

lemma mapError_eq_ok_iff {ε ε' β : Type} {x : Except ε β} {f : ε → ε'} {b : β} :
    x.mapError f = .ok b ↔ x = .ok b := by
  cases x <;> simp [Except.mapError]

/-! ### Where a run of characters stops -/

/-- The text does not start with a character of this kind. -/
def Stops (p : Char → Bool) (cs : List Char) : Prop := ∀ c rest, cs = c :: rest → p c = false

section Stops

variable {p : Char → Bool} {cs ds : List Char}

lemma stops_nil : Stops p [] := fun _ _ h => nomatch h

lemma stops_cons {c : Char} (h : p c = false) : Stops p (c :: cs) := by
  rintro _ _ ⟨⟩
  exact h

lemma stops_append (hne : cs ≠ []) (h : Stops p cs) : Stops p (cs ++ ds) := by
  cases cs with
  | nil => exact absurd rfl hne
  | cons c cs => exact stops_cons (h c cs rfl)

lemma stops_dropWhile : Stops p (cs.dropWhile p) := by
  intro c rest h
  have hhead := List.head?_dropWhile_not p cs
  rw [h] at hhead
  simpa using hhead

lemma takeWhile_of_stops (h : Stops p cs) : cs.takeWhile p = [] := by
  cases cs with
  | nil => rfl
  | cons c cs => rw [List.takeWhile_cons, if_neg (by simp [h c cs rfl])]

lemma dropWhile_of_stops (h : Stops p cs) : cs.dropWhile p = cs := by
  cases cs with
  | nil => rfl
  | cons c cs => rw [List.dropWhile_cons, if_neg (by simp [h c cs rfl])]

lemma takeWhile_append_of_stops (h : ∀ c ∈ ds, p c = true) (hs : Stops p cs) :
    (ds ++ cs).takeWhile p = ds := by
  rw [List.takeWhile_append_of_pos h, takeWhile_of_stops hs, List.append_nil]

lemma dropWhile_append_of_stops (h : ∀ c ∈ ds, p c = true) (hs : Stops p cs) :
    (ds ++ cs).dropWhile p = cs := by
  rw [List.dropWhile_append_of_pos h, dropWhile_of_stops hs]

end Stops

/-! ### White space -/

lemma isBlank_nil : IsBlank [] := fun _ h => nomatch h

lemma IsBlank.append {bs cs : List Char} (hb : IsBlank bs) (hc : IsBlank cs) :
    IsBlank (bs ++ cs) :=
  fun c h => (List.mem_append.mp h).elim (hb c) (hc c)

lemma skipBlanks_append {bs : List Char} (hb : IsBlank bs) (cs : List Char) :
    skipBlanks (bs ++ cs) = skipBlanks cs :=
  List.dropWhile_append_of_pos hb

lemma skipBlanks_of_stops {cs : List Char} (h : Stops isBlank cs) : skipBlanks cs = cs :=
  dropWhile_of_stops h

lemma skipBlanks_of_isBlank {bs : List Char} (hb : IsBlank bs) : skipBlanks bs = [] := by
  have h := skipBlanks_append hb []
  rwa [List.append_nil] at h

lemma skipBlanks_skipBlanks (cs : List Char) : skipBlanks (skipBlanks cs) = skipBlanks cs :=
  skipBlanks_of_stops stops_dropWhile

lemma exists_eq_append_skipBlanks (cs : List Char) : ∃ bs, IsBlank bs ∧ cs = bs ++ skipBlanks cs :=
  ⟨cs.takeWhile isBlank, fun _ => List.mem_takeWhile_imp, List.takeWhile_append_dropWhile.symm⟩

/-! ### Signs -/

def isSignChar (c : Char) : Bool := c == '+' || c == '-'

lemma eq_of_isSignChar {c : Char} (h : isSignChar c = true) : c = '+' ∨ c = '-' := by
  simpa [isSignChar] using h

lemma isSignChar_eq_false {p : Char → Bool} (hplus : p '+' = false) (hminus : p '-' = false)
    {c : Char} (hc : p c = true) : isSignChar c = false := by
  refine Text.eq_false_symm (fun d hd => ?_) c hc
  rcases eq_of_isSignChar hd with rfl | rfl
  · exact hplus
  · exact hminus

lemma readSign_append (s : Option Sign) {cs : List Char} (h : s = none → Stops isSignChar cs) :
    readSign (signText s ++ cs) = (s, cs) := by
  rcases s with _ | _ | _
  · have hs := h rfl
    simp only [signText, List.nil_append]
    unfold readSign
    split
    · exact absurd (hs _ _ rfl) (by decide)
    · exact absurd (hs _ _ rfl) (by decide)
    · rfl
  · rfl
  · rfl

lemma eq_of_readSign {cs rest : List Char} {s : Option Sign} (h : readSign cs = (s, rest)) :
    cs = signText s ++ rest := by
  unfold readSign at h
  split at h <;> obtain ⟨rfl, rfl⟩ := Prod.mk.inj h <;> rfl

/-! ### Numbers -/

def isRunChar (c : Char) : Bool := c.isDigit || c == '.'

lemma readRun_append {limit digits : ℕ} {pointed : Bool} {run rest : List Char}
    (hchars : ∀ c ∈ run, c.isDigit = true ∨ c = '.')
    (hpoints : run.count '.' ≤ if pointed then 0 else 1)
    (hdigits : digits + run.countP Char.isDigit ≤ limit) (hs : Stops isRunChar rest) :
    readRun limit digits pointed (run ++ rest) = .ok (run, rest) := by
  induction run generalizing digits pointed with
  | nil =>
    cases rest with
    | nil => rfl
    | cons c rest =>
      have hc : c.isDigit = false ∧ c ≠ '.' := by simpa [isRunChar] using hs c rest rfl
      simp [readRun, hc]
  | cons c run ih =>
    have hmore : ∀ c ∈ run, c.isDigit = true ∨ c = '.' := fun d hd => hchars d (.tail _ hd)
    rw [List.cons_append, readRun]
    rcases hchars c (.head _) with hc | rfl
    · have hne : c ≠ '.' := fun h => by subst h; exact absurd hc (by decide)
      rw [List.count_cons_of_ne hne] at hpoints
      rw [List.countP_cons_of_pos hc] at hdigits
      rw [if_pos hc, if_pos (by omega), ih hmore hpoints (by omega)]
      rfl
    · rw [List.count_cons_self] at hpoints
      rw [List.countP_cons_of_neg (by decide)] at hdigits
      obtain rfl : pointed = false := by
        cases pointed with
        | false => rfl
        | true => simp at hpoints
      rw [if_neg (by decide), if_pos rfl, if_neg Bool.false_ne_true,
        ih hmore (by simpa using hpoints) hdigits]
      rfl

lemma isNumber_of_readRun {limit digits : ℕ} {pointed : Bool} {cs run rest : List Char}
    (h : readRun limit digits pointed cs = .ok (run, rest)) :
    (∀ c ∈ run, c.isDigit = true ∨ c = '.') ∧ run.count '.' ≤ if pointed then 0 else 1 := by
  induction cs generalizing digits pointed run rest with
  | nil =>
    obtain ⟨rfl, rfl⟩ := Prod.mk.inj (Except.ok.inj h)
    simp
  | cons c cs ih =>
    rw [readRun] at h
    split_ifs at h with hc hlim hpoint hp
    · obtain ⟨⟨tail, after⟩, ht, hrun⟩ := bind_eq_ok.mp h
      obtain ⟨rfl, rfl⟩ := Prod.mk.inj (Except.ok.inj hrun)
      obtain ⟨hchars, hpoints⟩ := ih ht
      have hne : c ≠ '.' := fun h => by subst h; exact absurd hc (by decide)
      exact ⟨List.forall_mem_cons.mpr ⟨.inl hc, hchars⟩,
        (List.count_cons_of_ne hne).le.trans hpoints⟩
    · obtain ⟨⟨tail, after⟩, ht, hrun⟩ := bind_eq_ok.mp h
      obtain ⟨rfl, rfl⟩ := Prod.mk.inj (Except.ok.inj hrun)
      obtain ⟨hchars, hpoints⟩ := ih ht
      refine ⟨List.forall_mem_cons.mpr ⟨.inr hpoint, hchars⟩, ?_⟩
      subst hpoint
      rw [List.count_cons_self, if_neg hp]
      simpa using hpoints
    · obtain ⟨rfl, rfl⟩ := Prod.mk.inj (Except.ok.inj h)
      simp

lemma IsNumber.ne_nil {limit : ℕ} {m : List Char} (h : IsNumber limit m) : m ≠ [] := by
  rintro rfl
  obtain ⟨c, hc, -⟩ := h.digit
  exact nomatch hc

lemma readMantissa_append {limit : ℕ} {m rest : List Char} (h : IsNumber limit m)
    (hs : Stops isRunChar rest) : readMantissa limit (m ++ rest) = .ok (m, rest) := by
  have hcount : 0 + m.countP Char.isDigit ≤ limit := by
    have := List.countP_le_length (p := Char.isDigit) (l := m)
    have := h.length_le
    omega
  have hpoint : m ≠ ['.'] := by
    rintro rfl
    obtain ⟨c, hc, hd⟩ := h.digit
    rw [List.mem_singleton.mp hc] at hd
    exact absurd hd (by decide)
  rw [readMantissa, readRun_append h.chars (by simpa using h.points) hcount hs]
  simp only [bind, Except.bind]
  rw [if_neg h.length_le.not_gt, if_neg hpoint]
  rfl

lemma isNumber_of_readMantissa {limit : ℕ} {cs m rest : List Char} (hne : m ≠ [])
    (h : readMantissa limit cs = .ok (m, rest)) : IsNumber limit m := by
  obtain ⟨⟨run, after⟩, hr, h⟩ := bind_eq_ok.mp h
  dsimp only at h
  split_ifs at h with hlen hpoint
  obtain ⟨rfl, rfl⟩ := Prod.mk.inj (Except.ok.inj h)
  obtain ⟨hchars, hpoints⟩ := isNumber_of_readRun hr
  refine ⟨hchars, ?_, by simpa using hpoints, not_lt.mp hlen⟩
  -- without a digit the run would be points only, and there is at most one
  by_contra hdigit
  push Not at hdigit
  have hall : ∀ c ∈ run, c = '.' := fun c hc => (hchars c hc).resolve_left (hdigit c hc)
  have hrep := List.eq_replicate_of_mem hall
  have hone : run.length ≤ 1 := by
    rw [hrep, List.count_replicate_self] at hpoints
    simpa using hpoints
  have hpos : 0 < run.length := List.length_pos_iff.mpr hne
  rw [show run.length = 1 by omega] at hrep
  exact hpoint hrep

lemma readMantissa_of_stops (limit : ℕ) {cs : List Char} (hs : Stops isRunChar cs) :
    readMantissa limit cs = .ok ([], cs) := by
  have hrun : readRun limit 0 false ([] ++ cs) = .ok ([], cs) :=
    readRun_append (fun _ h => nomatch h) (by simp) (by simp) hs
  rw [List.nil_append] at hrun
  rw [readMantissa, hrun]
  rfl

/-! ### Exponents and literals -/

lemma readExponent_append {limit : ℕ} {ds rest : List Char} (s : Option Sign)
    (hdigits : ∀ c ∈ ds, c.isDigit = true) (hpos : 1 ≤ ds.length) (hlen : ds.length ≤ limit)
    (hs : Stops isRunChar rest) :
    readExponent limit (signText s ++ ds ++ rest) = .ok (⟨s == some .minus, ds⟩, rest) := by
  have hne : ds ≠ [] := List.length_pos_iff.mp hpos
  have hrun : ∀ c ∈ ds, isRunChar c = true := fun c hc => by simp [isRunChar, hdigits c hc]
  have hsign : readSign (signText s ++ (ds ++ rest)) = (s, ds ++ rest) := by
    refine readSign_append s fun _ => stops_append hne ?_
    rintro c ds' rfl
    exact isSignChar_eq_false (by decide) (by decide) (hdigits c (.head _))
  have hpoint : ds.contains '.' = false := by
    rw [List.contains_eq_mem, decide_eq_false_iff_not]
    exact fun h => absurd (hdigits _ h) (by decide)
  have htake : (ds ++ rest).takeWhile (fun c => c.isDigit || c == '.') = ds :=
    takeWhile_append_of_stops hrun hs
  have hdrop : (ds ++ rest).dropWhile (fun c => c.isDigit || c == '.') = rest :=
    dropWhile_append_of_stops hrun hs
  rw [List.append_assoc, readExponent]
  simp only [hsign, htake, hdrop, hpoint]
  rw [if_neg (by simpa using hne), if_neg (by simpa using hlen)]

lemma spelled_of_readExponent {limit : ℕ} {cs rest : List Char} {e : Exponent}
    (h : readExponent limit cs = .ok (e, rest)) :
    ∃ text, e.Spelled limit ('^' :: text) ∧ cs = text ++ rest := by
  unfold readExponent at h
  rcases hs : readSign cs with ⟨s, tail⟩
  have hrun : tail.takeWhile (fun c => c.isDigit || c == '.') ++
      tail.dropWhile (fun c => c.isDigit || c == '.') = tail := List.takeWhile_append_dropWhile
  simp only [hs] at h
  set run := tail.takeWhile fun c => c.isDigit || c == '.'
  split_ifs at h with hempty hbad
  obtain ⟨rfl, rfl⟩ := Prod.mk.inj (Except.ok.inj h)
  rw [Bool.or_eq_true, not_or, decide_eq_true_eq, not_lt, Bool.not_eq_true] at hbad
  have hdigits : ∀ c ∈ run, c.isDigit = true := by
    intro c hc
    have hrunChar := List.mem_takeWhile_imp (p := fun c : Char => c.isDigit || c == '.') hc
    refine ((Bool.or_eq_true _ _).mp hrunChar).resolve_right fun hdot => ?_
    rw [beq_iff_eq.mp hdot] at hc
    rw [List.contains_eq_mem, decide_eq_false_iff_not] at hbad
    exact hbad.2 hc
  refine ⟨signText s ++ run, .mk s hdigits ?_ hbad.1, ?_⟩
  · exact List.length_pos_iff.mpr (by simpa using hempty)
  · rw [List.append_assoc, hrun]
    exact eq_of_readSign hs

/-- The characters that a literal can be longer by. -/
def isLiteralChar (c : Char) : Bool := isRunChar c || c == '^'

lemma Stops.run {cs : List Char} (h : Stops isLiteralChar cs) : Stops isRunChar cs :=
  fun c rest hc => (Bool.or_eq_false_iff.mp (h c rest hc)).1

lemma readLiteral_append {limits : Limits} {l : Literal} {cs rest : List Char}
    (h : l.Spelled limits cs) (hs : Stops isLiteralChar rest) :
    readLiteral limits (cs ++ rest) = .ok (some l, rest) := by
  cases h with
  | plain number =>
    rw [readLiteral, readMantissa_append number hs.run]
    simp only [bind, Except.bind, List.isEmpty_iff, number.ne_nil, if_false]
    split
    · exact absurd (hs _ _ rfl) (by decide)
    · rfl
  | scaled number exponent =>
    obtain @⟨ds, s, digits, hpos, hlen⟩ := exponent
    have hstop : Stops isRunChar ('^' :: signText s ++ ds ++ rest) := stops_cons (by decide)
    rw [List.append_assoc, readLiteral, readMantissa_append number hstop]
    simp only [bind, Except.bind, List.isEmpty_iff, number.ne_nil, if_false, List.cons_append]
    rw [readExponent_append s digits hpos hlen hs.run]
    rfl

lemma readLiteral_of_stops (limits : Limits) {cs : List Char} (hs : Stops isRunChar cs) :
    readLiteral limits cs = .ok (none, cs) := by
  rw [readLiteral, readMantissa_of_stops limits.numberLength hs]
  rfl

lemma spelled_of_readLiteral {limits : Limits} {cs rest : List Char} {l : Option Literal}
    (h : readLiteral limits cs = .ok (l, rest)) :
    (l = none → cs = rest) ∧
      ∀ value, l = some value → ∃ text, value.Spelled limits text ∧ cs = text ++ rest := by
  obtain ⟨⟨m, after⟩, hm, h⟩ := bind_eq_ok.mp h
  have happ := append_of_readMantissa hm
  dsimp only at h
  split_ifs at h with hempty
  · obtain ⟨rfl, rfl⟩ := Prod.mk.inj (Except.ok.inj h)
    rw [List.isEmpty_iff.mp hempty] at happ
    exact ⟨fun _ => happ.symm, fun _ h => nomatch h⟩
  · have number := isNumber_of_readMantissa (by simpa using hempty) hm
    split at h
    · obtain ⟨⟨e, tail⟩, he, h⟩ := bind_eq_ok.mp h
      obtain ⟨rfl, rfl⟩ := Prod.mk.inj (Except.ok.inj h)
      obtain ⟨text, hspelled, rfl⟩ := spelled_of_readExponent he
      refine ⟨fun h => (nomatch h), ?_⟩
      rintro _ ⟨⟩
      exact ⟨m ++ '^' :: text, .scaled number hspelled, by rw [← happ]; simp⟩
    · obtain ⟨rfl, rfl⟩ := Prod.mk.inj (Except.ok.inj h)
      refine ⟨fun h => (nomatch h), ?_⟩
      rintro _ ⟨⟩
      exact ⟨m, .plain number, happ.symm⟩

end Simultaneous.Equation
