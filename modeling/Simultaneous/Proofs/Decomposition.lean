import Mathlib
import Simultaneous.Text.Separator

/-!
Texts taken apart at their separators.

A decomposition writes a text as pieces with separators between them. A text has one decomposition
in which no piece contains a separator and no line break of two characters is taken for two, and
its pieces are the lines of the text.
-/

namespace Simultaneous.Text

/-- Pieces with a separator before each but the first. -/
structure Decomposition where
  first : List Char
  rest : List (Separator × List Char)
  deriving DecidableEq, Repr

/-- No separator stands in the piece. -/
def IsPiece (cs : List Char) : Prop := ∀ sep : Separator, ¬ sep.chars <:+: cs

namespace Decomposition

def pieces (d : Decomposition) : List (List Char) := d.first :: d.rest.map Prod.snd

/-- The pieces and the separators in a row. -/
def text (d : Decomposition) : List Char := d.first ++ d.rest.flatMap fun p => p.1.chars ++ p.2

structure IsLeftmost (d : Decomposition) : Prop where
  pieces : ∀ cs ∈ d.pieces, IsPiece cs
  /-- A return and a line feed directly behind it are one separator. -/
  breaks : ∀ before cs after,
    d.rest ≠ before ++ (.carriageReturn, []) :: (.lineFeed, cs) :: after

/-- The decomposition with an empty piece and a separator in front. -/
def cons (sep : Separator) (d : Decomposition) : Decomposition := ⟨[], (sep, d.first) :: d.rest⟩

/-- The decomposition with more characters in front of its first piece. -/
def prepend (cs : List Char) (d : Decomposition) : Decomposition := ⟨cs ++ d.first, d.rest⟩

/-- A text taken apart from left to right. -/
def of : List Char → Decomposition
  | [] => ⟨[], []⟩
  | '\r' :: '\n' :: rest => (of rest).cons .carriageReturnLineFeed
  | '\\' :: 'n' :: rest => (of rest).cons .escapedLineFeed
  | '\r' :: rest => (of rest).cons .carriageReturn
  | '\n' :: rest => (of rest).cons .lineFeed
  | ',' :: rest => (of rest).cons .comma
  | c :: rest => (of rest).prepend [c]

variable {d : Decomposition} {cs : List Char} {c : Char} {sep : Separator}

lemma text_cons : (d.cons sep).text = sep.chars ++ d.text := by simp [cons, text]

lemma text_prepend : (d.prepend cs).text = cs ++ d.text := by simp [prepend, text]

lemma pieces_cons : (d.cons sep).pieces = [] :: d.pieces := rfl

lemma pieces_prepend_singleton : (d.prepend [c]).pieces = d.pieces.modifyHead (c :: ·) := rfl

/-! ### From left to right -/

/-- A text is empty, or starts with a separator that is not half of a line break, or starts with a
character that starts no separator. -/
@[elab_as_elim]
lemma separator_induction {motive : List Char → Prop} (nil : motive [])
    (separator : ∀ (sep : Separator) cs, (sep = .carriageReturn → cs.head? ≠ some '\n') →
      motive cs → motive (sep.chars ++ cs))
    (char : ∀ c cs, (∀ sep : Separator, ¬ sep.chars <+: c :: cs) → motive cs → motive (c :: cs))
    (cs : List Char) : motive cs := by
  fun_induction splitChars cs with
  | case1 => exact nil
  | case2 rest ih => exact separator .carriageReturnLineFeed rest (by simp) ih
  | case3 rest ih => exact separator .escapedLineFeed rest (by simp) ih
  | case4 rest hrest ih =>
    refine separator .carriageReturn rest (fun _ hhead => ?_) ih
    obtain ⟨more, rfl⟩ := List.head?_eq_some_iff.mp hhead
    exact hrest more rfl
  | case5 rest ih => exact separator .lineFeed rest (by simp) ih
  | case6 rest ih => exact separator .comma rest (by simp) ih
  | case7 c rest hcrlf hescape hcr hlf hcomma ih =>
    refine char c rest (fun sep hfront => ?_) ih
    obtain ⟨more, heq⟩ := hfront
    cases sep <;> obtain ⟨rfl, hrest⟩ := List.cons.inj heq
    · exact hcr rfl
    · exact hcr rfl
    · exact hlf rfl
    · exact hescape more rfl hrest.symm
    · exact hcomma rfl

lemma of_separator (hbreak : sep = .carriageReturn → cs.head? ≠ some '\n') :
    of (sep.chars ++ cs) = (of cs).cons sep := by
  cases sep with
  | carriageReturn => exact of.eq_4 cs fun more h => hbreak rfl (by rw [h, List.head?_cons])
  | _ => simp [Separator.chars, of]

lemma of_char (hsep : ∀ sep : Separator, ¬ sep.chars <+: c :: cs) :
    of (c :: cs) = (of cs).prepend [c] := by
  refine of.eq_7 c cs ?_ ?_ ?_ ?_ ?_
  · rintro more rfl rfl
    exact hsep .carriageReturnLineFeed ⟨more, rfl⟩
  · rintro more rfl rfl
    exact hsep .escapedLineFeed ⟨more, rfl⟩
  · rintro rfl
    exact hsep .carriageReturn ⟨cs, rfl⟩
  · rintro rfl
    exact hsep .lineFeed ⟨cs, rfl⟩
  · rintro rfl
    exact hsep .comma ⟨cs, rfl⟩

lemma text_of (cs : List Char) : (of cs).text = cs := by
  induction cs using separator_induction with
  | nil => rfl
  | separator sep cs hbreak ih => rw [of_separator hbreak, text_cons, ih]
  | char c cs hsep ih => rw [of_char hsep, text_prepend, ih, List.singleton_append]

lemma pieces_of (cs : List Char) : (of cs).pieces = splitChars cs := by
  fun_induction splitChars cs with
  | case1 => rfl
  | case7 c rest hcrlf hescape hcr hlf hcomma ih =>
    rw [of.eq_7 c rest hcrlf hescape hcr hlf hcomma, pieces_prepend_singleton, ih]
  | _ rest => simp_all [of, pieces_cons]

/-! ### Existence -/

lemma isPiece_nil : IsPiece [] := by
  intro sep hinfix
  cases sep <;> exact nomatch List.infix_nil.mp hinfix

lemma IsLeftmost.cons (h : d.IsLeftmost)
    (hbreak : sep = .carriageReturn → d.text.head? ≠ some '\n') : (d.cons sep).IsLeftmost := by
  refine ⟨fun cs hcs => ?_, fun before cs after heq => ?_⟩
  · rcases List.mem_cons.mp hcs with rfl | hcs
    · exact isPiece_nil
    · exact h.pieces cs hcs
  · cases before with
    | cons p before => exact h.breaks before cs after (List.cons.inj heq).2
    | nil =>
      obtain ⟨hfirst, hrest⟩ := List.cons.inj heq
      obtain ⟨rfl, hempty⟩ := Prod.mk.inj hfirst
      exact hbreak rfl (by simp [text, hempty, hrest, Separator.chars])

/-- A character that starts no separator belongs to the piece behind it. -/
lemma IsLeftmost.prepend (h : d.IsLeftmost)
    (hsep : ∀ sep : Separator, ¬ sep.chars <+: c :: d.text) : (d.prepend [c]).IsLeftmost := by
  refine ⟨fun cs hcs => ?_, h.breaks⟩
  rcases List.mem_cons.mp hcs with rfl | hcs
  · intro sep hinfix
    rcases List.infix_cons_iff.mp hinfix with hfront | hinfix
    · refine hsep sep (hfront.trans ?_)
      exact List.cons_prefix_cons.mpr ⟨rfl, List.prefix_append _ _⟩
    · exact h.pieces d.first (.head _) sep hinfix
  · exact h.pieces cs (.tail _ hcs)

lemma isLeftmost_of (cs : List Char) : (of cs).IsLeftmost := by
  induction cs using separator_induction with
  | nil =>
    refine ⟨fun cs hcs => ?_, by simp [of]⟩
    rw [List.mem_singleton.mp hcs]
    exact isPiece_nil
  | separator sep cs hbreak ih =>
    rw [of_separator hbreak]
    exact ih.cons (by rwa [text_of])
  | char c cs hsep ih =>
    rw [of_char hsep]
    exact ih.prepend (by rwa [text_of])

/-! ### Uniqueness -/

/-- Only the second half of an escape could make a separator with the end of a piece. -/
lemma IsPiece.not_prefix {tail : List Char} (h : IsPiece (c :: cs))
    (htail : tail.head? ≠ some 'n') : ¬ sep.chars <+: c :: (cs ++ tail) := by
  have hreturn : c ≠ '\r' := by
    rintro rfl
    exact h .carriageReturn (List.prefix_append ['\r'] cs).isInfix
  rintro ⟨more, heq⟩
  cases sep <;> obtain ⟨rfl, hrest⟩ := List.cons.inj heq
  · exact hreturn rfl
  · exact hreturn rfl
  · exact h .lineFeed (List.prefix_append ['\n'] cs).isInfix
  · cases cs with
    | nil => exact htail (congrArg List.head? hrest).symm
    | cons d cs =>
      obtain ⟨rfl, -⟩ := List.cons.inj hrest
      exact h .escapedLineFeed (List.prefix_append ['\\', 'n'] cs).isInfix
  · exact h .comma (List.prefix_append [','] cs).isInfix

lemma of_append {tail : List Char} (hcs : IsPiece cs) (htail : tail.head? ≠ some 'n') :
    of (cs ++ tail) = (of tail).prepend cs := by
  induction cs with
  | nil => rfl
  | cons c cs ih =>
    have hmore : IsPiece cs := fun sep hinfix => hcs sep (List.infix_cons hinfix)
    rw [List.cons_append, of_char fun _ => IsPiece.not_prefix hcs htail, ih hmore]
    rfl

/-- Behind a return that is a separator of its own the text does not go on with a line feed. -/
lemma IsLeftmost.head?_ne {first : List Char} {rest : List (Separator × List Char)}
    (h : IsLeftmost ⟨first, (.carriageReturn, cs) :: rest⟩) :
    (text ⟨cs, rest⟩).head? ≠ some '\n' := by
  intro hhead
  have hpiece : ¬ ['\n'] <:+: cs := h.pieces cs (.tail _ (.head _)) .lineFeed
  cases cs with
  | cons c cs =>
    obtain rfl : c = '\n' := by simpa [text] using hhead
    exact hpiece (List.prefix_append ['\n'] cs).isInfix
  | nil =>
    cases rest with
    | nil => exact nomatch hhead
    | cons p rest =>
      obtain ⟨sep, ds⟩ := p
      obtain rfl : sep = .lineFeed := by
        cases sep <;> simp [text, Separator.chars] at hhead ⊢
      exact h.breaks [] ds rest rfl

/-- A leftmost decomposition is the one of its text. -/
lemma IsLeftmost.of_text (h : d.IsLeftmost) : of d.text = d := by
  obtain ⟨first, rest⟩ := d
  induction rest generalizing first with
  | nil =>
    have hnil : ([] : List Char).head? ≠ some 'n' := nofun
    have hof := of_append (h.pieces first (.head _)) hnil
    simpa [text, of, Decomposition.prepend] using hof
  | cons p rest ih =>
    obtain ⟨sep, cs⟩ := p
    have hlater : IsLeftmost ⟨cs, rest⟩ :=
      ⟨fun ds hds => h.pieces ds (.tail _ hds),
        fun before ds after heq => h.breaks ((sep, cs) :: before) ds after (congrArg _ heq)⟩
    have htext : text ⟨first, (sep, cs) :: rest⟩ = first ++ (sep.chars ++ text ⟨cs, rest⟩) := by
      simp [text]
    rw [htext, of_append (h.pieces first (.head _)), of_separator, ih cs hlater]
    · simp [Decomposition.prepend, Decomposition.cons]
    · rintro rfl
      exact h.head?_ne
    · cases sep <;> simp [Separator.chars]

end Decomposition

end Simultaneous.Text
