import Mathlib
import Simultaneous.Text.Separator

/-!
The lines of two texts with a separator between them.

They are the lines of the one text and then those of the other, unless the separator makes a line
break of two characters with what stands next to it. Then one of the two texts has an empty line
at the seam that the whole has not.
-/

namespace Simultaneous.Text

variable {ds : List Char}

/-! ### Without a line break across the seam -/

lemma head?_append_ne {cs rest : List Char} {c : Char} (hcs : ∀ rest, cs = c :: rest → False)
    (hds : cs = [] → ds.head? ≠ some c) : cs ++ ds = c :: rest → False := by
  intro h
  cases cs with
  | nil => exact hds rfl (by rw [← List.nil_append ds, h, List.head?_cons])
  | cons d cs => exact hcs cs (by rw [(List.cons.inj h).1])

/-- A text keeps its lines if a separator follows it, unless its last character and the first one
of the separator are a line break together. -/
lemma splitChars_append {after : List (List Char)} (hds : splitChars ds = [] :: after)
    (hletter : ds.head? ≠ some 'n') (cs : List Char)
    (hbreak : ds.head? = some '\n' → cs.getLast? ≠ some '\r') :
    splitChars (cs ++ ds) = splitChars cs ++ after := by
  have htail {c : Char} {cs : List Char}
      (h : ds.head? = some '\n' → (c :: cs).getLast? ≠ some '\r') :
      ds.head? = some '\n' → cs.getLast? ≠ some '\r' :=
    fun hhead hlast => h hhead (by rw [List.getLast?_cons, hlast, Option.getD_some])
  fun_induction splitChars cs with
  | case1 => simpa [splitChars] using hds
  | case2 rest ih =>
    rw [List.cons_append, List.cons_append, splitChars.eq_2, ih (htail (htail hbreak)),
      List.cons_append]
  | case3 rest ih =>
    rw [List.cons_append, List.cons_append, splitChars.eq_3, ih (htail (htail hbreak)),
      List.cons_append]
  | case4 rest hrest ih =>
    have hseam : ∀ more, rest ++ ds = '\n' :: more → False := fun _ =>
      head?_append_ne hrest fun hnil hhead => hbreak hhead (by rw [hnil, List.getLast?_singleton])
    rw [List.cons_append, splitChars.eq_4 _ hseam, ih (htail hbreak), List.cons_append]
  | case5 rest ih => rw [List.cons_append, splitChars.eq_5, ih (htail hbreak), List.cons_append]
  | case6 rest ih => rw [List.cons_append, splitChars.eq_6, ih (htail hbreak), List.cons_append]
  | case7 c rest hcrlf hescape hcr hlf hcomma ih =>
    have hseam : ∀ more, c = '\\' → rest ++ ds = 'n' :: more → False := fun _ hc =>
      head?_append_ne (fun more => hescape more hc) fun _ => hletter
    obtain ⟨line, lines, hlines⟩ := List.exists_cons_of_ne_nil (splitChars_ne_nil rest)
    rw [List.cons_append, splitChars.eq_7 c _ (fun _ hc => absurd hc hcr) hseam hcr hlf hcomma,
      ih (htail hbreak), hlines, List.cons_append, List.modifyHead_cons, List.modifyHead_cons,
      List.cons_append]

/-! ### Separators -/

/-- The first line of a text that starts with a separator is empty. -/
lemma splitChars_separator (sep : Separator) (hcr : sep = .carriageReturn → ds.head? ≠ some '\n') :
    splitChars (sep.chars ++ ds) = [] :: splitChars ds := by
  cases sep with
  | carriageReturn =>
    exact splitChars.eq_4 ds fun more h => hcr rfl (by rw [h, List.head?_cons])
  | _ => simp [Separator.chars, splitChars]

/-- Two texts that make no line break with the separator between them keep their lines. -/
lemma splitChars_join (sep : Separator) (cs ds : List Char)
    (hlf : sep = .lineFeed → cs.getLast? ≠ some '\r')
    (hcr : sep = .carriageReturn → ds.head? ≠ some '\n') :
    splitChars (cs ++ sep.chars ++ ds) = splitChars cs ++ splitChars ds := by
  rw [List.append_assoc]
  refine splitChars_append (splitChars_separator sep hcr) ?_ cs ?_
  · cases sep <;> simp [Separator.chars]
  · cases sep <;> simp_all [Separator.chars]

/-- **Seams**: the lines of two texts with a separator between them are those of the two texts,
but for an empty last line of the first or an empty first line of the second. -/
theorem exists_splitChars_join (sep : Separator) (cs ds : List Char) :
    ∃ us vs, splitChars (cs ++ sep.chars ++ ds) = splitChars us ++ splitChars vs ∧
      (splitChars cs = splitChars us ∨ splitChars cs = splitChars us ++ [[]]) ∧
      (splitChars ds = splitChars vs ∨ splitChars ds = [] :: splitChars vs) := by
  by_cases hlf : sep = .lineFeed ∧ cs.getLast? = some '\r'
  · -- the return at the end of the first text and the line feed are one line break
    obtain ⟨rfl, hlast⟩ := hlf
    obtain ⟨us, rfl⟩ := List.getLast?_eq_some_iff.mp hlast
    refine ⟨us, ds, ?_, .inr ?_, .inl rfl⟩
    · have h := splitChars_join .carriageReturnLineFeed us ds (by simp) (by simp)
      simpa [Separator.chars] using h
    · have h := splitChars_join .carriageReturn us [] (by simp) (by simp)
      simpa [Separator.chars, splitChars] using h
  by_cases hcr : sep = .carriageReturn ∧ ds.head? = some '\n'
  · -- so are the return and the line feed at the start of the second text
    obtain ⟨rfl, hhead⟩ := hcr
    obtain ⟨vs, rfl⟩ := List.head?_eq_some_iff.mp hhead
    refine ⟨cs, vs, ?_, .inl rfl, .inr (splitChars.eq_5 vs)⟩
    have h := splitChars_join .carriageReturnLineFeed cs vs (by simp) (by simp)
    simpa [Separator.chars] using h
  · refine ⟨cs, ds, splitChars_join sep cs ds (fun hsep hlast => hlf ⟨hsep, hlast⟩)
      fun hsep hhead => hcr ⟨hsep, hhead⟩, .inl rfl, .inl rfl⟩

end Simultaneous.Text
