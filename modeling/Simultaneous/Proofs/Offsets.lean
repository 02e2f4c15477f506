import Mathlib
import Simultaneous.Proofs.Decomposition

/-!
The lines of a text by the places of their bytes.

A separator can be told from its bytes alone, because a byte of a character that is not ASCII is
none of an ASCII character. So the lines can be found by going through the bytes of a text one at a
time, and every line starts and ends between two characters.
-/

namespace Simultaneous.Text

open String (utf8EncodeChar utf8Len)

/-- The bytes of a text. -/
def bytes (text : String) : List UInt8 := text.toUTF8.data.toList

/-- The number of bytes of the separator at a place, 0 if there is none. -/
def separatorSize (bytes : List UInt8) (i : ℕ) : ℕ :=
  if bytes[i]? = some '\r'.toUInt8 ∧ bytes[i + 1]? = some '\n'.toUInt8 then 2
  else if bytes[i]? = some '\\'.toUInt8 ∧ bytes[i + 1]? = some 'n'.toUInt8 then 2
  else if bytes[i]? = some '\r'.toUInt8 ∨ bytes[i]? = some '\n'.toUInt8 ∨
    bytes[i]? = some ','.toUInt8 then 1
  else 0

/-- Where the lines start and end, from place `i` on in a line that has started at `start`. -/
def lineRanges (bytes : List UInt8) (start i : ℕ) : List (ℕ × ℕ) :=
  if i < bytes.length then
    if separatorSize bytes i = 0 then lineRanges bytes start (i + 1)
    else (start, i) :: lineRanges bytes (i + separatorSize bytes i) (i + separatorSize bytes i)
  else [(start, bytes.length)]
termination_by bytes.length - i

/-- What stands between two places, if both are between two characters. -/
def slice? (text : String) (range : ℕ × ℕ) : Option String :=
  if range.1 ≤ range.2 ∧ (String.Pos.Raw.mk range.1).isValid text ∧
    (String.Pos.Raw.mk range.2).isValid text then
    some (String.Pos.Raw.extract text ⟨range.1⟩ ⟨range.2⟩)
  else none

/-! ### Bytes of characters -/

lemma bytes_ofList (cs : List Char) : bytes (String.ofList cs) = cs.flatMap utf8EncodeChar := by
  simp [bytes, List.utf8Encode]

lemma length_flatMap_utf8EncodeChar (cs : List Char) :
    (cs.flatMap utf8EncodeChar).length = utf8Len cs := by
  induction cs with
  | nil => rfl
  | cons c cs ih =>
    rw [List.flatMap_cons, List.length_append, ih, String.length_utf8EncodeChar,
      String.utf8Len_cons, Nat.add_comm]

lemma utf8EncodeChar_of_ascii {c : Char} (h : c.utf8Size = 1) : utf8EncodeChar c = [c.toUInt8] :=
  String.utf8EncodeChar_eq_singleton h

lemma le_of_mem_utf8EncodeChar {c : Char} (h : c.utf8Size ≠ 1) {b : UInt8}
    (hb : b ∈ utf8EncodeChar c) : 128 ≤ b.toNat := by
  have hlarge : ¬ c.val.toNat ≤ 127 := mt (fun hle => Char.utf8Size_eq_one_iff.mpr hle) h
  rw [utf8EncodeChar, if_neg hlarge] at hb
  split_ifs at hb
  all_goals
    simp only [List.mem_cons, List.not_mem_nil, or_false] at hb
    rcases hb with rfl | rfl | rfl | rfl <;> simp only [UInt8.toNat_ofNat'] <;> omega

lemma toNat_toUInt8 {c : Char} (h : c.utf8Size = 1) : c.toUInt8.toNat = c.toNat := by
  have hsmall : c.val.toNat ≤ 127 := Char.utf8Size_eq_one_iff.mp h
  rw [← Char.toUInt8_val, UInt32.toNat_toUInt8]
  exact Nat.mod_eq_of_lt (by omega)

/-- The byte of an ASCII character stands for that character alone. -/
lemma getElem?_zero_eq_iff {a : Char} (ha : a.utf8Size = 1) (cs : List Char) :
    (cs.flatMap utf8EncodeChar)[0]? = some a.toUInt8 ↔ cs.head? = some a := by
  cases cs with
  | nil => simp
  | cons c cs =>
    rw [List.flatMap_cons, List.head?_cons, Option.some.injEq]
    by_cases hc : c.utf8Size = 1
    · rw [utf8EncodeChar_of_ascii hc, List.singleton_append, List.getElem?_cons_zero,
        Option.some.injEq, ← UInt8.toNat_inj, toNat_toUInt8 hc, toNat_toUInt8 ha, Char.toNat_inj]
    · refine ⟨fun h => ?_, fun h => absurd (h ▸ ha) hc⟩
      obtain ⟨b, bs, hb⟩ := List.exists_cons_of_ne_nil (String.utf8EncodeChar_ne_nil (c := c))
      have hle := le_of_mem_utf8EncodeChar hc (hb ▸ List.mem_cons_self)
      rw [hb] at h
      obtain rfl : b = a.toUInt8 := Option.some.inj h
      have hsmall : a.val.toNat ≤ 127 := Char.utf8Size_eq_one_iff.mp ha
      rw [toNat_toUInt8 ha] at hle
      exact absurd (hle.trans hsmall) (by decide)

/-! ### Separators -/

lemma separatorSize_append (done cs : List Char) (j : ℕ) :
    separatorSize (bytes (.ofList (done ++ cs))) (utf8Len done + j) =
      separatorSize (bytes (.ofList cs)) j := by
  have hget (k : ℕ) : (bytes (.ofList (done ++ cs)))[utf8Len done + k]? =
      (bytes (.ofList cs))[k]? := by
    rw [bytes_ofList, bytes_ofList, List.flatMap_append, ← length_flatMap_utf8EncodeChar,
      List.getElem?_append_right (Nat.le_add_right _ _), Nat.add_sub_cancel_left]
  rw [separatorSize, separatorSize, Nat.add_assoc, hget, hget]

lemma getElem?_pair_iff {a b c : Char} (ha : a.utf8Size = 1) (hb : b.utf8Size = 1)
    (cs : List Char) :
    ((c :: cs).flatMap utf8EncodeChar)[0]? = some a.toUInt8 ∧
        ((c :: cs).flatMap utf8EncodeChar)[0 + 1]? = some b.toUInt8 ↔
      c = a ∧ cs.head? = some b := by
  rw [getElem?_zero_eq_iff ha, List.head?_cons, Option.some.injEq]
  refine and_congr_right ?_
  rintro rfl
  rw [List.flatMap_cons, utf8EncodeChar_of_ascii ha, List.singleton_append,
    List.getElem?_cons_succ, getElem?_zero_eq_iff hb]

/-- The separator at the front of a text shows in its first two characters. -/
lemma separatorSize_zero (c : Char) (cs : List Char) :
    separatorSize (bytes (.ofList (c :: cs))) 0 =
      if c = '\r' ∧ cs.head? = some '\n' then 2
      else if c = '\\' ∧ cs.head? = some 'n' then 2
      else if c = '\r' ∨ c = '\n' ∨ c = ',' then 1
      else 0 := by
  rw [bytes_ofList, separatorSize]
  have hcr : '\r'.utf8Size = 1 := by decide
  have hlf : '\n'.utf8Size = 1 := by decide
  have hbackslash : '\\'.utf8Size = 1 := by decide
  have hn : 'n'.utf8Size = 1 := by decide
  have hcomma : ','.utf8Size = 1 := by decide
  rw [if_congr (getElem?_pair_iff hcr hlf cs) rfl rfl,
    if_congr (getElem?_pair_iff hbackslash hn cs) rfl rfl]
  simp only [getElem?_zero_eq_iff, hcr, hlf, hcomma, List.head?_cons, Option.some.injEq]

lemma separatorSize_separator {sep : Separator} {cs : List Char}
    (hbreak : sep = .carriageReturn → cs.head? ≠ some '\n') :
    separatorSize (bytes (.ofList (sep.chars ++ cs))) 0 = utf8Len sep.chars := by
  have hsize : utf8Len sep.chars = sep.chars.length := by cases sep <;> decide
  rw [hsize]
  cases sep <;> rw [Separator.chars, List.cons_append, separatorSize_zero] <;> simp_all

/-- Nor does a byte inside a character start a separator. -/
lemma separatorSize_of_lt {c : Char} {cs : List Char} (hc : c.utf8Size ≠ 1) {j : ℕ}
    (hj : j < c.utf8Size) : separatorSize (bytes (.ofList (c :: cs))) j = 0 := by
  have hlt : j < (utf8EncodeChar c).length := by rwa [String.length_utf8EncodeChar]
  have hge := le_of_mem_utf8EncodeChar hc (List.getElem_mem hlt)
  have hne {a : Char} (ha : a.utf8Size = 1) :
      ((c :: cs).flatMap utf8EncodeChar)[j]? ≠ some a.toUInt8 := by
    rw [List.flatMap_cons, List.getElem?_append_left hlt, List.getElem?_eq_getElem hlt]
    intro h
    have hsmall : a.val.toNat ≤ 127 := Char.utf8Size_eq_one_iff.mp ha
    rw [Option.some.inj h, toNat_toUInt8 ha] at hge
    exact absurd (hge.trans hsmall) (by decide)
  rw [bytes_ofList, separatorSize, if_neg fun h => hne (by decide) h.1,
    if_neg fun h => hne (by decide) h.1]
  exact if_neg (by rintro (h | h | h) <;> exact hne (by decide) h)

/-- No byte of a character that starts no separator starts one. -/
lemma separatorSize_of_not {c : Char} {cs : List Char}
    (hsep : ∀ sep : Separator, ¬ sep.chars <+: c :: cs) {j : ℕ} (hj : j < c.utf8Size) :
    separatorSize (bytes (.ofList (c :: cs))) j = 0 := by
  by_cases hc : c.utf8Size = 1
  · obtain rfl : j = 0 := by omega
    have hstart (sep : Separator) (rest : List Char) : c :: cs ≠ sep.chars ++ rest :=
      fun h => hsep sep ⟨rest, h.symm⟩
    rw [separatorSize_zero, if_neg, if_neg, if_neg]
    · rintro (rfl | rfl | rfl)
      · exact hstart .carriageReturn cs rfl
      · exact hstart .lineFeed cs rfl
      · exact hstart .comma cs rfl
    · rintro ⟨rfl, h⟩
      obtain ⟨rest, rfl⟩ := List.head?_eq_some_iff.mp h
      exact hstart .escapedLineFeed rest rfl
    · rintro ⟨rfl, h⟩
      obtain ⟨rest, rfl⟩ := List.head?_eq_some_iff.mp h
      exact hstart .carriageReturnLineFeed rest rfl
  · exact separatorSize_of_lt hc hj

/-! ### Ranges -/

lemma lineRanges_skip {bytes : List UInt8} (start : ℕ) {i n : ℕ} (hlt : i + n ≤ bytes.length)
    (hzero : ∀ j < n, separatorSize bytes (i + j) = 0) :
    lineRanges bytes start i = lineRanges bytes start (i + n) := by
  induction n with
  | zero => rfl
  | succ n ih =>
    rw [ih (by omega) fun j hj => hzero j (by omega), lineRanges, if_pos (by omega),
      if_pos (hzero n (Nat.lt_succ_self n))]
    rfl

lemma length_bytes_ofList (cs : List Char) : (bytes (.ofList cs)).length = utf8Len cs := by
  rw [bytes_ofList, length_flatMap_utf8EncodeChar]

lemma lineRanges_char {c : Char} {cs : List Char}
    (hsep : ∀ sep : Separator, ¬ sep.chars <+: c :: cs) (done : List Char) (start : ℕ) :
    lineRanges (bytes (.ofList (done ++ c :: cs))) start (utf8Len done) =
      lineRanges (bytes (.ofList (done ++ c :: cs))) start (utf8Len (done ++ [c])) := by
  rw [String.utf8Len_append]
  refine lineRanges_skip start ?_ fun j hj => ?_
  · rw [length_bytes_ofList, String.utf8Len_append]
    simp only [String.utf8Len_cons, String.utf8Len_nil]
    omega
  · rw [separatorSize_append]
    exact separatorSize_of_not hsep (by simpa using hj)

lemma lineRanges_separator {sep : Separator} {cs : List Char}
    (hbreak : sep = .carriageReturn → cs.head? ≠ some '\n') (done : List Char) (start : ℕ) :
    lineRanges (bytes (.ofList (done ++ (sep.chars ++ cs)))) start (utf8Len done) =
      (start, utf8Len done) ::
        lineRanges (bytes (.ofList (done ++ (sep.chars ++ cs)))) (utf8Len (done ++ sep.chars))
          (utf8Len (done ++ sep.chars)) := by
  have hsize : separatorSize (bytes (.ofList (done ++ (sep.chars ++ cs)))) (utf8Len done) =
      utf8Len sep.chars :=
    (separatorSize_append done _ 0).trans (separatorSize_separator hbreak)
  have hpos : 0 < utf8Len sep.chars := by cases sep <;> decide
  have hlt : utf8Len done < (bytes (.ofList (done ++ (sep.chars ++ cs)))).length := by
    rw [length_bytes_ofList, String.utf8Len_append, String.utf8Len_append]
    omega
  rw [lineRanges, if_pos hlt, hsize, if_neg hpos.ne', String.utf8Len_append]

lemma lineRanges_nil (done : List Char) (start : ℕ) :
    lineRanges (bytes (.ofList done)) start (utf8Len done) = [(start, utf8Len done)] := by
  rw [lineRanges, length_bytes_ofList, if_neg (lt_irrefl _)]

/-! ### Slices -/

lemma slice?_eq (before line after : List Char) :
    slice? (.ofList (before ++ line ++ after)) (utf8Len before, utf8Len (before ++ line)) =
      some (.ofList line) := by
  have hvalid (cs ds : List Char) :
      (String.Pos.Raw.mk (utf8Len cs)).isValid (.ofList (cs ++ ds)) = true := by
    rw [String.Pos.Raw.isValid_eq_true_iff, String.Pos.Raw.isValid_iff_exists_append]
    exact ⟨.ofList cs, .ofList ds, String.ofList_append, (String.rawEndPos_ofList cs).symm⟩
  have hstart := hvalid before (line ++ after)
  rw [← List.append_assoc] at hstart
  have hle : utf8Len before ≤ utf8Len before + utf8Len line := Nat.le_add_right _ _
  rw [← String.utf8Len_append] at hle
  rw [slice?, if_pos ⟨hle, hstart, hvalid (before ++ line) after⟩, String.utf8Len_append,
    String.extract_of_valid]

/-- From a place inside a line on, each range of bytes holds a line. -/
def RangesHold (before line rest : List Char) : Prop :=
  (lineRanges (bytes (.ofList (before ++ line ++ rest))) (utf8Len before)
      (utf8Len (before ++ line))).map (slice? (.ofList (before ++ line ++ rest))) =
    ((Decomposition.of rest).prepend line).pieces.map (some ∘ String.ofList)

lemma RangesHold.separator {sep : Separator} {rest : List Char}
    (hbreak : sep = .carriageReturn → rest.head? ≠ some '\n')
    (h : ∀ before line, RangesHold before line rest) (before line : List Char) :
    RangesHold before line (sep.chars ++ rest) := by
  have hrest := h (before ++ line ++ sep.chars) []
  rw [RangesHold, List.append_nil, List.append_assoc] at hrest
  rw [RangesHold, lineRanges_separator hbreak, List.map_cons, slice?_eq, hrest,
    Decomposition.of_separator hbreak]
  simp [Decomposition.prepend, Decomposition.cons, Decomposition.pieces]

lemma RangesHold.char {c : Char} {rest : List Char}
    (hsep : ∀ sep : Separator, ¬ sep.chars <+: c :: rest)
    (h : ∀ before line, RangesHold before line rest) (before line : List Char) :
    RangesHold before line (c :: rest) := by
  have hrest := h before (line ++ [c])
  have htext : before ++ (line ++ [c]) ++ rest = before ++ line ++ c :: rest := by simp
  rw [RangesHold, htext, ← List.append_assoc] at hrest
  rw [RangesHold, lineRanges_char hsep, hrest, Decomposition.of_char hsep]
  simp [Decomposition.prepend, Decomposition.pieces]

lemma rangesHold (before line rest : List Char) : RangesHold before line rest := by
  induction rest using Decomposition.separator_induction generalizing before line with
  | nil =>
    have hslice := slice?_eq before line []
    rw [List.append_nil] at hslice
    rw [RangesHold, List.append_nil, lineRanges_nil, List.map_singleton, hslice]
    simp [Decomposition.of, Decomposition.prepend, Decomposition.pieces]
  | separator sep rest hbreak ih => exact .separator hbreak ih before line
  | char c rest hsep ih => exact .char hsep ih before line

/-! ### Lines -/

lemma slices_eq (text : String) :
    (lineRanges (bytes text) 0 0).map (slice? text) = (lines text).map some := by
  have h := rangesHold [] [] text.toList
  rw [RangesHold, List.nil_append, List.nil_append, String.ofList_toList] at h
  rw [lines, ← Decomposition.pieces_of, List.map_map]
  exact h

lemma isValid_of_slice? {text line : String} {range : ℕ × ℕ} (h : slice? text range = some line) :
    String.Pos.Raw.IsValid text ⟨range.1⟩ ∧ String.Pos.Raw.IsValid text ⟨range.2⟩ := by
  rw [slice?] at h
  split_ifs at h with hvalid
  exact ⟨String.Pos.Raw.isValid_eq_true_iff.mp hvalid.2.1,
    String.Pos.Raw.isValid_eq_true_iff.mp hvalid.2.2⟩

/-- **The lines of a text** are the pieces of its only decomposition without a separator in a piece
and without a line break taken for two. Every line starts and ends between two characters, so
cutting the text at bytes never fails and gives the lines. -/
theorem lines_decomposition (text : String) :
    (∃ d : Decomposition, lines text = d.pieces.map String.ofList ∧ d.text = text.toList ∧
        d.IsLeftmost ∧ ∀ d' : Decomposition, d'.text = text.toList → d'.IsLeftmost → d' = d) ∧
      (lineRanges (bytes text) 0 0).map (slice? text) = (lines text).map some ∧
      ∀ range ∈ lineRanges (bytes text) 0 0,
        String.Pos.Raw.IsValid text ⟨range.1⟩ ∧ String.Pos.Raw.IsValid text ⟨range.2⟩ := by
  refine ⟨⟨.of text.toList, ?_, Decomposition.text_of _, Decomposition.isLeftmost_of _,
    fun d htext hleft => ?_⟩, slices_eq text, fun range hrange => ?_⟩
  · rw [Decomposition.pieces_of, lines]
  · rw [← htext, hleft.of_text]
  · have hmem := List.mem_map_of_mem (f := slice? text) hrange
    rw [slices_eq, List.mem_map] at hmem
    obtain ⟨line, -, hline⟩ := hmem
    exact isValid_of_slice? hline.symm

/-- A character may take several bytes, and no line starts or ends between them. -/
example : lineRanges (bytes "é,\r\n\rü\\n") 0 0 = [(0, 2), (3, 3), (5, 5), (6, 8), (10, 10)] := by
  decide +kernel

end Simultaneous.Text
