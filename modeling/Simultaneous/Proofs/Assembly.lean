import Mathlib
import Simultaneous.Proofs.Directory
import Simultaneous.Proofs.Frames

/-!
The shape of the system that lines without a fault leave.

Every entry goes into the row of the equation at hand and gives its name a column, and an equation
that is complete has a name. So no row of a complete equation and no column is empty, nothing is
stored outside of them except for the equation at hand, and a square system at the end of the input
lies within the block that is solved.
-/

namespace Simultaneous

open Equation
open Number (OfDecimal)
open Solver (block segment)

variable {α : Type}

/-! ### Cells -/

namespace LinearSystem

/-- Whether something is stored for a name in a row, or for the right-hand side of it. -/
def Stored (s : LinearSystem α) (row : ℕ) (name : Option String) : Prop :=
  (s.cell? row name).isSome

variable [Zero α] {s : LinearSystem α}

lemma not_stored_empty (row : ℕ) (name : Option String) :
    ¬ (empty : LinearSystem α).Stored row name := by
  rw [Stored, cell?_empty]
  exact Bool.false_ne_true

/-- What the matrix stores belongs to the name of the column. -/
lemma Tidy.isSome_matrix_iff (h : s.Tidy) {row j : ℕ} :
    (s.matrix.get? (row, j)).isSome ↔
      ∃ name, s.names[j]? = some name ∧ s.Stored row (some name) := by
  have hcell {name : String} (hname : s.names[j]? = some name) :
      s.cell? row (some name) = s.matrix.get? (row, j) := by
    obtain ⟨hlt, rfl⟩ := List.getElem?_eq_some_iff.mp hname
    rw [cell?, column, h.nodup.idxOf_getElem j hlt]
  refine ⟨fun hsome => ?_, ?_⟩
  · have hlt : j < s.names.length := by
      by_contra hge
      rw [h.inside row j (not_lt.mp hge)] at hsome
      exact Bool.false_ne_true hsome
    have hname := List.getElem?_eq_getElem hlt
    exact ⟨_, hname, by rwa [Stored, hcell hname]⟩
  · rintro ⟨name, hname, hstored⟩
    rwa [Stored, hcell hname] at hstored

variable [One α] [Add α] [Neg α] [OfDecimal α]

/-- Entries are stored in their cells, and what is stored stays. -/
lemma stored_foldl_enter (h : s.Tidy) {row : ℕ} {es : List Entry} {i : ℕ} {name : Option String} :
    (es.foldl (·.enter row ·) s).Stored i name ↔
      s.Stored i name ∨ i = row ∧ ∃ e ∈ es, e.quantity.name? = name := by
  induction es generalizing s with
  | nil => simp
  | cons e es ih =>
    rw [List.foldl_cons, ih (h.enter row e), Stored, cell?_enter h, Stored]
    by_cases hi : i = row <;> by_cases hname : e.quantity.name? = name <;> simp [hi, hname]

end LinearSystem

/-! ### Names of an equation at hand -/

namespace Equation

/-- Whether a term of the equation at hand has a name. -/
def Phase.named : Phase → Bool
  | start => false
  | term p _ | operator p => p.named

/-- If a term has a name by now, one had it before or an entry brings one. -/
lemma exists_name_of_takes {ph next : Phase} {ts : List Token} {es : List Entry}
    (h : ph.Takes ts es next) (hnext : next.named = true) :
    ph.named = true ∨ ∃ e ∈ es, ∃ name, e.quantity.name? = some name := by
  induction h with
  | nil ph => exact .inl hnext
  | @term ph next p minus t ts es due _ ih =>
    obtain ⟨sign, quantity⟩ := t
    rcases ih hnext with hnamed | ⟨e, he, hname⟩
    · cases quantity with
      | multiple l name => exact .inr ⟨_, .head _, name, rfl⟩
      | constant l =>
        refine .inl ?_
        rw [Phase.named, Progress.addTerm, Quantity.isMultiple, Bool.or_false] at hnamed
        cases ph with
        | start =>
          obtain ⟨rfl, -⟩ := Prod.mk.inj (Option.some.inj due)
          exact hnamed
        | term p' minus' =>
          obtain ⟨rfl, -⟩ := Prod.mk.inj (Option.some.inj due)
          exact hnamed
        | operator p' => cases due
    · exact .inr ⟨e, .tail _ he, hname⟩
  | @operator p next o ts es _ _ ih =>
    refine (ih hnext).imp_left fun hnamed => ?_
    rw [Phase.named, Progress.addOperator] at hnamed
    split_ifs at hnamed <;> exact hnamed

lemma named_of_defect {p : Progress} (h : p.defect = none) : p.named = true := by
  obtain ⟨side, named⟩ := p
  rcases side with _ | _ | _ <;> cases named <;> simp_all [Progress.defect]

/-- The names in lines, in reading order. -/
def Session.namesIn (s : Session) : List (List Char) → List String
  | [] => []
  | line :: lines =>
    (s.read line).entries.filterMap (·.quantity.name?) ++ (s.read line).session.namesIn lines

end Equation

/-! ### What every line keeps -/

namespace Draft

/-- What holds of a draft as long as no line has a fault, `seen` being the names up to now. -/
structure Sound [Zero α] (d : Draft α) (seen : List String) : Prop where
  tidy : d.system.Tidy
  count_eq : d.system.equationCount = d.session.equations
  names_eq : d.system.names = seen.eraseDups
  row_le : ∀ i name, d.system.Stored i name → i ≤ d.session.equations
  /-- Nothing is stored for an equation that has not begun. -/
  start : d.session.phase = .start → ∀ name, ¬ d.system.Stored d.session.equations name
  /-- The names of the equation at hand are stored. -/
  named : d.session.phase.named = true →
    ∃ name, d.system.Stored d.session.equations (some name)
  rows : ∀ i < d.session.equations, ∃ name, d.system.Stored i (some name)
  columns : ∀ name ∈ seen, ∃ i, d.system.Stored i (some name)

variable [Zero α] {d d' : Draft α} {seen : List String} {limits : Limits} {line : List Char}
  {lines more : List (List Char)}

lemma sound_fresh : (fresh limits : Draft α).Sound [] where
  tidy := LinearSystem.tidy_empty
  count_eq := rfl
  names_eq := rfl
  row_le i _ h := absurd h (LinearSystem.not_stored_empty i _)
  start _ name := LinearSystem.not_stored_empty 0 name
  named h := nomatch h
  rows i hi := absurd hi (Nat.not_lt_zero i)
  columns _ h := nomatch h

variable [One α] [Add α] [Neg α] [OfDecimal α]

lemma stored_feed (h : d.system.Tidy) (line : List Char) (i : ℕ) (name : Option String) :
    (d.feed line).value.1.system.Stored i name ↔
      d.system.Stored i name ∨
        i = d.session.equations ∧
          ∃ e ∈ (d.session.read line).entries, e.quantity.name? = name := by
  rw [← LinearSystem.stored_foldl_enter h, system_feed, LinearSystem.absorb_eq]
  split_ifs <;> cases name <;> rfl

lemma tidy_feed (h : d.system.Tidy) (line : List Char) : (d.feed line).value.1.system.Tidy := by
  have hentered : ((d.session.read line).entries.foldl
    (·.enter d.session.equations ·) d.system).Tidy := h.foldl_enter
  rw [system_feed, LinearSystem.absorb_eq]
  split_ifs
  · exact ⟨hentered.nodup, hentered.inside, hentered.matrix_fallback, hentered.rhs_fallback⟩
  · exact hentered

omit [Zero α] in
lemma names_feed_eraseDups (h : d.system.names = seen.eraseDups) (line : List Char) :
    (d.feed line).value.1.system.names =
      (seen ++ (d.session.read line).entries.filterMap (·.quantity.name?)).eraseDups := by
  rw [system_feed, LinearSystem.absorb_eq, ← LinearSystem.names_foldl_enter h]
  split_ifs <;> rfl

namespace Sound

lemma row_le_feed (h : d.Sound seen) (line : List Char) (i : ℕ) (name : Option String)
    (hi : (d.feed line).value.1.system.Stored i name) : i ≤ d.session.equations := by
  rcases (stored_feed h.tidy line i name).mp hi with hi | ⟨rfl, -⟩
  · exact h.row_le i name hi
  · exact le_rfl

lemma rows_feed (h : d.Sound seen) (line : List Char) (i : ℕ) (hi : i < d.session.equations) :
    ∃ name, (d.feed line).value.1.system.Stored i (some name) := by
  obtain ⟨name, hname⟩ := h.rows i hi
  exact ⟨name, (stored_feed h.tidy line i _).mpr (.inl hname)⟩

lemma columns_feed (h : d.Sound seen) (line : List Char) (name : String)
    (hname : name ∈ seen ++ (d.session.read line).entries.filterMap (·.quantity.name?)) :
    ∃ i, (d.feed line).value.1.system.Stored i (some name) := by
  rcases List.mem_append.mp hname with hname | hname
  · obtain ⟨i, hi⟩ := h.columns name hname
    exact ⟨i, (stored_feed h.tidy line i _).mpr (.inl hi)⟩
  · exact ⟨_, (stored_feed h.tidy line _ _).mpr (.inr ⟨rfl, List.mem_filterMap.mp hname⟩)⟩

/-- If a term has a name by the end of a line, the row at hand is not empty. -/
lemma named_feed (h : d.Sound seen) {e : LineEnd} (hread : (d.session.read line).result = .ok e)
    (hnamed : (scan d.session.limits d.session.phase line).phase.named = true) :
    ∃ name, (d.feed line).value.1.system.Stored d.session.equations (some name) := by
  obtain ⟨ts, -, htakes, -⟩ := Session.exists_spelled_of_read hread
  rcases exists_name_of_takes htakes hnamed with hbefore | ⟨entry, hentry, name, hname⟩
  · obtain ⟨name, hname⟩ := h.named hbefore
    exact ⟨name, (stored_feed h.tidy line _ _).mpr (.inl hname)⟩
  · exact ⟨name, (stored_feed h.tidy line _ _).mpr (.inr ⟨rfl, entry, hentry, hname⟩)⟩

/-- A line that completes an equation closes its row, and the next one is empty. -/
lemma feed_complete (h : d.Sound seen) (hread : (d.session.read line).result = .ok .complete) :
    (d.feed line).value.1.Sound
      (seen ++ (d.session.read line).entries.filterMap (·.quantity.name?)) := by
  obtain ⟨ts, -, -, hend⟩ := Session.exists_spelled_of_read hread
  have hnamed : (scan d.session.limits d.session.phase line).phase.named = true := by
    rcases lineEnd_eq_ok hend with ⟨-, hne⟩ | ⟨p, minus, -, hne⟩ | ⟨p, hp, hdefect, -⟩
    · exact nomatch hne
    · exact nomatch hne
    · rw [hp]
      exact named_of_defect hdefect
  have hrow : (d.feed line).value.1.session.equations = d.session.equations + 1 :=
    (d.session.equations_read line).trans (if_pos hread)
  have hphase : (d.feed line).value.1.session.phase = .start :=
    (d.session.phase_read line).trans (if_pos hread)
  have hcount := (d.equationCount_feed line).trans (if_pos hread)
  refine ⟨tidy_feed h.tidy line, hcount.trans hrow.symm, names_feed_eraseDups h.names_eq line,
    fun i name hi => ?_, fun _ name hname => ?_, fun hnext => ?_, fun i hi => ?_,
    h.columns_feed line⟩
  · rw [hrow]
    exact (h.row_le_feed line i name hi).trans (Nat.le_succ _)
  · rw [hrow] at hname
    exact absurd (h.row_le_feed line _ _ hname) (Nat.not_succ_le_self _)
  · rw [hphase] at hnext
    exact nomatch hnext
  · rw [hrow, Nat.lt_succ_iff_lt_or_eq] at hi
    obtain hi | rfl := hi
    · exact h.rows_feed line i hi
    · exact h.named_feed hread hnamed

/-- Any other line without a fault stays in the row. -/
lemma feed_open (h : d.Sound seen) {e : LineEnd} (hread : (d.session.read line).result = .ok e)
    (hopen : (d.session.read line).result ≠ .ok .complete) :
    (d.feed line).value.1.Sound
      (seen ++ (d.session.read line).entries.filterMap (·.quantity.name?)) := by
  obtain ⟨ts, -, htakes, -⟩ := Session.exists_spelled_of_read hread
  have hrow : (d.feed line).value.1.session.equations = d.session.equations :=
    (d.session.equations_read line).trans (if_neg hopen)
  have hphase : (d.feed line).value.1.session.phase =
      (scan d.session.limits d.session.phase line).phase :=
    (d.session.phase_read line).trans (if_neg hopen)
  have hcount := (d.equationCount_feed line).trans (if_neg hopen)
  refine ⟨tidy_feed h.tidy line, hcount.trans (h.count_eq.trans hrow.symm),
    names_feed_eraseDups h.names_eq line, ?_, fun hstart name hname => ?_, fun hnext => ?_, ?_,
    h.columns_feed line⟩
  · rw [hrow]
    exact h.row_le_feed line
  · -- the line was blank
    obtain ⟨hbefore, -, hes⟩ := eq_of_takes_start ((hphase.symm.trans hstart) ▸ htakes)
    rw [hrow] at hname
    rcases (stored_feed h.tidy line _ _).mp hname with hold | ⟨-, entry, hentry, -⟩
    · exact h.start hbefore name hold
    · rw [hes] at hentry
      exact nomatch hentry
  · rw [hrow]
    exact h.named_feed hread (hphase ▸ hnext)
  · rw [hrow]
    exact h.rows_feed line

/-- A line without a fault keeps a draft sound. -/
lemma feed (h : d.Sound seen) {e : LineEnd} (hline : (d.feed line).value = (d', .ok e)) :
    d'.Sound (seen ++ (d.session.read line).entries.filterMap (·.quantity.name?)) := by
  have hread : (d.session.read line).result = .ok e := congrArg Prod.snd hline
  obtain rfl : (d.feed line).value.1 = d' := congrArg Prod.fst hline
  by_cases hcomplete : (d.session.read line).result = .ok .complete
  · exact h.feed_complete hcomplete
  · exact h.feed_open hread hcomplete

end Sound

lemma Sound.feedAll (h : d.Sound seen) (hlines : (d.feedAll lines).value = .ok d') :
    d'.Sound (seen ++ d.session.namesIn lines) := by
  induction lines generalizing d seen with
  | nil =>
    obtain rfl := Except.ok.inj hlines
    rwa [Session.namesIn, List.append_nil]
  | cons line lines ih =>
    obtain ⟨d₁, e, hline, hrest⟩ := exists_feed_of_feedAll_cons hlines
    have hsession : (d.session.read line).session = d₁.session :=
      congrArg (fun r => r.1.session) hline
    rw [Session.namesIn, ← List.append_assoc, hsession]
    exact ih (h.feed hline) hrest

omit [Zero α] in
/-- Lines leave the columns alone that there are. -/
lemma column_feedAll (hlines : (d.feedAll lines).value = .ok d') {name : String}
    (hname : name ∈ d.system.names) : d'.system.column name = d.system.column name := by
  induction lines generalizing d with
  | nil => exact Except.ok.inj hlines ▸ rfl
  | cons line lines ih =>
    obtain ⟨d₁, e, hline, hrest⟩ := exists_feed_of_feedAll_cons hlines
    have hsame := d.sameBut_feed line
    rw [hline] at hsame
    obtain ⟨hmem, hcolumn⟩ := hsame.column name hname
    exact (ih hrest hmem).trans hcolumn

end Draft

/-! ### The shape of a system -/

/-- The shape of a system with complete equations and maybe some of the equation at hand, whose
names are `seen` in reading order. -/
structure LinearSystem.WellFormed (s : LinearSystem α) (seen : List String) : Prop where
  matrix_inside : ∀ i j, (s.matrix.get? (i, j)).isSome → i ≤ s.equationCount ∧ j < s.variableCount
  rhs_inside : ∀ i, (s.rhs.get? i).isSome → i ≤ s.equationCount
  row_filled : ∀ i < s.equationCount, ∃ j, (s.matrix.get? (i, j)).isSome
  column_filled : ∀ j < s.variableCount, ∃ i, (s.matrix.get? (i, j)).isSome
  bijOn_column : Set.BijOn s.column {name | name ∈ seen} (Set.Iio s.variableCount)
  get?_directory : ∀ name, (Directory.ofNames seen).get? name =
    if name ∈ seen then some (s.column name) else none
  size_directory : (Directory.ofNames seen).size = s.variableCount
  names_directory : ∀ name ∈ seen, (Directory.ofNames seen).names[s.column name]? = some name

namespace Draft

variable [Zero α] {d : Draft α} {seen : List String}

lemma Sound.wellFormed (h : d.Sound seen) : d.system.WellFormed seen := by
  have hlists : (Directory.ofNames seen).Lists d.system.names :=
    h.names_eq ▸ Directory.lists_ofNames seen
  have hmem (name : String) : name ∈ d.system.names ↔ name ∈ seen := by
    rw [h.names_eq, List.mem_eraseDups]
  have hcell {i : ℕ} {name : String} (hstored : d.system.Stored i (some name)) :
      (d.system.matrix.get? (i, d.system.column name)).isSome := hstored
  refine ⟨fun i j hij => ?_, fun i hi => ?_, fun i hi => ?_, fun j hj => ?_, ⟨?_, ?_, ?_⟩,
    fun name => ?_, hlists.size_eq, fun name hname => ?_⟩
  · obtain ⟨name, hname, hstored⟩ := h.tidy.isSome_matrix_iff.mp hij
    exact ⟨h.count_eq ▸ h.row_le i _ hstored, (List.getElem?_eq_some_iff.mp hname).1⟩
  · exact h.count_eq ▸ h.row_le i none hi
  · obtain ⟨name, hstored⟩ := h.rows i (h.count_eq ▸ hi)
    exact ⟨_, hcell hstored⟩
  · have hname := List.getElem?_eq_getElem hj
    obtain ⟨i, hstored⟩ := h.columns _ ((hmem _).mp (List.getElem_mem hj))
    exact ⟨i, h.tidy.isSome_matrix_iff.mpr ⟨_, hname, hstored⟩⟩
  · exact fun name hname => LinearSystem.column_lt_iff.mpr ((hmem name).mpr hname)
  · exact fun name hname other _ heq => (List.idxOf_inj ((hmem name).mpr hname)).mp heq
  · intro j hj
    exact ⟨d.system.names[j], (hmem _).mp (List.getElem_mem hj), h.tidy.nodup.idxOf_getElem j hj⟩
  · simp only [hlists.get?_eq, hmem]
    rfl
  · rw [hlists.names_eq]
    exact List.getElem?_idxOf ((hmem name).mpr hname)

lemma Sound.empty_row (h : d.Sound seen) (hstart : d.session.phase = .start) :
    (∀ j, d.system.matrix.get? (d.system.equationCount, j) = none) ∧
      d.system.rhs.get? d.system.equationCount = none := by
  rw [h.count_eq]
  refine ⟨fun j => ?_, ?_⟩
  · by_contra hne
    obtain ⟨name, -, hstored⟩ := h.tidy.isSome_matrix_iff.mp (Option.isSome_iff_ne_none.mpr hne)
    exact h.start hstart _ hstored
  · by_contra hne
    exact h.start hstart none (Option.isSome_iff_ne_none.mpr hne)

variable [One α] [Add α] [Neg α] [OfDecimal α] {limits : Limits} {lines : List (List Char)}

lemma start_of_finish (hlines : ((fresh limits : Draft α).feedAll lines).value = .ok d)
    (hfinish : d.session.finish.2 = .ok ()) : d.session.phase = .start := by
  have hdue := due_of_feedAll rfl hlines
  rw [Session.finish] at hfinish
  cases hphase : d.session.phase with
  | start => rfl
  | term p minus => simp [hphase] at hfinish
  | operator p => simp [hphase, Phase.due] at hdue

/-- **The system that lines without a fault leave is well formed**, and so it is after each line,
since the lines up to there have no fault either. The columns that names have stay theirs. If the
input can end and there are as many equations as variables, everything stored lies within the
block and the segment that are solved. -/
theorem wellFormed_of_feedAll (hlines : ((fresh limits : Draft α).feedAll lines).value = .ok d) :
    let s := d.system
    let seen := (Session.fresh limits).namesIn lines
    s.equationCount = d.session.equations ∧ s.WellFormed seen ∧
      (d.session.phase = .start → (∀ j, s.matrix.get? (s.equationCount, j) = none) ∧
        s.rhs.get? s.equationCount = none) ∧
      (∀ more d', (d.feedAll more).value = .ok d' →
        ∀ name ∈ seen, d'.system.column name = s.column name) ∧
      (d.session.finish.2 = .ok () → ∀ n, s.equationCount = n → s.variableCount = n →
        (∀ i j v, s.matrix.get? (i, j) = some v →
          ∃ (hi : i < n) (hj : j < n), ((block n s.matrix).get ⟨i, hi⟩).get ⟨j, hj⟩ = v) ∧
        ∀ i v, s.rhs.get? i = some v → ∃ hi : i < n, (segment n s.rhs).get ⟨i, hi⟩ = v) := by
  intro s seen
  have hsound : d.Sound seen := sound_fresh.feedAll hlines
  have hformed := hsound.wellFormed
  refine ⟨hsound.count_eq, hformed, hsound.empty_row, fun more d' hmore name hname => ?_,
    fun hfinish n hcount hvariables => ?_⟩
  · refine column_feedAll hmore ?_
    rw [hsound.names_eq]
    exact List.mem_eraseDups.mpr hname
  · obtain ⟨hmatrix, hrhs⟩ := hsound.empty_row (start_of_finish hlines hfinish)
    refine ⟨fun i j v hv => ?_, fun i v hv => ?_⟩
    · obtain ⟨hi, hj⟩ := hformed.matrix_inside i j (Option.isSome_of_eq_some hv)
      have hne : i ≠ s.equationCount := by
        rintro rfl
        exact nomatch (hmatrix j).symm.trans hv
      refine ⟨hcount ▸ lt_of_le_of_ne hi hne, hvariables ▸ hj, ?_⟩
      rw [Solver.get_block, Sparse.get, hv, Option.getD_some]
    · have hi := hformed.rhs_inside i (Option.isSome_of_eq_some hv)
      have hne : i ≠ s.equationCount := by
        rintro rfl
        exact nomatch hrhs.symm.trans hv
      refine ⟨hcount ▸ lt_of_le_of_ne hi hne, ?_⟩
      rw [Solver.get_segment, Sparse.get, hv, Option.getD_some]

/-- The first equation goes over two lines. -/
theorem wellFormed_of_two_equations :
    ∃ d : Draft ℚ,
      ((fresh {}).feedAll ["2 x +".toList, "y = 3".toList, "y = 1 - x".toList]).value = .ok d ∧
        d.system.WellFormed ["x", "y", "y", "x"] ∧ d.system.equationCount = 2 ∧
        ∀ i j v, d.system.matrix.get? (i, j) = some v → i < 2 ∧ j < 2 := by
  have hnames : (Session.fresh {}).namesIn
      ["2 x +".toList, "y = 3".toList, "y = 1 - x".toList] = ["x", "y", "y", "x"] := by
    decide +kernel
  have hread : (((fresh {} : Draft ℚ).feedAll
      ["2 x +".toList, "y = 3".toList, "y = 1 - x".toList]).value.map fun d =>
        (d.system.equationCount, d.system.variableCount, d.session.phase)) =
      .ok (2, 2, .start) := by
    decide +kernel
  cases hd : ((fresh {} : Draft ℚ).feedAll
      ["2 x +".toList, "y = 3".toList, "y = 1 - x".toList]).value with
  | error e =>
    rw [hd] at hread
    exact nomatch hread
  | ok d =>
    obtain ⟨-, hformed, -, -, hwithin⟩ := wellFormed_of_feedAll hd
    rw [hd] at hread
    obtain ⟨hcount, hvariables, hphase⟩ := by simpa [Except.map] using hread
    refine ⟨d, rfl, hnames ▸ hformed, hcount, fun i j v hv => ?_⟩
    obtain ⟨hi, hj, -⟩ := (hwithin (by rw [Session.finish, hphase]) 2 hcount hvariables).1 i j v hv
    exact ⟨hi, hj⟩

end Draft

end Simultaneous
