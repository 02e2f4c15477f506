import Mathlib
import Simultaneous.Proofs.Assembly
import Simultaneous.Proofs.DoubleOrder
import Simultaneous.Proofs.Overwriting

/-!
What a comparison shows.

Maps are compared from one side: they store equally many entries, and each entry of the first is
found in the second. No two entries share a key, so by counting the second stores no other keys,
and maps are equal if their finite maps are alike. What was done to get there does not show: not the
order in which entries came, nor what was stored over, taken out or cleared. Where a value is not
equal to itself, neither is a map that holds it.

Systems are equal if their matrices, right-hand sides, columns of names and counts are.
-/

namespace Simultaneous

open Equation (Entry Reading)
open Number (OfDecimal)
open Std (TreeMap TransOrd LawfulEqOrd)

variable {ι κ α : Type}

namespace Sparse

/-! ### From one side -/

section

variable [Ord κ] [BEq α]

/-- Whether a map has as many entries as a list, and each entry of the list is found in it. -/
def agrees (t : Sparse κ α) (es : List (κ × α)) : Bool :=
  es.length == t.size && es.all fun p => (t.get? p.1).any (p.2 == ·)

/-- Maps that no comparison tells apart. -/
def Interchangeable (s s' : Sparse κ α) : Prop :=
  ∀ u : Sparse κ α, (s == u) = (s' == u) ∧ (u == s) = (u == s')

variable [TransOrd κ] [LawfulEqOrd κ] {s t u : Sparse κ α}

lemma beq_iff : (s == t) = true ↔
    (s.fallback == t.fallback) = true ∧ s.content.support = t.content.support ∧
      ∀ k v w, s.get? k = some v → t.get? k = some w → (v == w) = true := by
  rw [beq_iff_alike, FiniteMap.alike_iff]
  exact Iff.rfl

/-- As many entries, and each of them found on the other side: then no key is missing. -/
lemma agrees_iff {es : List (κ × α)} (hes : es.Perm s.toList) :
    t.agrees es = true ↔ s.content.support = t.content.support ∧
      ∀ k v w, s.get? k = some v → t.get? k = some w → (v == w) = true := by
  have hlength : es.length = s.content.support.ncard := by
    rw [hes.length_eq, toList, TreeMap.length_toList, ← size_eq_ncard, size]
  have hmem (k : κ) (v : α) : (k, v) ∈ es ↔ s.get? k = some v := by
    rw [hes.mem_iff]
    exact s.mem_toList_iff k v
  unfold agrees
  rw [Bool.and_eq_true, beq_iff_eq, hlength, size_eq_ncard, List.all_eq_true]
  constructor
  · rintro ⟨hcard, hfound⟩
    refine ⟨?_, fun k v w hv hw => ?_⟩
    · refine Set.eq_of_subset_of_ncard_le (fun k hk => ?_) hcard.ge t.content.finite
      obtain ⟨v, hv⟩ := Option.isSome_iff_exists.mp hk
      have hany := hfound (k, v) ((hmem k v).mpr hv)
      obtain ⟨w, hw, -⟩ := (Option.any_eq_true _ _).mp hany
      exact Option.isSome_of_eq_some hw
    · have hany := hfound (k, v) ((hmem k v).mpr hv)
      simpa [hw] using hany
  · rintro ⟨hkeys, hvalues⟩
    refine ⟨by rw [hkeys], fun p hp => ?_⟩
    obtain ⟨k, v⟩ := p
    have hv := (hmem k v).mp hp
    have hk : k ∈ t.content.support := by
      rw [← hkeys]
      exact Option.isSome_of_eq_some hv
    obtain ⟨w, hw⟩ := Option.isSome_iff_exists.mp hk
    have hw' : t.get? k = some w := hw
    simpa [hw'] using hvalues k v w hv hw

/-- The comparison from one side is the comparison of what is stored, however it is listed. -/
lemma beq_eq_agrees {es : List (κ × α)} (hes : es.Perm s.toList) :
    (s == t) = (t.agrees es && s.fallback == t.fallback) := by
  rw [Bool.eq_iff_iff, beq_iff, Bool.and_eq_true, agrees_iff hes]
  tauto

lemma interchangeable_of_content_eq {s s' : Sparse κ α} (h : s.content = s'.content) :
    s.Interchangeable s' := by
  refine fun u => ⟨?_, ?_⟩
  · rw [Bool.eq_iff_iff, beq_iff_alike, beq_iff_alike, h]
  · rw [Bool.eq_iff_iff, beq_iff_alike, beq_iff_alike, h]

lemma beq_self_iff : (s == s) = true ↔
    (s.fallback == s.fallback) = true ∧ ∀ k v, s.get? k = some v → (v == v) = true := by
  rw [beq_iff]
  refine and_congr_right fun _ => ⟨fun h k v hv => h.2 k v v hv hv, fun h => ⟨rfl, ?_⟩⟩
  intro k v w hv hw
  obtain rfl : v = w := Option.some.inj (hv.symm.trans hw)
  exact h k v hv

/-- Maps with different keys are not equal, whatever stands at a key that only one of them has. -/
lemma beq_eq_false_of_get? {k : κ} {v : α} (hs : s.get? k = none) (ht : t.get? k = some v) :
    (s == t) = false ∧ (t == s) = false := by
  have hne : s.content.support ≠ t.content.support := by
    intro heq
    have hk : k ∈ s.content.support := heq ▸ Option.isSome_of_eq_some ht
    have hsome : (s.get? k).isSome := hk
    rw [hs] at hsome
    exact nomatch hsome
  refine ⟨Bool.eq_false_iff.mpr fun h => ?_, Bool.eq_false_iff.mpr fun h => ?_⟩
  · exact hne (beq_iff.mp h).2.1
  · exact hne (beq_iff.mp h).2.1.symm

instance [PartialEquivBEq α] : PartialEquivBEq (Sparse κ α) where
  symm h := (beq_iff_alike _ _).mpr ((beq_iff_alike _ _).mp h).symm
  trans h h' :=
    (beq_iff_alike _ _).mpr (((beq_iff_alike _ _).mp h).trans ((beq_iff_alike _ _).mp h'))

end

/-! ### Comparisons after histories -/

/-- How comparisons of sparse maps come out, after any histories. -/
structure ComparesByContent (κ α : Type) [Ord κ] [TransOrd κ] [LawfulEqOrd κ] [DecidableEq κ]
    [Zero α] [Add α] [BEq α] : Prop where
  beq_iff : ∀ (history history' : History κ α) (name name' : String),
    let m := Registers.initial.after history name
    let m' := Registers.initial.after history' name'
    ((Store.empty.after history).get name == (Store.empty.after history').get name') = true ↔
      (m.fallback == m'.fallback) = true ∧ m.support = m'.support ∧
        ∀ k v w, m.value? k = some v → m'.value? k = some w → (v == w) = true
  one_sided : ∀ (s t : Sparse κ α) (es : List (κ × α)), es.Perm s.toList →
    (s == t) = (t.agrees es && s.fallback == t.fallback)
  same : ∀ history history' : History κ α, history.Same history' → ∀ name,
    ((Store.empty.after history).get name).Interchangeable
      ((Store.empty.after history').get name)
  /-- Symmetric and transitive, if the comparison of the values is. -/
  comm : ∀ [PartialEquivBEq α] (s t : Sparse κ α), (s == t) = (t == s)
  trans : ∀ [PartialEquivBEq α] (s t u : Sparse κ α), (s == t) = true → (t == u) = true →
    (s == u) = true
  copied : ∀ (store : Store κ α) (name source : String),
    let s := store.get source
    let copy := (store.run name (.copy source)).1.get name
    (copy == s) = (s == s) ∧ ((s == s) = true ↔
      (s.fallback == s.fallback) = true ∧ ∀ k v, s.get? k = some v → (v == v) = true)
  /-- Not even a stored value that the fallback equals makes up for an absent key. -/
  absent : ∀ (s t : Sparse κ α) (k : κ) (v : α), s.get? k = none → t.get? k = some v →
    (s == t) = false ∧ (t == s) = false

section

variable [Ord κ] [TransOrd κ] [LawfulEqOrd κ] [DecidableEq κ] [Zero α] [Add α] [BEq α]

lemma content_get_after (history : History κ α) (name : String) :
    ((Store.empty.after history).get name).content = Registers.initial.after history name := by
  rw [← Store.registers_empty, ← Store.registers_after]
  rfl

lemma comparesByContent : ComparesByContent κ α where
  beq_iff history history' name name' := by
    rw [beq_iff_alike, content_get_after, content_get_after]
    exact FiniteMap.alike_iff
  one_sided _ _ _ hes := beq_eq_agrees hes
  same history history' hsame name := by
    refine interchangeable_of_content_eq ?_
    rw [content_get_after, content_get_after, hsame.after_eq]
  comm _ _ := BEq.comm
  trans _ _ _ := PartialEquivBEq.trans
  copied store name source := by
    intro s copy
    have hcopy : copy = s := store.get_run_copy name source
    exact ⟨by rw [hcopy], beq_self_iff⟩
  absent _ _ _ _ hs ht := beq_eq_false_of_get? hs ht

/-- Whether something in a map is not a number, be it stored or the fallback. -/
def HasNaN (s : Sparse κ Float) : Prop :=
  s.fallback.isNaN = true ∨ ∃ k v, s.get? k = some v ∧ v.isNaN = true

omit [DecidableEq κ] in
lemma beq_self_iff_not_hasNaN (s : Sparse κ Float) : (s == s) = true ↔ ¬ s.HasNaN := by
  simp only [beq_self_iff, Number.beq_self_iff_not_isNaN, HasNaN, not_or, not_exists, not_and,
    Bool.not_eq_true]

end

end Sparse

/-! ### Systems -/

/-- A system with the map of its columns, which may be any map. -/
structure Tables (α : Type) where
  matrix : Sparse (ℕ × ℕ) α
  rhs : Sparse ℕ α
  columns : Directory
  equationCount : ℕ

instance [BEq α] : BEq (Tables α) where
  beq s t :=
    s.matrix == t.matrix && s.rhs == t.rhs && s.columns == t.columns
      && s.equationCount == t.equationCount

namespace LinearSystem

def tables (s : LinearSystem α) : Tables α :=
  ⟨s.matrix, s.rhs, .ofNames s.names, s.equationCount⟩

variable [Zero α]

/-- Systems by what is done to get there: names are declared, and all the rest may change freely. -/
inductive Built : LinearSystem α → Prop where
  | empty : Built .empty
  | declare {s : LinearSystem α} (name : String) (h : Built s) : Built (s.declare name)
  | change {s : LinearSystem α} (matrix : Sparse (ℕ × ℕ) α) (rhs : Sparse ℕ α) (count : ℕ)
    (h : Built s) : Built ⟨matrix, rhs, s.names, count⟩

namespace Built

variable {s t : LinearSystem α}

/-- The columns are what the map of the names lists. -/
lemma lists (h : s.Built) : (Directory.ofNames s.names).Lists s.names := by
  induction h with
  | empty => exact Directory.lists_empty
  | @declare s name _ ih =>
    unfold LinearSystem.declare
    split_ifs with hname
    · exact ih
    · have hnew : (Directory.ofNames s.names).get? name = none := by
        rw [ih.get?_eq, if_neg hname]
      have hset := ih.set hname
      rw [Directory.ofNames_concat, Directory.index, hnew]
      exact hset
  | change _ _ _ _ ih => exact ih

/-- Maps of columns are equal for the same names in the same order only. -/
lemma directory_beq (hs : s.Built) (ht : t.Built) :
    (Directory.ofNames s.names == Directory.ofNames t.names) = (s.names == t.names) := by
  have hnames : (s.names == t.names) = true ↔ s.names = t.names := beq_iff_eq
  rw [Bool.eq_iff_iff, hnames]
  refine ⟨fun h => List.ext_getElem? fun i => Option.ext fun name => ?_, fun h => ?_⟩
  · obtain ⟨-, hvalues⟩ := (Sparse.beq_iff_alike _ _).mp h
    have heq {x y : Option ℕ} (hxy : Option.Rel (fun v w => (v == w) = true) x y) : x = y := by
      cases hxy with
      | none => rfl
      | some hvw => rw [eq_of_beq hvw]
    rw [← hs.lists.get?_eq_some_iff, ← ht.lists.get?_eq_some_iff]
    exact Iff.of_eq (congrArg (· = some i) (heq (hvalues name)))
  · rw [h, Sparse.beq_self_iff]
    exact ⟨beq_self_eq_true _, fun _ _ _ => beq_self_eq_true _⟩

lemma beq_eq_tables [BEq α] (hs : s.Built) (ht : t.Built) : (s == t) = (s.tables == t.tables) := by
  have hsystem : (s == t) = (s.matrix == t.matrix && s.rhs == t.rhs && s.names == t.names
      && s.equationCount == t.equationCount) := rfl
  rw [hsystem, ← directory_beq hs ht]
  rfl

variable [One α] [Add α] [Neg α] [OfDecimal α]

lemma enter (h : s.Built) (row : ℕ) (e : Entry) : (s.enter row e).Built := by
  obtain ⟨negative, quantity⟩ := e
  cases quantity with
  | constant l => exact h.change _ _ _
  | multiple l name => exact (h.declare name).change _ _ _

lemma absorb (h : s.Built) (row : ℕ) (r : Reading) : (s.absorb row r).Built := by
  have hentered (es : List Entry) : (es.foldl (·.enter row ·) s).Built := by
    induction es generalizing s with
    | nil => exact h
    | cons e es ih => exact ih (h.enter row e)
  rw [absorb_eq]
  split_ifs
  · exact (hentered _).change _ _ _
  · exact hentered _

end Built

end LinearSystem

lemma Tables.beq_iff [BEq α] (s t : Tables α) :
    (s == t) = true ↔ s.matrix.content.Alike t.matrix.content ∧
      s.rhs.content.Alike t.rhs.content ∧ s.columns.content.Alike t.columns.content ∧
      s.equationCount = t.equationCount := by
  have htables : (s == t) = (s.matrix == t.matrix && s.rhs == t.rhs && s.columns == t.columns
      && s.equationCount == t.equationCount) := rfl
  rw [htables, Bool.and_eq_true, Bool.and_eq_true, Bool.and_eq_true, Sparse.beq_iff_alike,
    Sparse.beq_iff_alike, Sparse.beq_iff_alike, beq_iff_eq]
  tauto

/-! ### All containers -/

section

variable [Ord ι] [TransOrd ι] [LawfulEqOrd ι] [DecidableEq ι]
  [Ord κ] [TransOrd κ] [LawfulEqOrd κ] [DecidableEq κ]
  [Zero α] [One α] [Add α] [Neg α] [OfDecimal α] [BEq α]

/-- **Containers are compared by what they hold**: sparse maps and matrices by their fallbacks and
their entries, after any histories, and systems by their three containers and the count. With
doubles, whose comparison is symmetric and transitive, a container equals its copies unless
something in it is not a number. -/
theorem containers_compare_by_content :
    Sparse.ComparesByContent κ α ∧ Sparse.ComparesByContent (ι × κ) α ∧
      PartialEquivBEq Float ∧ ((0 : Float) == -0) = true ∧
      (∀ x : Float, (x == x) = true ↔ x.isNaN = false) ∧
      (∀ s : Sparse κ Float, (s == s) = true ↔ ¬ s.HasNaN) ∧
      (∀ s : Sparse (ι × κ) Float, (s == s) = true ↔ ¬ s.HasNaN) ∧
      (∀ s t : Tables α, (s == t) = true ↔
        s.matrix.content.Alike t.matrix.content ∧ s.rhs.content.Alike t.rhs.content ∧
          s.columns.content.Alike t.columns.content ∧ s.equationCount = t.equationCount) ∧
      (∀ s t : LinearSystem α, s.Built → t.Built → (s == t) = (s.tables == t.tables)) ∧
      ∀ (d : Draft α) (line : List Char), d.system.Built → (d.feed line).value.1.system.Built := by
  refine ⟨Sparse.comparesByContent, Sparse.comparesByContent, inferInstance, by decide +kernel,
    fun _ => Number.beq_self_iff_not_isNaN, Sparse.beq_self_iff_not_hasNaN,
    Sparse.beq_self_iff_not_hasNaN, Tables.beq_iff, fun _ _ hs ht => hs.beq_eq_tables ht, ?_⟩
  intro d line h
  exact h.absorb d.session.equations (d.session.read line)

/-- A cleared map and a fresh one, with 0 and -0 and in another order, are equal. What is not a
number is not equal to itself, and a stored fallback tells maps apart. -/
theorem containers_compare_by_content_floats :
    let history : Sparse.History ℕ Float :=
      [("a", .new 1), ("a", .set 0 0), ("a", .set 1 2), ("b", .new 1), ("b", .set 7 1),
        ("b", .clear), ("b", .set 1 2), ("b", .set 0 (-0)), ("c", .new (0 / 0)), ("d", .new 1),
        ("e", .copy "d"), ("e", .set 0 1)]
    let store := Sparse.Store.empty.after history
    Sparse.ComparesByContent ℕ Float ∧ (store.get "a" == store.get "b") = true ∧
      (store.get "c" == store.get "c") = false ∧ (store.get "d" == store.get "e") = false ∧
      (store.get "e").get 0 = (store.get "d").get 0 := by
  intro history store
  refine ⟨(containers_compare_by_content (ι := ℕ) (κ := ℕ) (α := Float)).1, ?_⟩
  decide +kernel

end

end Simultaneous


