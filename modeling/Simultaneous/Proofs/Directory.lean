import Mathlib
import Simultaneous.Proofs.Entering

/-!
The columns of the names as a map.

A map from names to indices gives a new name the number of names that it holds. So its indices are
the places of the names in the order in which they came, and the names by increasing index are that
order again.
-/

namespace Simultaneous

/-- Indices by name. -/
abbrev Directory := Sparse String ℕ

namespace Directory

/-- The map in which a name has an index, and that index: the next one if the name is new. -/
def index (d : Directory) (name : String) : Directory × ℕ :=
  match d.get? name with
  | some i => (d, i)
  | none => (d.set name d.size, d.size)

/-- The names by increasing index. -/
def names (d : Directory) : List String :=
  (d.toList.mergeSort fun p q => p.2 ≤ q.2).map Prod.fst

/-- The map that takes up names in turn. -/
def ofNames (names : List String) : Directory :=
  names.foldl (fun d name => (d.index name).1) (.empty 0)

lemma ofNames_concat (names : List String) (name : String) :
    ofNames (names ++ [name]) = ((ofNames names).index name).1 :=
  List.foldl_concat _ _ _ _

/-- The indices are the places in a list. -/
structure Lists (d : Directory) (names : List String) : Prop where
  nodup : names.Nodup
  get?_eq : ∀ name, d.get? name = if name ∈ names then some (names.idxOf name) else none

variable {d : Directory} {names : List String}

lemma lists_empty : Lists (.empty 0) [] :=
  ⟨List.nodup_nil, fun name => Sparse.get?_empty 0 name⟩

namespace Lists

lemma get?_eq_some_iff (h : d.Lists names) {name : String} {i : ℕ} :
    d.get? name = some i ↔ names[i]? = some name := by
  rw [h.get?_eq]
  refine ⟨fun hi => ?_, fun hi => ?_⟩
  · split_ifs at hi with hname
    exact Option.some.inj hi ▸ List.getElem?_idxOf hname
  · obtain ⟨hlt, rfl⟩ := List.getElem?_eq_some_iff.mp hi
    rw [if_pos (List.getElem_mem hlt), h.nodup.idxOf_getElem i hlt]

/-- The map stores the names with their places. -/
lemma toList_perm (h : d.Lists names) : d.toList.Perm names.zipIdx := by
  have hstored : d.toList.Nodup := by
    refine Std.TreeMap.distinct_keys_toList.imp fun {p q} hne heq => hne ?_
    rw [heq]
    exact Std.ReflCmp.compare_self
  have hplaces : names.zipIdx.Nodup :=
    List.Nodup.of_map Prod.snd (by rw [List.zipIdx_map_snd]; exact List.nodup_range')
  refine (List.perm_ext_iff_of_nodup hstored hplaces).mpr fun p => ?_
  rw [List.mem_zipIdx_iff_getElem?, ← h.get?_eq_some_iff]
  exact Std.TreeMap.mem_toList_iff_getElem?_eq_some

lemma size_eq (h : d.Lists names) : d.size = names.length := by
  have hlength := h.toList_perm.length_eq
  rwa [List.length_zipIdx, Sparse.toList, Std.TreeMap.length_toList] at hlength

lemma names_eq (h : d.Lists names) : d.names = names := by
  have hsorted : (d.toList.mergeSort fun p q => p.2 ≤ q.2).Pairwise (·.2 ≤ ·.2) := by
    simpa using @List.pairwise_mergeSort _ (fun p q : String × ℕ => p.2 ≤ q.2)
      (by simpa using fun _ _ _ => le_trans) (by simp [Nat.le_total]) d.toList
  have hplaces : names.zipIdx.Pairwise (·.2 ≤ ·.2) := by
    rw [← List.pairwise_map, List.zipIdx_map_snd]
    exact List.pairwise_le_range'
  have hperm := (List.mergeSort_perm d.toList fun p q => p.2 ≤ q.2).trans h.toList_perm
  have heq : (d.toList.mergeSort fun p q => p.2 ≤ q.2) = names.zipIdx := by
    refine hperm.eq_of_pairwise (fun p q hp hq hpq hqp => ?_) hsorted hplaces
    -- no two names share an index
    have hp' := List.mem_zipIdx_iff_getElem?.mp (hperm.mem_iff.mp hp)
    have hq' := List.mem_zipIdx_iff_getElem?.mp hq
    have hindex : p.2 = q.2 := le_antisymm hpq hqp
    rw [hindex] at hp'
    exact Prod.ext (Option.some.inj (hp'.symm.trans hq')) hindex
  rw [Directory.names, heq, List.zipIdx_map_fst]

/-- A name that is new goes to the end of the list. -/
lemma set (h : d.Lists names) {name : String} (hname : name ∉ names) :
    Lists (Sparse.set d name d.size) (names ++ [name]) := by
  refine ⟨?_, fun other => ?_⟩
  · rw [← List.concat_eq_append]
    exact h.nodup.concat hname
  · rw [Sparse.get?_set, h.size_eq, h.get?_eq]
    by_cases heq : name = other
    · subst heq
      rw [if_pos rfl, if_pos (by simp), List.idxOf_append_of_notMem hname]
      simp
    · by_cases hother : other ∈ names
      · rw [if_neg heq, if_pos hother, if_pos (List.mem_append_left _ hother),
          List.idxOf_append_of_mem hother]
      · rw [if_neg heq, if_neg hother, if_neg (by simp [hother, Ne.symm heq])]

end Lists

/-- The indices are the places of the names in the order in which they came. -/
lemma lists_ofNames (seen : List String) : (ofNames seen).Lists seen.eraseDups := by
  induction seen using List.reverseRecOn with
  | nil => exact lists_empty
  | append_singleton seen name ih =>
    rw [ofNames_concat, index, ih.get?_eq, LinearSystem.eraseDups_concat]
    simp only [List.mem_eraseDups]
    split_ifs with hold
    · exact ih
    · exact ih.set (mt List.mem_eraseDups.mp hold)

end Directory

end Simultaneous
