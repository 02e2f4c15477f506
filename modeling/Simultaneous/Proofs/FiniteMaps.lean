import Mathlib
import Simultaneous.Sparse.Basic

/-!
Sparse maps as finite maps.

A finite map gives values to finitely many keys, and every other key reads as its fallback. A
sparse map shows nothing but the finite map that it stores: what is asked of it is answered by
that, and what is done to it is done to that, however the entries are held.
-/

namespace Simultaneous

open Std (TreeMap TransOrd LawfulEqOrd)

/-- Values at finitely many keys, and a fallback for the others. -/
@[ext] structure FiniteMap (κ α : Type) where
  value? : κ → Option α
  fallback : α
  finite : {k | (value? k).isSome}.Finite

namespace FiniteMap

variable {κ α : Type}

/-- The keys that have a value. -/
def support (m : FiniteMap κ α) : Set κ := {k | (m.value? k).isSome}

def read (m : FiniteMap κ α) (k : κ) : α := (m.value? k).getD m.fallback

def empty (fallback : α) : FiniteMap κ α := ⟨fun _ => none, fallback, by simp⟩

/-- The map with another entry at a key, or with none there. -/
def assign [DecidableEq κ] (m : FiniteMap κ α) (k : κ) (v : Option α) : FiniteMap κ α where
  value? := Function.update m.value? k v
  fallback := m.fallback
  finite := by
    refine (m.finite.insert k).subset fun a (ha : (Function.update m.value? k v a).isSome) => ?_
    by_cases hak : a = k
    · exact Set.mem_insert_iff.mpr (.inl hak)
    · rw [Function.update_of_ne hak] at ha
      exact Set.mem_insert_of_mem k ha

/-- Equal fallbacks, the same keys, and equal values at each, by the values' own comparison. -/
def Alike [BEq α] (m m' : FiniteMap κ α) : Prop :=
  (m.fallback == m'.fallback) = true ∧
    ∀ k, Option.Rel (fun v w => (v == w) = true) (m.value? k) (m'.value? k)

/-- Values are related if the first has a partner and the second is not alone. -/
lemma rel_iff {β : Type} (r : α → β → Prop) (x : Option α) (y : Option β) :
    Option.Rel r x y ↔
      (∀ v, x = some v → ∃ w, y = some w ∧ r v w) ∧ (∀ w, y = some w → x.isSome) := by
  cases x <;> cases y <;> simp

section Alike

variable [BEq α] {m m' m'' : FiniteMap κ α}

lemma alike_iff : m.Alike m' ↔
    (m.fallback == m'.fallback) = true ∧ m.support = m'.support ∧
      ∀ k v w, m.value? k = some v → m'.value? k = some w → (v == w) = true := by
  unfold Alike
  refine and_congr_right fun _ => ⟨fun h => ⟨?_, fun k v w hv hw => ?_⟩, fun h k => ?_⟩
  · ext k
    have hk := h k
    unfold support
    cases hv : m.value? k <;> cases hw : m'.value? k <;> simp_all
  · have hk := h k
    rw [hv, hw] at hk
    cases hk with
    | some hvw => exact hvw
  · obtain ⟨hsupport, hvalues⟩ := h
    have hk : k ∈ m.support ↔ k ∈ m'.support := by rw [hsupport]
    unfold support at hk
    cases hv : m.value? k with
    | none => cases hw : m'.value? k <;> simp_all
    | some v =>
      cases hw : m'.value? k with
      | none => simp_all
      | some w => exact .some (hvalues k v w hv hw)

variable [PartialEquivBEq α]

lemma Alike.symm (h : m.Alike m') : m'.Alike m := by
  obtain ⟨hfallback, hsupport, hvalues⟩ := alike_iff.mp h
  refine alike_iff.mpr ⟨BEq.symm hfallback, hsupport.symm, fun k v w hv hw => ?_⟩
  exact BEq.symm (hvalues k w v hw hv)

lemma Alike.trans (h : m.Alike m') (h' : m'.Alike m'') : m.Alike m'' := by
  obtain ⟨hfallback, hsupport, hvalues⟩ := alike_iff.mp h
  obtain ⟨hfallback', hsupport', hvalues'⟩ := alike_iff.mp h'
  refine alike_iff.mpr
    ⟨PartialEquivBEq.trans hfallback hfallback', hsupport.trans hsupport', fun k v w hv hw => ?_⟩
  have hk : k ∈ m'.support := by
    rw [← hsupport]
    exact Option.isSome_of_eq_some hv
  obtain ⟨u, hu⟩ := Option.isSome_iff_exists.mp hk
  exact PartialEquivBEq.trans (hvalues k v u hv hu) (hvalues' k u w hu hw)

end Alike

end FiniteMap

namespace Sparse

variable {κ α : Type} [Ord κ] (s t : Sparse κ α) (k : κ)

/-! ### What is asked -/

lemma isEmpty_iff : s.isEmpty = true ↔ s.size = 0 := by
  rw [isEmpty, TreeMap.isEmpty_eq_size_eq_zero, beq_iff_eq, size]

lemma map_fst_toList : s.toList.map Prod.fst = s.keys := TreeMap.map_fst_toList_eq_keys

variable [TransOrd κ]

lemma nodup_keys : s.keys.Nodup := TreeMap.nodup_keys

variable [LawfulEqOrd κ]

lemma mem_keys_iff : k ∈ s.keys ↔ (s.get? k).isSome := by
  rw [keys, TreeMap.mem_keys, TreeMap.mem_iff_isSome_getElem?]
  rfl

/-- The finite map that is stored. -/
def content : FiniteMap κ α where
  value? := s.get?
  fallback := s.fallback
  finite := s.keys.finite_toSet.subset fun k hk => (s.mem_keys_iff k).mpr hk

lemma mem_keys_iff_mem_support : k ∈ s.keys ↔ k ∈ s.content.support := s.mem_keys_iff k

lemma contains_iff : s.contains k = true ↔ k ∈ s.content.support := by
  rw [contains_eq_isSome_get?]
  exact Iff.rfl

lemma mem_toList_iff (v : α) : (k, v) ∈ s.toList ↔ s.content.value? k = some v :=
  TreeMap.mem_toList_iff_getElem?_eq_some

/-- The size counts the keys that have a value. -/
lemma size_eq_ncard : s.size = s.content.support.ncard := by
  classical
  have hset : s.content.support = (s.keys.toFinset : Set κ) := by
    ext k
    rw [List.coe_toFinset, ← mem_keys_iff_mem_support]
    exact Iff.rfl
  rw [hset, Set.ncard_coe_finset, List.toFinset_card_of_nodup s.nodup_keys]
  exact TreeMap.length_keys.symm

/-- The comparison looks at the stored entries alone. -/
lemma beq_iff_alike [BEq α] : (s == t) = true ↔ s.content.Alike t.content := by
  have hunfold : (s == t) = (s.fallback == t.fallback
      && s.toList.all (fun p => (t.get? p.1).any (p.2 == ·))
      && t.toList.all (fun p => s.contains p.1)) := rfl
  rw [hunfold, Bool.and_eq_true, Bool.and_eq_true, and_assoc, List.all_eq_true, List.all_eq_true]
  refine and_congr_right fun _ => ?_
  -- each entry on the left has a partner, and no key is stored on the right alone
  simp only [FiniteMap.rel_iff, forall_and, Prod.forall, mem_toList_iff, Option.any_eq_true,
    contains_eq_isSome_get?]
  exact Iff.rfl

/-! ### What is done -/

lemma content_empty (v : α) : (empty v : Sparse κ α).content = .empty v :=
  FiniteMap.ext (funext (get?_empty v)) rfl

lemma content_clear : s.clear.content = .empty s.fallback := content_empty s.fallback

variable [DecidableEq κ] (v : α)

lemma content_set : (s.set k v).content = s.content.assign k (some v) := by
  refine FiniteMap.ext (funext fun a => ?_) rfl
  change (s.set k v).get? a = Function.update s.get? k (some v) a
  simp only [get?_set, Function.update_apply, eq_comm]

lemma content_erase : (s.erase k).content = s.content.assign k none := by
  refine FiniteMap.ext (funext fun a => ?_) rfl
  change (s.erase k).get? a = Function.update s.get? k none a
  simp only [get?_erase, Function.update_apply, eq_comm]

lemma content_add [Add α] :
    (s.add k v).content = s.content.assign k (some (s.content.read k + v)) :=
  content_set s k _

/-- An entry may be taken out before another one is stored in its place. -/
lemma content_set_erase : ((s.erase k).set k v).content = (s.set k v).content := by
  rw [content_set, content_erase, content_set]
  exact FiniteMap.ext (Function.update_idem _ _ _) rfl

end Sparse

end Simultaneous
