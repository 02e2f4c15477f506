import Std.Data.TreeMap.Lemmas

/-!
Sparse maps: finitely many keys hold a value of their own, and every other key reads as the
fallback.

A stored value that equals the fallback stays stored. Two sparse maps are compared by what they
store, so such a value tells them apart. Sparse matrices are sparse maps whose keys are pairs of
a row and a column.
-/

namespace Simultaneous

open Std

/-- Pairs are ordered by their first components, equal ones by their second. -/
instance pairOrd {ι κ : Type} [Ord ι] [Ord κ] : Ord (ι × κ) := lexOrd

structure Sparse (κ : Type) [Ord κ] (α : Type) where
  entries : TreeMap κ α
  fallback : α

namespace Sparse

variable {κ α : Type} [Ord κ]

/-- The map that stores nothing. -/
def empty (fallback : α) : Sparse κ α := ⟨∅, fallback⟩

/-- What is stored at a key. -/
def get? (s : Sparse κ α) (k : κ) : Option α := s.entries[k]?

/-- What a key reads as. -/
def get (s : Sparse κ α) (k : κ) : α := (s.get? k).getD s.fallback

def contains (s : Sparse κ α) (k : κ) : Bool := s.entries.contains k

def set (s : Sparse κ α) (k : κ) (v : α) : Sparse κ α :=
  { s with entries := s.entries.insert k v }

/-- Adds to what the key reads as, and stores the sum. -/
def add [Add α] (s : Sparse κ α) (k : κ) (v : α) : Sparse κ α := s.set k (s.get k + v)

def erase (s : Sparse κ α) (k : κ) : Sparse κ α := { s with entries := s.entries.erase k }

/-- Nothing stored, the fallback kept. -/
def clear (s : Sparse κ α) : Sparse κ α := empty s.fallback

def size (s : Sparse κ α) : Nat := s.entries.size

def isEmpty (s : Sparse κ α) : Bool := s.entries.isEmpty

/-- The stored entries by increasing key. -/
def toList (s : Sparse κ α) : List (κ × α) := s.entries.toList

/-- The stored keys, increasing. -/
def keys (s : Sparse κ α) : List κ := s.entries.keys

/-- Equal fallbacks, the same keys stored, and equal values at each of them. -/
instance [BEq α] : BEq (Sparse κ α) where
  beq s t :=
    s.fallback == t.fallback
      && s.toList.all (fun (k, v) => (t.get? k).any (v == ·))
      && t.toList.all (fun (k, _) => s.contains k)

variable [TransOrd κ]

@[simp] theorem get?_empty (v : α) (k : κ) : (empty v : Sparse κ α).get? k = none := by
  simp [get?, empty]

theorem contains_eq_isSome_get? (s : Sparse κ α) (k : κ) :
    s.contains k = (s.get? k).isSome := by
  simp [contains, get?]

variable [LawfulEqOrd κ] [DecidableEq κ]

theorem get?_set (s : Sparse κ α) (k a : κ) (v : α) :
    (s.set k v).get? a = if k = a then some v else s.get? a := by
  simp [get?, set, TreeMap.getElem?_insert]

theorem get?_add [Add α] (s : Sparse κ α) (k a : κ) (v : α) :
    (s.add k v).get? a = if k = a then some (s.get k + v) else s.get? a :=
  get?_set s k a _

theorem get?_erase (s : Sparse κ α) (k a : κ) :
    (s.erase k).get? a = if k = a then none else s.get? a := by
  simp [get?, erase, TreeMap.getElem?_erase]

end Sparse

end Simultaneous
