import Simultaneous.Sparse.Basic

/-!
A store of named sparse maps, and the instructions that work on one of them at a time.

A copy takes the entries and the fallback that its source has at that moment; what is done to
either map later does not show in the other.
-/

namespace Simultaneous

variable {κ α : Type} [Ord κ]

namespace Sparse

inductive Instruction (κ α : Type) where
  /-- Starts afresh with a fallback. -/
  | new (fallback : α)
  | set (key : κ) (value : α)
  | add (key : κ) (value : α)
  | erase (key : κ)
  | clear
  /-- Becomes a copy of the map of another name. -/
  | copy (source : String)
  | get (key : κ)
  | get? (key : κ)
  | contains (key : κ)
  | isEmpty
  /-- Compares with the map of another name. -/
  | equals (other : String)
  | keys
  | entries
  deriving Repr

inductive Answer (κ α : Type) where
  | done
  | value (v : α)
  | stored (v : Option α)
  | truth (b : Bool)
  | keys (ks : List κ)
  | entries (es : List (κ × α))
  deriving Repr

/-- Sparse maps by name. A name that was never used stands for the empty map with fallback 0. -/
structure Store (κ : Type) [Ord κ] (α : Type) where
  maps : Std.TreeMap String (Sparse κ α)

def Store.empty : Store κ α := ⟨∅⟩

def Store.get [Zero α] (s : Store κ α) (name : String) : Sparse κ α :=
  s.maps.getD name (.empty 0)

def Store.put (s : Store κ α) (name : String) (m : Sparse κ α) : Store κ α :=
  ⟨s.maps.insert name m⟩

/-- Carries out an instruction on the map of the given name. -/
def Store.run [Zero α] [Add α] [BEq α] (s : Store κ α) (name : String) :
    Instruction κ α → Store κ α × Answer κ α
  | .new v => (s.put name (.empty v), .done)
  | .set k v => (s.put name ((s.get name).set k v), .done)
  | .add k v => (s.put name ((s.get name).add k v), .done)
  | .erase k => (s.put name ((s.get name).erase k), .truth ((s.get name).contains k))
  | .clear => (s.put name (s.get name).clear, .done)
  | .copy source => (s.put name (s.get source), .done)
  | .get k => (s, .value ((s.get name).get k))
  | .get? k => (s, .stored ((s.get name).get? k))
  | .contains k => (s, .truth ((s.get name).contains k))
  | .isEmpty => (s, .truth (s.get name).isEmpty)
  | .equals other => (s, .truth (s.get name == s.get other))
  | .keys => (s, .keys (s.get name).keys)
  | .entries => (s, .entries (s.get name).toList)

end Sparse

end Simultaneous
