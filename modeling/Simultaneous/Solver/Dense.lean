import Simultaneous.Sparse.Basic

/-!
Dense vectors and square matrices, and how large they are.
-/

namespace Simultaneous.Solver

variable {α : Type} {n : Nat}

/-- A square matrix as the vector of its rows. -/
abbrev Square (α : Type) (n : Nat) := Vector (Vector α n) n

/-- The leading block of a sparse matrix. -/
def block (n : Nat) (a : Sparse (Nat × Nat) α) : Square α n :=
  Vector.ofFn fun i => Vector.ofFn fun j => a.get (i.val, j.val)

/-- The first entries of a sparse vector. -/
def segment (n : Nat) (b : Sparse Nat α) : Vector α n :=
  Vector.ofFn fun i => b.get i.val

/-- The sparse vector that stores every entry and reads as 0 past the end. -/
def toSparse [Zero α] (x : Vector α n) : Sparse Nat α :=
  (List.finRange n).foldl (fun s i => s.set i.val (x.get i)) (.empty 0)

def magnitude [Zero α] [Neg α] [LT α] [DecidableLT α] (x : α) : α :=
  if x < 0 then -x else x

/-- The greatest magnitude in a vector, 0 if there is none above it. -/
def greatest [Zero α] [Neg α] [LT α] [DecidableLT α] (v : Vector α n) : α :=
  v.foldl (fun m x => if m < magnitude x then magnitude x else m) 0

/-- `t - f 0 * g 0 - f 1 * g 1 - ...`, from left to right. -/
@[inline] def lessProducts [Sub α] [Mul α] {k : Nat} (t : α) (f g : Fin k → α) : α :=
  Fin.foldl k (fun t m => t - f m * g m) t

theorem get_eq_getElem (v : Vector α n) (i : Fin n) : v.get i = v[i.val] := rfl

@[simp] theorem get_ofFn (f : Fin n → α) (i : Fin n) : (Vector.ofFn f).get i = f i := by
  rw [get_eq_getElem, Vector.getElem_ofFn]

@[simp] theorem get_block (a : Sparse (Nat × Nat) α) (i j : Fin n) :
    ((block n a).get i).get j = a.get (i.val, j.val) := by
  simp [block]

@[simp] theorem get_segment (b : Sparse Nat α) (i : Fin n) :
    (segment n b).get i = b.get i.val := by
  simp [segment]

end Simultaneous.Solver
