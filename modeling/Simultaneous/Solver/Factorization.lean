import Simultaneous.Solver.Dense

/-!
Triangular factorization with scaled partial pivoting, and substitution.

After the row exchanges a matrix is `L * U` with `L` lower triangular and `U` upper triangular
with a unit diagonal. Both are stored in one matrix, `L` with its diagonal and `U` above it, and
step `r` of the elimination finishes column `r` of `L` and row `r` of `U`. A row offers its entry
in column `r` as the pivot in proportion to its scale, the greatest coefficient it had at first,
which moves with it. The first of the best offers is taken.
-/

namespace Simultaneous.Solver

/-! ### Why a square system has no trustworthy solution -/

inductive Conditioning where
  /-- No row offers a pivot above the tolerance in the column. -/
  | zeroPivot (column : Nat)
  /-- The first correction is too large for the factorization to be trusted. -/
  | inaccurateDecomposition
  | noConvergence (iterations : Nat)
  deriving DecidableEq, Repr

inductive Failure where
  /-- No coefficient of the row is above the tolerance. -/
  | singular (row : Nat)
  | illConditioned (cause : Conditioning)
  deriving DecidableEq, Repr

def Conditioning.message : Conditioning → String
  | zeroPivot column => s!"zero pivot in column {column}"
  | inaccurateDecomposition => "the first correction is too large relative to the solution"
  | noConvergence iterations => s!"no convergence after {iterations} refinement iterations"

def Failure.message : Failure → String
  | singular row => s!"The matrix is singular: row {row} has no non-zero coefficient"
  | illConditioned cause => s!"The matrix is ill conditioned: {cause.message}"

/-! ### Elimination -/

variable {α : Type} {n : Nat}

structure Factorization (α : Type) (n : Nat) where
  /-- `L` with its diagonal, and `U` above the diagonal. -/
  lu : Square α n
  /-- The row that was exchanged with row `r` in step `r`. -/
  pivots : Vector (Fin n) n

/-- A factorization under way. -/
structure Elimination (α : Type) (n : Nat) where
  lu : Square α n
  /-- The scale of the row that stands at each place. -/
  scale : Vector α n
  pivots : Vector (Fin n) n

/-- Entry `(i, j)` less the products of row `i` and column `j` before place `r`, in order. -/
def reduced [Sub α] [Mul α] (a : Square α n) (i j r : Fin n) : α :=
  let before (m : Fin r.val) : Fin n := m.castLE (Nat.le_of_lt r.isLt)
  lessProducts ((a.get i).get j)
    (fun m => (a.get i).get (before m)) (fun m => (a.get (before m)).get j)

/-- Column `r` of `L` in place of what was there, on the diagonal and below. -/
def reduceColumn [Sub α] [Mul α] (a : Square α n) (r : Fin n) : Square α n :=
  a.mapFinIdx fun i row hi =>
    if r.val ≤ i then row.set r (reduced a ⟨i, hi⟩ r r) r.isLt else row

/-- Row `r` of `U` in place of what was there, right of the diagonal. -/
def reduceRow [Sub α] [Mul α] [Div α] (a : Square α n) (r : Fin n) : Square α n :=
  let row := (a.get r).mapFinIdx fun j x hj =>
    if r.val < j then reduced a r ⟨j, hj⟩ r / (a.get r).get r else x
  a.set r row r.isLt

variable [Zero α] [Neg α] [LT α] [DecidableLT α]

/-- What row `i` offers as the pivot of column `r`. -/
def Elimination.offer [Div α] (w : Elimination α n) (r i : Fin n) : α :=
  magnitude ((w.lu.get i).get r / w.scale.get i)

/-- The first row from `r` on with the greatest offer, and the offer; row `r` and 0 if no offer
is above 0. -/
def Elimination.choose [Div α] (w : Elimination α n) (r : Fin n) : Fin n × α :=
  Fin.foldl n
    (fun best i => if r ≤ i ∧ best.2 < w.offer r i then (i, w.offer r i) else best) (r, 0)

def Elimination.exchange (w : Elimination α n) (r l : Fin n) : Elimination α n where
  lu := w.lu.swap r l r.isLt l.isLt
  scale := w.scale.swap r l r.isLt l.isLt
  pivots := w.pivots.set r l r.isLt

variable [Sub α] [Mul α] [Div α] [LE α] [DecidableLE α]

/-- Step `r`: a column of `L`, the exchange of two rows, and a row of `U`. -/
def Elimination.step (tolerance : α) (w : Elimination α n) (r : Fin n) :
    Except Failure (Elimination α n) :=
  let w := { w with lu := reduceColumn w.lu r }
  let (pivot, offer) := w.choose r
  if offer ≤ tolerance then .error (.illConditioned (.zeroPivot r))
  else
    let w := w.exchange r pivot
    .ok { w with lu := reduceRow w.lu r }

/-- The first `k` steps. -/
def Elimination.steps (tolerance : α) (w : Elimination α n) :
    (k : Nat) → k ≤ n → Except Failure (Elimination α n)
  | 0, _ => .ok w
  | k + 1, hk => do
    let w ← w.steps tolerance k (Nat.le_of_succ_le hk)
    w.step tolerance ⟨k, hk⟩

/-- The scale of each row, unless a row has no coefficient above the tolerance. -/
def scales (tolerance : α) (a : Square α n) : Except Failure (Vector α n) :=
  let scale := a.map greatest
  match (List.finRange n).find? fun i => scale.get i ≤ tolerance with
  | some row => .error (.singular row)
  | none => .ok scale

def Elimination.start (a : Square α n) (scale : Vector α n) : Elimination α n :=
  ⟨a, scale, Vector.ofFn id⟩

def factorize (tolerance : α) (a : Square α n) : Except Failure (Factorization α n) := do
  let scale ← scales tolerance a
  let w ← (Elimination.start a scale).steps tolerance n (Nat.le_refl n)
  return ⟨w.lu, w.pivots⟩

/-! ### Substitution -/

omit [Zero α] [Neg α] [LT α] [DecidableLT α] [LE α] [DecidableLE α]

namespace Factorization

/-- The first `k` entries of `y` with `L * y = P * b`; the other rows of `b` are as the exchanges
left them. -/
def forward (f : Factorization α n) (b : Vector α n) : (k : Nat) → k ≤ n → Vector α n
  | 0, _ => b
  | k + 1, hk =>
    let r : Fin n := ⟨k, hk⟩
    let p := f.pivots.get r
    let y := (f.forward b k (Nat.le_of_succ_le hk)).swap r p r.isLt p.isLt
    let before (j : Fin k) : Fin n := j.castLE (Nat.le_of_lt hk)
    let t := lessProducts (y.get r)
      (fun j => (f.lu.get r).get (before j)) (fun j => y.get (before j))
    y.set r (t / (f.lu.get r).get r) r.isLt

/-- The last `k` entries of `z` with `U * z = y`; the others are those of `y`. -/
def backward (f : Factorization α n) (y : Vector α n) : (k : Nat) → k ≤ n → Vector α n
  | 0, _ => y
  | k + 1, hk =>
    let z := f.backward y k (Nat.le_of_succ_le hk)
    let r : Fin n := ⟨n - (k + 1), by omega⟩
    let behind (j : Fin k) : Fin n := ⟨n - k + j, by omega⟩
    let t := lessProducts (z.get r)
      (fun j => (f.lu.get r).get (behind j)) (fun j => z.get (behind j))
    z.set r t r.isLt

/-- The solution of `A * z = b` for the matrix `A` that was factorized. -/
def solve (f : Factorization α n) (b : Vector α n) : Vector α n :=
  f.backward (f.forward b n (Nat.le_refl n)) n (Nat.le_refl n)

end Factorization

end Simultaneous.Solver
