import Mathlib
import Simultaneous.Proofs.Dense
import Simultaneous.Proofs.Divisors

/-!
Guards.

Vectors know how long they are, and the places that are looked up in them are known to exist. Bare
arrays and bare numbers know neither. Here every access to them is checked, and so is everything
that is divided by, and a check that fails ends the work. Squares and vectors that are kept in bare
arrays pass the checks, and loops over places are followed state by state.
-/

namespace Simultaneous.Solver

/-! ### Checks -/

/-- What must not happen. -/
inductive Slip where
  /-- A place is outside its array. -/
  | place
  /-- Arrays differ in length that must not. -/
  | length
  /-- A scale that is divided by is not above 0. -/
  | scale
  /-- A pivot that is divided by is 0 or not a number. -/
  | pivot
  deriving DecidableEq, Repr

/-- Why work under guard ends early. -/
inductive Stop (ε : Type) where
  | slip (s : Slip)
  | failure (f : ε)

/-- Work under guard, which may fail for reasons of its own. -/
abbrev Guarded (ε β : Type) := Except (Stop ε) β

variable {α β ε σ : Type} {n : ℕ}

@[simp] lemma ok_bind {γ : Type} (x : β) (f : β → Guarded ε γ) : (Except.ok x >>= f) = f x := rfl

def readAt (v : Array β) (i : ℕ) : Guarded ε β :=
  match v[i]? with
  | some x => .ok x
  | none => .error (.slip .place)

def writeAt (v : Array β) (i : ℕ) (x : β) : Guarded ε (Array β) :=
  if h : i < v.size then .ok (v.set i x h) else .error (.slip .place)

def readEntry (a : Array (Array α)) (i j : ℕ) : Guarded ε α := do
  let row ← readAt a i
  readAt row j

def writeEntry (a : Array (Array α)) (i j : ℕ) (x : α) : Guarded ε (Array (Array α)) := do
  let row ← readAt a i
  let row ← writeAt row j x
  writeAt a i row

/-- Exchanges two rows, if they are two. -/
def exchangeRows (a : Array (Array α)) (r l : ℕ) : Guarded ε (Array (Array α)) :=
  if l = r then .ok a
  else do
    let x ← readAt a r
    let y ← readAt a l
    let a ← writeAt a r y
    writeAt a l x

section Division

variable [Zero α] [Div α] [LT α] [DecidableLT α] {x d : α}

def overScale (x d : α) : Guarded ε α :=
  if 0 < d then .ok (x / d) else .error (.slip .scale)

def overPivot (x d : α) : Guarded ε α :=
  if Sided d then .ok (x / d) else .error (.slip .pivot)

lemma overScale_of_pos (h : 0 < d) : (overScale x d : Guarded ε α) = .ok (x / d) := if_pos h

lemma overPivot_of_sided (h : Sided d) : (overPivot x d : Guarded ε α) = .ok (x / d) := if_pos h

end Division

/-! ### Loops -/

/-- A loop over as many places from `start` on. -/
def each (start count : ℕ) (s : σ) (body : σ → ℕ → Guarded ε σ) : Guarded ε σ :=
  (List.range' start count).foldlM body s

section Loops

variable {start : ℕ} {body : σ → ℕ → Guarded ε σ}

lemma each_succ (count : ℕ) (s : σ) :
    each start (count + 1) s body =
      each start count s body >>= fun t => body t (start + count) := by
  rw [each, each, List.range'_1_concat, List.foldlM_append]
  simp only [List.foldlM_cons, List.foldlM_nil, bind_pure]

/-- A loop that goes through states one after the other. -/
lemma each_of_states (state : ℕ → σ) {count : ℕ}
    (h : ∀ k < count, body (state k) (start + k) = .ok (state (k + 1))) :
    each start count (state 0) body = .ok (state count) := by
  induction count with
  | zero => rfl
  | succ count ih =>
    rw [each_succ, ih fun k hk => h k (hk.trans count.lt_succ_self), ok_bind]
    exact h count count.lt_succ_self

/-- A loop that ends early. -/
lemma each_of_stop (state : ℕ → σ) {k count : ℕ} {stop : Stop ε}
    (h : ∀ j < k, body (state j) (start + j) = .ok (state (j + 1))) (hk : k < count)
    (hstop : body (state k) (start + k) = .error stop) :
    each start count (state 0) body = .error stop := by
  induction count with
  | zero => exact absurd hk (Nat.not_lt_zero k)
  | succ count ih =>
    rw [each_succ]
    rcases Nat.lt_succ_iff_lt_or_eq.mp hk with hlt | rfl
    · rw [ih hlt]
      rfl
    · rw [each_of_states state h, ok_bind]
      exact hstop

/-- A loop without effects. -/
lemma each_eq_foldl {count : ℕ} (step : σ → Fin count → σ)
    (h : ∀ s (k : Fin count), body s (start + k) = .ok (step s k)) (s : σ) :
    each start count s body = .ok (Fin.foldl count step s) := by
  induction count with
  | zero =>
    rw [Fin.foldl_zero]
    rfl
  | succ count ih =>
    rw [each_succ, ih (fun s k => step s k.castSucc) fun s k => h s k.castSucc, ok_bind,
      Fin.foldl_succ_last]
    exact h _ (Fin.last count)

end Loops

/-! ### Arrays of vectors -/

/-- A square as an array of arrays. -/
def rows (a : Square α n) : Array (Array α) := (a.map Vector.toArray).toArray

@[simp] lemma size_rows (a : Square α n) : (rows a).size = n := by simp [rows]

@[simp] lemma readAt_toArray (v : Vector β n) (i : Fin n) :
    (readAt v.toArray i : Guarded ε β) = .ok (v.get i) := by
  simp [readAt, get_eq_getElem]

@[simp] lemma writeAt_toArray (v : Vector β n) (i : Fin n) (x : β) :
    (writeAt v.toArray i x : Guarded ε (Array β)) = .ok (v.set i x i.isLt).toArray := by
  simp [writeAt]

variable (a : Square α n) (i j r : Fin n)

@[simp] lemma readAt_rows : (readAt (rows a) i : Guarded ε _) = .ok (a.get i).toArray := by
  rw [rows, readAt_toArray, get_map]

@[simp] lemma writeAt_rows (row : Vector α n) :
    (writeAt (rows a) i row.toArray : Guarded ε _) = .ok (rows (a.set i row i.isLt)) := by
  rw [rows, writeAt_toArray, rows, Vector.map_set]

@[simp] lemma readEntry_rows : (readEntry (rows a) i j : Guarded ε α) = .ok (toMatrix a i j) := by
  rw [readEntry, readAt_rows, ok_bind, readAt_toArray]
  rfl

@[simp] lemma writeEntry_rows (x : α) : (writeEntry (rows a) i j x : Guarded ε _) =
    .ok (rows (a.set i ((a.get i).set j x j.isLt) i.isLt)) := by
  simp only [writeEntry, readAt_rows, ok_bind, writeAt_toArray, writeAt_rows]

@[simp] lemma exchangeRows_rows :
    (exchangeRows (rows a) i j : Guarded ε _) = .ok (rows (a.swap i j i.isLt j.isLt)) := by
  rw [exchangeRows]
  split_ifs with hji
  · obtain rfl := Fin.ext hji
    refine congrArg (Except.ok ∘ rows) (vector_ext fun i => ?_)
    rw [get_swap, Equiv.swap_self, Equiv.refl_apply]
  · simp only [readAt_rows, ok_bind, writeAt_rows]
    rfl

/-! ### Arrays that are written to -/

/-- The first `k` entries of one vector, and the others of another. -/
def overwritten (v v' : Vector β n) (k : ℕ) : Vector β n :=
  Vector.ofFn fun i => if i.val < k then v'.get i else v.get i

lemma get_overwritten (v v' : Vector β n) (k : ℕ) :
    (overwritten v v' k).get i = if i.val < k then v'.get i else v.get i :=
  get_ofFn _ i

lemma overwritten_zero (v v' : Vector β n) : overwritten v v' 0 = v :=
  vector_ext fun i => (get_overwritten i v v' 0).trans (if_neg (Nat.not_lt_zero _))

lemma overwritten_all (v v' : Vector β n) : overwritten v v' n = v' :=
  vector_ext fun i => (get_overwritten i v v' n).trans (if_pos i.isLt)

/-- One more entry is overwritten by writing to it. -/
lemma overwritten_set (v : Vector β n) {u v' : Vector β n} (h : ∀ m, m < i → v'.get m = u.get m) :
    (overwritten v u i).set i (v'.get i) i.isLt = overwritten v v' (i + 1) := by
  refine vector_ext fun m => ?_
  rw [get_set, get_overwritten, get_overwritten]
  rcases lt_trichotomy m i with hlt | rfl | hgt
  · rw [if_neg hlt.ne, if_pos (Fin.lt_def.mp hlt), if_pos (Nat.lt_succ_of_lt (Fin.lt_def.mp hlt)),
      h m hlt]
  · rw [if_pos rfl, if_pos (Nat.lt_succ_self _)]
  · have hnot := Nat.not_lt_of_ge (Nat.succ_le_of_lt (Fin.lt_def.mp hgt))
    rw [if_neg hgt.ne', if_neg (Fin.lt_def.mp hgt).le.not_gt, if_neg hnot]

/-- A loop that writes the entries one after the other. -/
lemma each_of_writes (v v' : Vector β n) {body : Array β → ℕ → Guarded ε (Array β)}
    (h : ∀ i : Fin n, body (overwritten v v' i).toArray i =
      .ok ((overwritten v v' i).set i (v'.get i) i.isLt).toArray) :
    each 0 n v.toArray body = .ok v'.toArray := by
  have hstates : each 0 n (overwritten v v' 0).toArray body = .ok (overwritten v v' n).toArray :=
    each_of_states (fun k => (overwritten v v' k).toArray) fun k hk => by
      rw [Nat.zero_add, h ⟨k, hk⟩, overwritten_set _ _ fun m _ => rfl]
  rwa [overwritten_zero, overwritten_all] at hstates

/-- A square with other entries at the places of `S`. -/
def patch (a : Square α n) (S : Fin n → Fin n → Prop) [DecidableRel S] (x : Fin n → Fin n → α) :
    Square α n :=
  Vector.ofFn fun i => Vector.ofFn fun j => if S i j then x i j else toMatrix a i j

lemma square_ext {a a' : Square α n} (h : ∀ i j, toMatrix a i j = toMatrix a' i j) : a = a' :=
  vector_ext fun i => vector_ext fun j => h i j

section Patches

variable {S : Fin n → Fin n → Prop} [DecidableRel S] {x : Fin n → Fin n → α}

lemma toMatrix_patch : toMatrix (patch a S x) i j = if S i j then x i j else toMatrix a i j := by
  rw [toMatrix, patch, get_ofFn, get_ofFn]

lemma patch_of_not (h : ∀ i j, ¬S i j) : patch a S x = a :=
  square_ext fun i j => (toMatrix_patch a i j).trans (if_neg (h i j))

lemma toMatrix_set (y : α) (p q : Fin n) :
    toMatrix (a.set i ((a.get i).set j y j.isLt) i.isLt) p q =
      if p = i ∧ q = j then y else toMatrix a p q := by
  rw [toMatrix, get_set]
  by_cases hp : p = i
  · subst hp
    rw [if_pos rfl, get_set]
    simp [toMatrix]
  · simp [hp, toMatrix]

/-- One more place is patched by writing to it. -/
lemma patch_set (S' : Fin n → Fin n → Prop) [DecidableRel S']
    (h : ∀ p q, S' p q ↔ S p q ∨ p = i ∧ q = j) :
    (patch a S x).set i (((patch a S x).get i).set j (x i j) j.isLt) i.isLt = patch a S' x := by
  refine square_ext fun p q => ?_
  rw [toMatrix_set, toMatrix_patch, toMatrix_patch]
  by_cases hpq : p = i ∧ q = j
  · obtain ⟨rfl, rfl⟩ := hpq
    rw [if_pos ⟨rfl, rfl⟩, if_pos ((h p q).mpr (.inr ⟨rfl, rfl⟩))]
  · simp only [h, hpq, or_false, if_false]

end Patches

end Simultaneous.Solver
