import Mathlib
import Simultaneous.Proofs.Guards
import Simultaneous.Proofs.Inversion

/-!
Factorization and substitution under guard.

The elimination and the substitution are done again on bare arrays, place by place and every place
checked. A loop that is under way has done its work on some places of a square and not yet on the
others, and no entry that it still looks at is among those it has written. So it comes to what is
said of the whole column or row, and as the scales are above 0 and the pivots on one side of 0, no
check fails.
-/

namespace Simultaneous.Solver

variable {α ε : Type} {n : ℕ}

/-! ### Reductions -/

section Reductions

variable [Sub α] [Mul α] {a a' : Square α n} {i j r : Fin n}

/-- `t` less the products of what is at the next places from `start` on. -/
def lessEach (start count : ℕ) (t : α) (f g : ℕ → Guarded ε α) : Guarded ε α :=
  each start count t fun t m => do
    let x ← f m
    let y ← g m
    return t - x * y

lemma lessEach_eq {start count : ℕ} (t : α) {f g : ℕ → Guarded ε α} (x y : Fin count → α)
    (hf : ∀ m : Fin count, f (start + m) = .ok (x m))
    (hg : ∀ m : Fin count, g (start + m) = .ok (y m)) :
    lessEach start count t f g = .ok (lessProducts t x y) := by
  refine each_eq_foldl (fun t m => t - x m * y m) (fun t m => ?_) t
  rw [hf, ok_bind, hg, ok_bind]
  rfl

/-- Places before `r` are places. -/
lemma lessEach_before (r : Fin n) (t : α) {f g : ℕ → Guarded ε α} {x y : Fin n → α}
    (hf : ∀ m : Fin n, f m = .ok (x m)) (hg : ∀ m : Fin n, g m = .ok (y m)) :
    lessEach 0 r t f g = .ok (lessProducts t (fun m : Fin r.val => x (m.castLE r.isLt.le))
      fun m => y (m.castLE r.isLt.le)) := by
  refine lessEach_eq t _ _ (fun m => ?_) fun m => ?_
  · rw [Nat.zero_add]
    exact hf (m.castLE r.isLt.le)
  · rw [Nat.zero_add]
    exact hg (m.castLE r.isLt.le)

/-- An entry less the products of its row and its column before place `r`. -/
def reduceEntry (a : Array (Array α)) (i j r : ℕ) : Guarded ε α := do
  let t ← readEntry a i j
  lessEach 0 r t (readEntry a i) (readEntry a · j)

lemma reduceEntry_rows (a : Square α n) (i j r : Fin n) :
    (reduceEntry (rows a) i j r : Guarded ε α) = .ok (reduced a i j r) := by
  rw [reduceEntry, readEntry_rows, ok_bind]
  exact lessEach_before r _ (x := toMatrix a i) (y := fun m => toMatrix a m j)
    (fun m => readEntry_rows a i m) fun m => readEntry_rows a m j

/-- A reduction looks at an entry, and at those before place `r` in its row and its column. -/
lemma reduced_congr (h : toMatrix a' i j = toMatrix a i j)
    (hrow : ∀ m, m < r → toMatrix a' i m = toMatrix a i m)
    (hcolumn : ∀ m, m < r → toMatrix a' m j = toMatrix a m j) :
    reduced a' i j r = reduced a i j r := by
  let before (m : Fin r.val) : Fin n := m.castLE r.isLt.le
  have hbefore (m : Fin r.val) : before m < r := Fin.lt_def.mpr m.isLt
  calc reduced a' i j r
      = lessProducts (toMatrix a' i j) (fun m => toMatrix a' i (before m))
        (fun m => toMatrix a' (before m) j) := rfl
    _ = lessProducts (toMatrix a i j) (fun m => toMatrix a i (before m))
        (fun m => toMatrix a (before m) j) := by
      rw [h, funext fun m => hrow _ (hbefore m), funext fun m => hcolumn _ (hbefore m)]
    _ = reduced a i j r := rfl

/-- A reduction does not see what it does not look at. -/
lemma reduced_patch {S : Fin n → Fin n → Prop} [DecidableRel S] {x : Fin n → Fin n → α}
    (h : ¬S i j) (hrow : ∀ m, m < r → ¬S i m) (hcolumn : ∀ m, m < r → ¬S m j) :
    reduced (patch a S x) i j r = reduced a i j r :=
  reduced_congr ((toMatrix_patch a i j).trans (if_neg h))
    (fun m hm => (toMatrix_patch a i m).trans (if_neg (hrow m hm)))
    fun m hm => (toMatrix_patch a m j).trans (if_neg (hcolumn m hm))

end Reductions

/-! ### Offers -/

namespace Elimination

variable [Zero α] [Neg α] [Div α] [LT α] [DecidableLT α] (w : Elimination α n) {r i : Fin n}

/-- The best offer before row `k`. -/
def bestTo (r : Fin n) (k : ℕ) : Fin n × α :=
  ((List.finRange n).take k).foldl
    (fun best i => if r ≤ i ∧ best.2 < w.offer r i then (i, w.offer r i) else best) (r, 0)

lemma bestTo_self (r : Fin n) : w.bestTo r r = (r, 0) := by
  refine List.foldlRecOn (motive := (· = (r, 0))) _ _ rfl fun best hbest i hi => ?_
  -- a row before `r` is passed over
  obtain ⟨m, hm, rfl⟩ := List.mem_take_iff_getElem.mp hi
  have hlt : m < r.val := (lt_min_iff.mp hm).1
  rw [if_neg fun hbetter => ?_, hbest]
  have := Fin.le_def.mp hbetter.1
  simp only [List.getElem_finRange, Fin.val_cast] at this
  omega

lemma bestTo_succ (hi : r ≤ i) : w.bestTo r (i + 1) =
    if (w.bestTo r i).2 < w.offer r i then (i, w.offer r i) else w.bestTo r i := by
  have htake : (List.finRange n).take (i + 1) = (List.finRange n).take i ++ [i] := by
    rw [List.take_add_one]
    simp
  rw [bestTo, htake, List.foldl_append]
  simp only [List.foldl_cons, List.foldl_nil, hi, true_and]
  rfl

lemma bestTo_all (r : Fin n) : w.bestTo r n = w.choose r := by
  rw [bestTo, List.take_of_length_le (by simp), choose, Fin.foldl_eq_foldl_finRange]

end Elimination

/-! ### Columns -/

section Columns

variable [Sub α] [Mul α] {a : Square α n} {i j r : Fin n} {k : ℕ}

/-- A square whose column `r` is reduced above row `k`. -/
def columnTo (a : Square α n) (r : Fin n) (k : ℕ) : Square α n :=
  patch a (fun i j => (r ≤ i ∧ j = r) ∧ i.val < k) fun i _ => reduced a i r r

lemma columnTo_self (a : Square α n) (r : Fin n) : columnTo a r r = a :=
  patch_of_not a fun _ _ h => h.1.1.not_gt (Fin.lt_def.mpr h.2)

lemma columnTo_all (a : Square α n) (r : Fin n) : columnTo a r n = reduceColumn a r := by
  refine square_ext fun i j => ?_
  rw [columnTo, toMatrix_patch, toMatrix_reduceColumn]
  simp only [i.isLt, and_true]

/-- The next entry is reduced from entries that stand as they stood at first. -/
lemma reduced_columnTo (a : Square α n) (i r : Fin n) :
    reduced (columnTo a r i) i r r = reduced a i r r :=
  reduced_patch (fun h => lt_irrefl _ h.2) (fun _ hm h => hm.ne h.1.2)
    fun _ hm h => h.1.1.not_gt hm

lemma columnTo_set (hi : r ≤ i) : (columnTo a r i).set i
    (((columnTo a r i).get i).set r (reduced a i r r) r.isLt) i.isLt = columnTo a r (i + 1) :=
  patch_set a i r (x := fun i _ => reduced a i r r) _ fun p q => by
    simp only [Fin.ext_iff, Fin.le_def] at hi ⊢
    omega

variable [Zero α] [Neg α] [Div α] [LT α] [DecidableLT α]

/-- Reduces one entry of column `r`, and compares what it offers with the best offer so far. -/
def columnStep (scale : Array α) (r : ℕ) (s : Array (Array α) × ℕ × α) (i : ℕ) :
    Guarded ε (Array (Array α) × ℕ × α) := do
  let t ← reduceEntry s.1 i r r
  let a ← writeEntry s.1 i r t
  let scale ← readAt scale i
  let quotient ← overScale t scale
  let offer := magnitude quotient
  return if s.2.2 < offer then (a, i, offer) else (a, s.2)

/-- What a row offers is what its entry is reduced to, in proportion to its scale. -/
lemma magnitude_reduced (w : Elimination α n) (hi : r ≤ i) :
    magnitude (reduced w.lu i r r / w.scale.get i) =
      ({ w with lu := reduceColumn w.lu r } : Elimination α n).offer r i := by
  have hentry := (toMatrix_reduceColumn w.lu r i r).trans (if_pos ⟨hi, rfl⟩)
  rw [← hentry]
  rfl

/-- The loop over column `r` before row `k`: the square, and the best row and offer so far. -/
def Elimination.columnState (w : Elimination α n) (r : Fin n) (k : ℕ) :
    Array (Array α) × ℕ × α :=
  let best := ({ w with lu := reduceColumn w.lu r } : Elimination α n).bestTo r k
  (rows (columnTo w.lu r k), best.1, best.2)

/-- One entry under guard. -/
lemma columnStep_columnState (w : Elimination α n) (hscale : 0 < w.scale.get i) (hi : r ≤ i) :
    (columnStep w.scale.toArray r (w.columnState r i) i : Guarded ε _) =
      .ok (w.columnState r (i + 1)) := by
  let w' : Elimination α n := { w with lu := reduceColumn w.lu r }
  have hbefore : w.columnState r i =
      (rows (columnTo w.lu r i), ((w'.bestTo r i).1 : ℕ), (w'.bestTo r i).2) := rfl
  have hafter : w.columnState r (i + 1) = (rows (columnTo w.lu r (i + 1)),
      ((w'.bestTo r (i + 1)).1 : ℕ), (w'.bestTo r (i + 1)).2) := rfl
  rw [hbefore, hafter, w'.bestTo_succ hi, columnStep]
  dsimp only
  rw [reduceEntry_rows, ok_bind, reduced_columnTo, writeEntry_rows, columnTo_set hi, ok_bind,
    readAt_toArray, ok_bind, overScale_of_pos hscale, ok_bind, magnitude_reduced w hi]
  split_ifs <;> rfl

/-- **A column under guard**, if the scales are above 0. -/
lemma each_columnStep (w : Elimination α n) (hscale : ∀ i, 0 < w.scale.get i) (r : Fin n) :
    let w' : Elimination α n := { w with lu := reduceColumn w.lu r }
    (each r (n - r) (rows w.lu, (r : ℕ), 0) (columnStep w.scale.toArray r) : Guarded ε _) =
      .ok (rows w'.lu, ((w'.choose r).1 : ℕ), (w'.choose r).2) := by
  intro w'
  have hstart : w.columnState r r = (rows w.lu, (r : ℕ), 0) := by
    simp only [Elimination.columnState, columnTo_self, Elimination.bestTo_self]
  have hend : w.columnState r n = (rows w'.lu, ((w'.choose r).1 : ℕ), (w'.choose r).2) := by
    simp only [Elimination.columnState, columnTo_all, Elimination.bestTo_all]
    rfl
  have hrun : (each r (n - r) (w.columnState r r) (columnStep w.scale.toArray r) : Guarded ε _) =
      .ok (w.columnState r (r + (n - r))) :=
    each_of_states (fun k => w.columnState r (r + k)) fun k hk =>
      columnStep_columnState (i := ⟨r + k, by omega⟩) w (hscale _)
        (Fin.le_def.mpr (Nat.le_add_right _ _))
  have hn : r + (n - r) = n := by omega
  rwa [hn, hstart, hend] at hrun

end Columns

/-! ### Rows -/

section Rows

variable [Sub α] [Mul α] [Div α] {a : Square α n} {j r : Fin n}

/-- A square whose row `r` is reduced left of column `k`. -/
def rowTo (a : Square α n) (r : Fin n) (k : ℕ) : Square α n :=
  patch a (fun i j => (i = r ∧ r < j) ∧ j.val < k) fun _ j => reduced a r j r / toMatrix a r r

lemma rowTo_self (a : Square α n) (r : Fin n) : rowTo a r (r + 1) = a :=
  patch_of_not a fun _ _ h => (Nat.lt_succ_iff.mp h.2).not_gt h.1.2

lemma rowTo_all (a : Square α n) (r : Fin n) : rowTo a r n = reduceRow a r := by
  refine square_ext fun i j => ?_
  rw [rowTo, toMatrix_patch, toMatrix_reduceRow]
  simp only [j.isLt, and_true]

lemma reduced_rowTo (a : Square α n) (j r : Fin n) :
    reduced (rowTo a r j) r j r = reduced a r j r :=
  reduced_patch (fun h => lt_irrefl _ h.2) (fun _ hm h => h.1.2.not_gt hm)
    fun _ hm h => hm.ne h.1.1

/-- The pivot stands left of the row. -/
lemma pivot_rowTo (a : Square α n) (r : Fin n) (k : ℕ) :
    toMatrix (rowTo a r k) r r = toMatrix a r r :=
  (toMatrix_patch a r r).trans (if_neg fun h => lt_irrefl _ h.1.2)

lemma rowTo_set (hj : r < j) : (rowTo a r j).set r
    (((rowTo a r j).get r).set j (reduced a r j r / toMatrix a r r) j.isLt) r.isLt =
      rowTo a r (j + 1) :=
  patch_set a r j (x := fun _ j => reduced a r j r / toMatrix a r r) _ fun p q => by
    simp only [Fin.ext_iff, Fin.lt_def] at hj ⊢
    omega

variable [Zero α] [LT α] [DecidableLT α]

/-- Reduces one entry of row `r`, and divides it by the pivot. -/
def rowStep (r : ℕ) (a : Array (Array α)) (j : ℕ) : Guarded ε (Array (Array α)) := do
  let t ← reduceEntry a r j r
  let pivot ← readEntry a r r
  let quotient ← overPivot t pivot
  writeEntry a r j quotient

lemma rowStep_rowTo (hpivot : Sided (toMatrix a r r)) (hj : r < j) :
    (rowStep r (rows (rowTo a r j)) j : Guarded ε _) = .ok (rows (rowTo a r (j + 1))) := by
  rw [rowStep, reduceEntry_rows, ok_bind, reduced_rowTo, readEntry_rows, ok_bind, pivot_rowTo,
    overPivot_of_sided hpivot, ok_bind, writeEntry_rows, rowTo_set hj]

/-- **A row under guard**, if the pivot is on one side of 0. -/
lemma each_rowStep (hpivot : Sided (toMatrix a r r)) :
    (each (r + 1) (n - (r + 1)) (rows a) (rowStep r) : Guarded ε _) =
      .ok (rows (reduceRow a r)) := by
  have hrun : (each (r + 1) (n - (r + 1)) (rows (rowTo a r (r + 1))) (rowStep r) : Guarded ε _) =
      .ok (rows (rowTo a r (r + 1 + (n - (r + 1))))) :=
    each_of_states (fun k => rows (rowTo a r (r + 1 + k))) fun k hk =>
      rowStep_rowTo (j := ⟨r + 1 + k, by omega⟩) hpivot (Fin.lt_def.mpr (Nat.le_add_right _ _))
  have hn : r + 1 + (n - (r + 1)) = n := by omega
  rwa [hn, rowTo_self, rowTo_all] at hrun

end Rows

/-! ### Eliminations -/

section Eliminations

variable [Zero α] [Neg α] [Sub α] [Mul α] [Div α] [LT α] [DecidableLT α] [LE α] [DecidableLE α]

/-- An elimination on bare arrays. -/
structure Workspace (α : Type) where
  lu : Array (Array α)
  scale : Array α
  pivots : Array ℕ

/-- Takes row `l` for the pivot of step `r`. -/
def takePivot (w : Workspace α) (r l : ℕ) : Guarded ε (Workspace α) := do
  let s ← readAt w.scale r
  let scale ← writeAt w.scale l s
  let pivots ← writeAt w.pivots r l
  let lu ← exchangeRows w.lu r l
  let lu ← each (r + 1) (lu.size - (r + 1)) lu (rowStep r)
  return ⟨lu, scale, pivots⟩

/-- Step `r` under guard. -/
def guardedStep (tolerance : α) (w : Workspace α) (r : ℕ) : Guarded Failure (Workspace α) := do
  let best ← each r (w.lu.size - r) (w.lu, r, 0) (columnStep w.scale r)
  if best.2.2 ≤ tolerance then .error (.failure (.illConditioned (.zeroPivot r)))
  else takePivot { w with lu := best.1 } r best.2.1

/-- An elimination on bare arrays whose first `k` pivots are chosen; the others are 0. -/
def Elimination.bare (w : Elimination α n) (k : ℕ) : Workspace α where
  lu := rows w.lu
  scale := w.scale.toArray
  pivots := (overwritten (Vector.replicate n 0) (w.pivots.map Fin.val) k).toArray

omit [Zero α] [Neg α] [Sub α] [Mul α] [Div α] [LT α] [DecidableLT α] [LE α] [DecidableLE α] in
lemma pivots_set (p : Vector (Fin n) n) (r l : Fin n) :
    (overwritten (Vector.replicate n 0) (p.map Fin.val) r).set r l.val r.isLt =
      overwritten (Vector.replicate n 0) ((p.set r l r.isLt).map Fin.val) (r + 1) := by
  have hchosen : ((p.set r l r.isLt).map Fin.val).get r = l.val := by
    rw [get_map, get_set, if_pos rfl]
  rw [← hchosen]
  refine overwritten_set _ _ fun m hm => ?_
  rw [get_map, get_map, get_set, if_neg hm.ne]

omit [Neg α] [LE α] [DecidableLE α] in
lemma takePivot_bare (w : Elimination α n) {r l : Fin n} (hpivot : Sided (toMatrix w.lu l r)) :
    (takePivot (w.bare r) r l : Guarded ε _) = .ok (({ w.exchangeInPlace r l with
      lu := reduceRow (w.lu.swap r l r.isLt l.isLt) r } : Elimination α n).bare (r + 1)) := by
  have hmoved : Sided (toMatrix (w.lu.swap r l r.isLt l.isLt) r r) := by
    rwa [toMatrix_swap, Equiv.swap_apply_left]
  rw [takePivot, Elimination.bare]
  dsimp only
  rw [readAt_toArray, ok_bind, writeAt_toArray, ok_bind, writeAt_toArray, ok_bind,
    exchangeRows_rows, ok_bind, size_rows, each_rowStep hmoved, ok_bind, pivots_set]
  rfl

variable [Proportions α] {tolerance : α} {w : Elimination α n} {r : Fin n}

/-- **A step under guard** does not slip. -/
lemma guardedStep_bare (htol : 0 ≤ tolerance) (hw : w.Sound r) :
    guardedStep tolerance (w.bare r) r =
      ((w.stepInPlace tolerance r).map (·.bare (r + 1))).mapError .failure := by
  let w' : Elimination α n := { w with lu := reduceColumn w.lu r }
  have hguarded : guardedStep tolerance (w.bare r) r =
      if (w'.choose r).2 ≤ tolerance then .error (.failure (.illConditioned (.zeroPivot r)))
      else takePivot (w'.bare r) r (w'.choose r).1 := by
    rw [guardedStep, Elimination.bare]
    dsimp only
    rw [size_rows, each_columnStep w hw.scale_pos r, ok_bind]
    rfl
  rw [hguarded]
  by_cases hle : (w'.choose r).2 ≤ tolerance
  · have hstep : w.stepInPlace tolerance r = .error (.illConditioned (.zeroPivot r)) := if_pos hle
    rw [if_pos hle, hstep]
    rfl
  · have hstep : w.stepInPlace tolerance r = .ok { w'.exchangeInPlace r (w'.choose r).1 with
        lu := reduceRow (w'.lu.swap r (w'.choose r).1 r.isLt (w'.choose r).1.isLt) r } :=
      if_neg hle
    obtain ⟨l, rfl, -, hsided, -⟩ := Elimination.stepInPlace_ok htol hstep
    rw [if_neg hle, hstep, takePivot_bare w' hsided]
    rfl

/-- **An elimination under guard** does not slip in any of its steps. -/
lemma each_guardedStep (htol : 0 ≤ tolerance) {a : Square α n} {s : Vector α n}
    (hs : ∀ i, 0 < s.get i) {k : ℕ} (hk : k ≤ n) :
    each 0 k ((Elimination.start a s).bare 0) (guardedStep tolerance) =
      ((Elimination.stepsBy (Elimination.stepInPlace tolerance) (.start a s) k hk).map
        (·.bare k)).mapError .failure := by
  induction k with
  | zero => rfl
  | succ k ih =>
    rw [each_succ, ih (Nat.le_of_succ_le hk), Elimination.stepsBy, Nat.zero_add]
    cases hv : Elimination.stepsBy (Elimination.stepInPlace tolerance) (.start a s) k
        (Nat.le_of_succ_le hk) with
    | error f => rfl
    -- the next step finds what the steps before it have left to divide by
    | ok v => exact guardedStep_bare (r := ⟨k, hk⟩) htol (Elimination.sound_of_stepsBy htol hs hv)

end Eliminations

/-! ### Factorizations -/

section Factorizations

variable [Zero α] [Neg α] [LT α] [DecidableLT α]

/-- The greatest magnitude in an array. -/
def greatestIn (v : Array α) : α :=
  v.foldl (fun m x => if m < magnitude x then magnitude x else m) 0

lemma greatestIn_toArray (v : Vector α n) : greatestIn v.toArray = greatest v := rfl

variable [LE α] [DecidableLE α]

/-- Finds the scale of one row. -/
def scaleStep (tolerance : α) (a : Array (Array α)) (s : Array α) (i : ℕ) :
    Guarded Failure (Array α) := do
  let row ← readAt a i
  let m := greatestIn row
  if m ≤ tolerance then .error (.failure (.singular i)) else writeAt s i m

/-- The scales of all rows under guard. -/
def guardedScales (tolerance : α) (a : Array (Array α)) : Guarded Failure (Array α) :=
  each 0 a.size (Array.replicate a.size 0) (scaleStep tolerance a)

/-- The scales of the first `k` rows. -/
def scalesTo (a : Square α n) (k : ℕ) : Vector α n :=
  overwritten (Vector.replicate n 0) (a.map greatest) k

lemma scaleStep_rows (tolerance : α) (a : Square α n) (i : Fin n) :
    scaleStep tolerance (rows a) (scalesTo a i).toArray i =
      if greatest (a.get i) ≤ tolerance then .error (.failure (.singular i))
      else .ok (scalesTo a (i + 1)).toArray := by
  have hset : (scalesTo a i).set i (greatest (a.get i)) i.isLt = scalesTo a (i + 1) := by
    rw [← get_map greatest a i]
    exact overwritten_set i _ fun m _ => rfl
  rw [scaleStep, readAt_rows, ok_bind, greatestIn_toArray]
  dsimp only
  rw [writeAt_toArray, hset]

/-- Up to the first row that is not accepted, each row leaves its scale. -/
lemma guardedScales_rows (tolerance : α) (a : Square α n) :
    guardedScales tolerance (rows a) =
      ((scales tolerance a).map Vector.toArray).mapError .failure := by
  have hstart : Array.replicate n 0 = (scalesTo a 0).toArray := by
    rw [scalesTo, overwritten_zero]
    rfl
  rw [guardedScales, size_rows, hstart]
  cases hs : scales tolerance a with
  | error f =>
    obtain ⟨i, rfl, hi, hleast⟩ := scales_error hs
    refine each_of_stop (fun k => (scalesTo a k).toArray) (fun k hk => ?_) i.isLt ?_
    · rw [Nat.zero_add]
      refine (scaleStep_rows tolerance a ⟨k, hk.trans i.isLt⟩).trans (if_neg fun hle => ?_)
      exact (hleast hle).not_gt (Fin.lt_def.mpr hk)
    · rw [Nat.zero_add]
      exact (scaleStep_rows tolerance a i).trans (if_pos hi)
  | ok s =>
    obtain ⟨rfl, haccepted⟩ := scales_accepts hs
    rw [each_of_states (fun k => (scalesTo a k).toArray) fun k hk => ?_, scalesTo, overwritten_all]
    · rfl
    · rw [Nat.zero_add]
      exact (scaleStep_rows tolerance a ⟨k, hk⟩).trans (if_neg (haccepted _))

variable [Sub α] [Mul α] [Div α]

/-- A factorization under guard. -/
def guardedFactorize (tolerance : α) (a : Array (Array α)) :
    Guarded Failure (Array (Array α) × Array ℕ) := do
  let scale ← guardedScales tolerance a
  let w ← each 0 a.size ⟨a, scale, Array.replicate a.size 0⟩ (guardedStep tolerance)
  return (w.lu, w.pivots)

/-- The bare arrays of a factorization. -/
def Factorization.bare (f : Factorization α n) : Array (Array α) × Array ℕ :=
  (rows f.lu, (f.pivots.map Fin.val).toArray)

/-- **A factorization under guard** does not slip, whatever it is given. -/
lemma guardedFactorize_rows [Proportions α] {tolerance : α} (htol : 0 ≤ tolerance)
    (a : Square α n) : guardedFactorize tolerance (rows a) =
      ((factorize tolerance a).map (·.bare)).mapError .failure := by
  rw [guardedFactorize, guardedScales_rows, ← factorizeInPlace_eq]
  cases hs : scales tolerance a with
  | error f =>
    rw [factorizeInPlace, hs]
    rfl
  | ok s =>
    have hplain : factorizeInPlace tolerance a =
        (Elimination.stepsBy (Elimination.stepInPlace tolerance) (.start a s) n le_rfl).bind
          fun w => .ok ⟨w.lu, w.pivots⟩ := by
      rw [factorizeInPlace, hs]
      rfl
    -- no pivot is chosen yet, so all of them are 0
    have hstart : (⟨rows a, s.toArray, Array.replicate n 0⟩ : Workspace α) =
        (Elimination.start a s).bare 0 := by
      rw [Elimination.bare, overwritten_zero]
      rfl
    have hrun := each_guardedStep (a := a) htol (scales_pos htol hs) le_rfl
    change (each 0 (rows a).size ⟨rows a, s.toArray, Array.replicate (rows a).size 0⟩
      (guardedStep tolerance) >>= fun w => pure (w.lu, w.pivots)) = _
    rw [hplain, size_rows, hstart, hrun]
    cases Elimination.stepsBy (Elimination.stepInPlace tolerance) (.start a s) n le_rfl with
    | error f => rfl
    | ok w =>
      exact congrArg (fun p : Vector ℕ n => Except.ok (rows w.lu, p.toArray)) (overwritten_all _ _)

end Factorizations

/-! ### Substitution -/

section Substitution

variable [Sub α] [Mul α]

/-- Entry `k` from the end of the backward pass under guard. -/
def guardedBackward (lu : Array (Array α)) (z : Array α) (k : ℕ) : Guarded ε (Array α) := do
  let r := lu.size - (k + 1)
  let t ← readAt z r
  let t ← lessEach (r + 1) (lu.size - (r + 1)) t (readEntry lu r) (readAt z)
  writeAt z r t

lemma guardedBackward_bare (f : Factorization α n) (y : Vector α n) {k : ℕ} (hk : k + 1 ≤ n) :
    guardedBackward f.bare.1 (f.backward y k (Nat.le_of_succ_le hk)).toArray k =
      (.ok (f.backward y (k + 1) hk).toArray : Guarded ε _) := by
  let r : Fin n := ⟨n - (k + 1), by omega⟩
  let z := f.backward y k (Nat.le_of_succ_le hk)
  let behind (j : Fin k) : Fin n := ⟨n - k + j, by omega⟩
  have hsize : f.bare.1.size = n := size_rows f.lu
  have hstart : n - (k + 1) + 1 = n - k := by omega
  have hcount : n - (n - k) = k := by omega
  have hless : (lessEach (n - k) k (z.get r) (readEntry f.bare.1 r) (readAt z.toArray) :
      Guarded ε α) = .ok (lessProducts (z.get r) _ _) :=
    lessEach_eq _ (fun j => toMatrix f.lu r (behind j)) (fun j => z.get (behind j))
      (fun j => readEntry_rows f.lu r (behind j)) fun j => readAt_toArray z (behind j)
  rw [guardedBackward, hsize, hstart, hcount]
  change (readAt z.toArray r >>= fun t =>
    lessEach (n - k) k t (readEntry f.bare.1 r) (readAt z.toArray) >>= fun t =>
      writeAt z.toArray r t) = _
  rw [readAt_toArray, ok_bind, hless, ok_bind, writeAt_toArray]
  rfl

lemma each_guardedBackward (f : Factorization α n) (y : Vector α n) {k : ℕ} (hk : k ≤ n) :
    (each 0 k y.toArray (guardedBackward f.bare.1) : Guarded ε _) =
      .ok (f.backward y k hk).toArray := by
  induction k with
  | zero => rfl
  | succ k ih =>
    rw [each_succ, ih (Nat.le_of_succ_le hk), ok_bind, Nat.zero_add]
    exact guardedBackward_bare f y hk

variable [Zero α] [Div α] [LT α] [DecidableLT α] {f : Factorization α n}

/-- One entry of the forward pass under guard. -/
def guardedForward (lu : Array (Array α)) (pivots : Array ℕ) (y : Array α) (r : ℕ) :
    Guarded ε (Array α) := do
  let p ← readAt pivots r
  let taken ← readAt y p
  let kept ← readAt y r
  let y ← writeAt y p kept
  let t ← lessEach 0 r taken (readEntry lu r) (readAt y)
  let pivot ← readEntry lu r r
  let quotient ← overPivot t pivot
  writeAt y r quotient

lemma guardedForward_bare (hf : f.Sound) (b : Vector α n) (r : Fin n) :
    guardedForward f.bare.1 f.bare.2 (f.forwardInPlace b r r.isLt.le).toArray r =
      (.ok (f.forwardInPlace b (r + 1) r.isLt).toArray : Guarded ε _) := by
  let p : Fin n := f.pivots.get r
  let y := f.forwardInPlace b r r.isLt.le
  let y' : Vector α n := y.set p (y.get r) p.isLt
  have hpivot : (readAt f.bare.2 r : Guarded ε ℕ) = .ok p := by
    rw [Factorization.bare, readAt_toArray, get_map]
  have hless : (lessEach 0 r (y.get p) (readEntry f.bare.1 r) (readAt y'.toArray) : Guarded ε α) =
      .ok (lessProducts (y.get p) _ _) :=
    lessEach_before r _ (x := toMatrix f.lu r) (y := y'.get)
      (fun m => readEntry_rows f.lu r m) fun m => readAt_toArray y' m
  have hdiagonal : (readEntry f.bare.1 r r : Guarded ε α) = .ok (toMatrix f.lu r r) :=
    readEntry_rows f.lu r r
  rw [guardedForward, hpivot, ok_bind, readAt_toArray, ok_bind, readAt_toArray, ok_bind,
    writeAt_toArray, ok_bind, hless, ok_bind, hdiagonal, ok_bind,
    overPivot_of_sided (hf.diagonal r), ok_bind, writeAt_toArray]
  rfl

lemma each_guardedForward (hf : f.Sound) (b : Vector α n) {k : ℕ} (hk : k ≤ n) :
    (each 0 k b.toArray (guardedForward f.bare.1 f.bare.2) : Guarded ε _) =
      .ok (f.forwardInPlace b k hk).toArray := by
  induction k with
  | zero => rfl
  | succ k ih =>
    rw [each_succ, ih (Nat.le_of_succ_le hk), ok_bind, Nat.zero_add]
    exact guardedForward_bare hf b ⟨k, hk⟩

/-- Substitution under guard. -/
def guardedSubstitute (lu : Array (Array α)) (pivots : Array ℕ) (b : Array α) :
    Guarded ε (Array α) := do
  let y ← each 0 lu.size b (guardedForward lu pivots)
  each 0 lu.size y (guardedBackward lu)

/-- **Substitution under guard** does not slip on sound factors. -/
lemma guardedSubstitute_bare (hf : f.Sound) (b : Vector α n) :
    (guardedSubstitute f.bare.1 f.bare.2 b.toArray : Guarded ε _) = .ok (f.solve b).toArray := by
  have hsize : f.bare.1.size = n := size_rows f.lu
  rw [guardedSubstitute, hsize, each_guardedForward hf b le_rfl, ok_bind,
    each_guardedBackward f _ le_rfl, ← f.solveInPlace_eq]
  rfl

end Substitution

end Simultaneous.Solver
