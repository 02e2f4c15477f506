import Mathlib
import Simultaneous.Proofs.Lockstep
import Simultaneous.Proofs.Stationary

/-!
Scaled partial pivoting.

A step compares the rows that are left by their entries in one column, each in proportion to the
greatest coefficient that the row had at first, and takes the first of the best. Later exchanges
carry the finished entries of a row along with it, so what a step compared can be read off the
finished lower triangle: a row is followed from the place where it stood to the place where it
ended up. So can the scales, although the elimination in place keeps no more than one copy of each.
-/

namespace Simultaneous.Solver

variable {α : Type} {n : ℕ}

/-! ### Where rows end up -/

section Places

variable (p : Vector (Fin n) n)

/-- Where a row ends up that stands at a place after the first `k` exchanges. -/
def destination (k : ℕ) (hk : k ≤ n) : Equiv.Perm (Fin n) :=
  (origin p n le_rfl)⁻¹ * origin p k hk

lemma origin_destination {k : ℕ} (hk : k ≤ n) (i : Fin n) :
    origin p n le_rfl (destination p k hk i) = origin p k hk i := by
  simp [destination]

/-- The row at a place after the first `k` exchanges is the row at its destination after all. -/
lemma get_exchangeAll_destination {β : Type} (v : Vector β n) {k : ℕ} (hk : k ≤ n) (i : Fin n) :
    (exchangeAll p v).get (destination p k hk i) = (exchangeFirst p v k hk).get i := by
  rw [exchangeAll, get_exchangeFirst, get_exchangeFirst, origin_destination]

lemma destination_self (i : Fin n) : destination p n le_rfl i = i := by
  simp [destination]

/-- Exchange `r` moves a row, and from there it goes on. -/
lemma destination_swap (r i : Fin n) :
    destination p (r + 1) r.isLt (Equiv.swap r (p.get r) i) = destination p r r.isLt.le i := by
  simp [destination, origin]

variable {p} (hp : ∀ r, r ≤ p.get r)

include hp

/-- A finished row stays where it is. -/
lemma destination_of_lt {k : ℕ} (hk : k ≤ n) {i : Fin n} (hi : i.val < k) :
    destination p k hk i = i := by
  -- from the last exchange backwards
  induction hd : n - k generalizing k with
  | zero =>
    obtain rfl : k = n := by omega
    exact destination_self p i
  | succ d ih =>
    let r : Fin n := ⟨k, by omega⟩
    have hswap : Equiv.swap r (p.get r) i = i := swap_eq_of_lt (hp r) (Fin.lt_def.mpr hi)
    calc destination p k hk i
        = destination p (r + 1) r.isLt (Equiv.swap r (p.get r) i) := (destination_swap p r i).symm
      _ = destination p (r + 1) r.isLt i := by rw [hswap]
      _ = i := ih r.isLt (by simp only [r]; omega) (by simp only [r]; omega)

lemma le_destination_iff {k : ℕ} (hk : k ≤ n) {i : Fin n} :
    k ≤ (destination p k hk i).val ↔ k ≤ i.val := by
  refine ⟨fun h => ?_, fun h => ?_⟩
  · by_contra hlt
    rw [destination_of_lt hp hk (not_le.mp hlt)] at h
    exact hlt h
  · by_contra hlt
    have hfix := destination_of_lt hp hk (not_le.mp hlt)
    rw [(destination p k hk).injective hfix] at hlt
    exact hlt h

lemma destination_pivot (r : Fin n) : destination p r r.isLt.le (p.get r) = r := by
  rw [← destination_swap, Equiv.swap_apply_right]
  exact destination_of_lt hp r.isLt (Nat.lt_succ_self r)

end Places

/-! ### The first of the best -/

section Choice

variable [Field α] [LinearOrder α]

/-- The rows from `r` on that have most left in column `r`, in proportion to their scales. -/
def Elimination.best (w : Elimination α n) (r : Fin n) : Set (Fin n) :=
  {i | r ≤ i ∧ ∀ j, r ≤ j →
    |reduced w.lu j r r / w.scale.get j| ≤ |reduced w.lu i r r / w.scale.get i|}

/-- The scales before `r` are not looked at. -/
lemma Elimination.SameFrom.best_eq {w w' : Elimination α n} {r : Fin n} (h : SameFrom r w w') :
    w'.best r = w.best r := by
  ext i
  refine and_congr_right fun hi => forall₂_congr fun j hj => ?_
  rw [h.lu_eq, h.scale_eq i hi, h.scale_eq j hj]

/-- The search leaves a row only for a better one. -/
lemma foldl_offer_first (w : Elimination α n) (r : Fin n) {l : List (Fin n)}
    (hl : l.Pairwise (· < ·)) (best : Fin n × α) (hbest : ∀ i ∈ l, r ≤ i → best.1 ≤ i) :
    let b := l.foldl (fun best i =>
      if r ≤ i ∧ best.2 < w.offer r i then (i, w.offer r i) else best) best
    (b = best ∨ best.2 < b.2) ∧ ∀ i ∈ l, r ≤ i → i < b.1 → w.offer r i < b.2 := by
  induction l generalizing best with
  | nil => exact ⟨.inl rfl, by simp⟩
  | cons x l ih =>
    obtain ⟨hx, hl⟩ := List.pairwise_cons.mp hl
    simp only [List.foldl_cons]
    split_ifs with hbetter
    · obtain ⟨hkept, hfirst⟩ := ih hl (x, w.offer r x) fun i hi _ => (hx i hi).le
      refine ⟨.inr ?_, ?_⟩
      · rcases hkept with heq | hlt
        · rw [heq]
          exact hbetter.2
        · exact hbetter.2.trans hlt
      · intro i hi hri hib
        rcases List.mem_cons.mp hi with rfl | hi
        · refine hkept.resolve_left fun heq => ?_
          rw [heq] at hib
          exact lt_irrefl _ hib
        · exact hfirst i hi hri hib
    · obtain ⟨hkept, hfirst⟩ := ih hl best fun i hi => hbest i (.tail _ hi)
      refine ⟨hkept, fun i hi hri hib => ?_⟩
      rcases List.mem_cons.mp hi with rfl | hi
      · have hle : w.offer r i ≤ best.2 := not_lt.mp fun hlt => hbetter ⟨hri, hlt⟩
        refine hle.trans_lt (hkept.resolve_left fun heq => ?_)
        rw [heq] at hib
        exact (hbest i (.head _) hri).not_gt hib
      · exact hfirst i hi hri hib

/-- No row before the chosen one offers as much. -/
lemma choose_first (w : Elimination α n) {r i : Fin n} (hi : r ≤ i) (hlt : i < (w.choose r).1) :
    w.offer r i < (w.choose r).2 := by
  have hsorted : (List.finRange n).Pairwise (· < ·) := List.pairwise_lt_finRange n
  have hfirst := (foldl_offer_first w r hsorted (r, 0) fun i _ hri => hri).2
  unfold Elimination.choose at hlt ⊢
  rw [Fin.foldl_eq_foldl_finRange] at hlt ⊢
  exact hfirst i (List.mem_finRange i) hi hlt

variable [IsStrictOrderedRing α] {tolerance : α} {v v' : Elimination α n} {r : Fin n}

/-- A step takes the first of the rows that offer most. -/
lemma step_takes (htol : 0 ≤ tolerance) (h : v.step tolerance r = .ok v') :
    ∃ l, v' = v.advance r l ∧ tolerance < |reduced v.lu l r r / v.scale.get l| ∧
      IsLeast (v.best r) l := by
  set w : Elimination α n := { v with lu := reduceColumn v.lu r } with hw
  have hoffer {i : Fin n} (hi : r ≤ i) :
      w.offer r i = |reduced v.lu i r r / v.scale.get i| := offer_reduceColumn v hi
  obtain ⟨hle, hmax, heq⟩ := choose_spec w r
  rw [step_eq] at h
  split_ifs at h with hsmall
  have habove : tolerance < (w.choose r).2 := not_le.mp hsmall
  have hbest : (w.choose r).2 = |reduced v.lu (w.choose r).1 r r / v.scale.get (w.choose r).1| :=
    (heq (htol.trans_lt habove).ne').trans (hoffer hle)
  refine ⟨(w.choose r).1, (Except.ok.inj h).symm, hbest ▸ habove, ⟨hle, fun j hj => ?_⟩,
    fun i ⟨hi, hall⟩ => ?_⟩
  · rw [← hbest, ← hoffer hj]
    exact hmax j hj
  · by_contra hlt
    have hless := choose_first w hi (not_le.mp hlt)
    rw [hoffer hi, hbest] at hless
    exact (hall _ hle).not_gt hless

end Choice

/-! ### What a step compares -/

section Comparison

/-- The elimination goes on from `v` to `w` without touching the first `k` pivots and, but for the
exchanges, the first `k` columns. -/
structure Elimination.Leads (k : ℕ) (hk : k ≤ n) (v w : Elimination α n) : Prop where
  pivots_eq : ∀ r : Fin n, r.val < k → v.pivots.get r = w.pivots.get r
  columns_eq : ∀ i j : Fin n, j.val < k →
    toMatrix w.lu (destination w.pivots k hk i) j = toMatrix v.lu i j

open Elimination (Leads)

lemma Elimination.Leads.refl (w : Elimination α n) : Leads n le_rfl w w where
  pivots_eq _ _ := rfl
  columns_eq i j _ := by rw [destination_self]

variable [Field α]

section

variable {v w : Elimination α n} {r l : Fin n} (h : Leads (r + 1) r.isLt (v.advance r l) w)

include h

lemma Elimination.Leads.pivot_eq : w.pivots.get r = l := by
  rw [← h.pivots_eq r (Nat.lt_succ_self r), pivots_advance, if_pos rfl]

/-- Where the row ends up that a step moves from place `i`. -/
lemma Elimination.Leads.destination_eq (i : Fin n) :
    destination w.pivots (r + 1) r.isLt (Equiv.swap r l i) =
      destination w.pivots r r.isLt.le i := by
  rw [← h.pivot_eq, destination_swap]

lemma Elimination.Leads.of_advance (hl : r ≤ l) : Leads r r.isLt.le v w where
  pivots_eq m hm := by
    have hne : m ≠ r := Fin.ne_of_lt (Fin.lt_def.mpr hm)
    rw [← h.pivots_eq m (by omega), pivots_advance, if_neg hne]
  columns_eq i j hj := by
    rw [← h.destination_eq, h.columns_eq _ j (by omega),
      advance_rest v hl (.inr (.inl (Fin.lt_def.mpr hj))), Equiv.swap_apply_self]

/-- The column that a step reduces is the column of `L` that it leaves. -/
lemma Elimination.Leads.reduced_eq (hl : r ≤ l) {i : Fin n} (hi : r ≤ i) :
    toMatrix w.lu (destination w.pivots r r.isLt.le i) r = reduced v.lu i r r := by
  rw [← h.destination_eq, h.columns_eq _ r (Nat.lt_succ_self r),
    advance_column v hl (le_swap hl hi), Equiv.swap_apply_self]

end

variable [LinearOrder α]

/-- Step `r` compares the rows that are left in an elimination of `a` that comes to `f`: each by
what it leaves in column `r` of `L`, in proportion to its own greatest coefficient. It takes the
first of the best, which must be above the tolerance. -/
structure Elimination.Compares (tolerance : α) (a : Square α n) (f : Factorization α n) (r : Fin n)
    (v : Elimination α n) : Prop where
  scale_eq : ∀ i, r ≤ i →
    v.scale.get i = supNorm (toMatrix (exchangeFirst f.pivots a r r.isLt.le) i)
  column_eq : ∀ i, r ≤ i →
    reduced v.lu i r r = lower f.lu (destination f.pivots r r.isLt.le i) r
  pivot_isLeast : IsLeast (v.best r) (f.pivots.get r)
  above : tolerance < |reduced v.lu (f.pivots.get r) r r / v.scale.get (f.pivots.get r)|

open Elimination (Compares)

/-- A comparison looks at the scales of the rows that are left alone. -/
lemma Elimination.Compares.of_sameFrom {tolerance : α} {a : Square α n} {f : Factorization α n}
    {r : Fin n} {v v' : Elimination α n} (h : Compares tolerance a f r v)
    (hsame : SameFrom r v v') : Compares tolerance a f r v' where
  scale_eq i hi := (hsame.scale_eq i hi).trans (h.scale_eq i hi)
  column_eq i hi := by rw [hsame.lu_eq, h.column_eq i hi]
  pivot_isLeast := by
    rw [hsame.best_eq]
    exact h.pivot_isLeast
  above := by
    rw [hsame.lu_eq, hsame.scale_eq _ h.pivot_isLeast.1.1]
    exact h.above

variable [IsStrictOrderedRing α] {tolerance : α} {u w : Elimination α n} {a : Square α n}
variable {s : Vector α n}

/-- A run to the end leads there from each of its stages. -/
lemma exists_leads (htol : 0 ≤ tolerance) (h : u.steps tolerance n le_rfl = .ok w) {k : ℕ}
    (hk : k ≤ n) : ∃ v, u.steps tolerance k hk = .ok v ∧ Leads k hk v w := by
  -- from the last stage backwards
  induction hd : n - k generalizing k with
  | zero =>
    obtain rfl : k = n := by omega
    exact ⟨w, h, .refl w⟩
  | succ d ih =>
    have hlt : k < n := by omega
    obtain ⟨v', hv', hleads⟩ := ih hlt (by omega)
    obtain ⟨v, hv, hstep⟩ := steps_succ_ok hv'
    obtain ⟨l, hl, -, rfl⟩ := step_ok htol hstep
    exact ⟨v, hv, hleads.of_advance hl⟩

/-- **What a step compares**: every step of an elimination that succeeds. -/
lemma exists_compares (htol : 0 ≤ tolerance) (hs : scales tolerance a = .ok s)
    (h : (Elimination.start a s).steps tolerance n le_rfl = .ok w) (r : Fin n) :
    ∃ v, (Elimination.start a s).steps tolerance r r.isLt.le = .ok v ∧
      Compares tolerance a ⟨w.lu, w.pivots⟩ r v := by
  obtain ⟨v', hv', hleads⟩ := exists_leads htol h r.isLt
  obtain ⟨v, hv, hstep⟩ := steps_succ_ok hv'
  obtain ⟨l, rfl, habove, hleast⟩ := step_takes htol hstep
  have hl : r ≤ l := hleast.1.1
  have hpivot : w.pivots.get r = l := hleads.pivot_eq
  have hge (m : Fin n) : m ≤ w.pivots.get m := (factored_steps htol le_rfl h).pivot_ge m m.isLt
  refine ⟨v, hv, ?_, ?_, ?_, ?_⟩
  · intro i _
    have hexchange : exchangeFirst v.pivots s r r.isLt.le = exchangeFirst w.pivots s r r.isLt.le :=
      exchangeFirst_congr s r.isLt.le (hleads.of_advance hl).pivots_eq
    rw [(factored_steps htol r.isLt.le hv).scale_eq, hexchange, (scales_ok hs).1,
      get_exchangeFirst, get_map, ← get_exchangeFirst, greatest_eq_supNorm]
    rfl
  · intro i hi
    have hdest : r ≤ destination w.pivots r r.isLt.le i := (le_destination_iff hge _).mpr hi
    rw [lower_of_le hdest, hleads.reduced_eq hl hi]
  · rw [hpivot]
    exact hleast
  · rw [hpivot]
    exact habove

end Comparison

/-! ### Scaled partial pivoting -/

section Scaled

variable [Field α] [LinearOrder α] [IsStrictOrderedRing α]

open Elimination (stepsBy stepInPlace Compares)

/-- The greatest coefficient of the row of `a` that ends up at a place. -/
def Factorization.scaleAt (f : Factorization α n) (a : Square α n) (i : Fin n) : α :=
  supNorm (toMatrix (exchangeAll f.pivots a) i)

variable {tolerance : α} {a : Square α n} {f : Factorization α n} {r : Fin n}
variable {v : Elimination α n}

omit [IsStrictOrderedRing α] in
lemma Elimination.Compares.scale_eq_scaleAt (h : Compares tolerance a f r v) {i : Fin n}
    (hi : r ≤ i) : v.scale.get i = f.scaleAt a (destination f.pivots r r.isLt.le i) := by
  rw [h.scale_eq i hi, Factorization.scaleAt]
  unfold toMatrix
  rw [get_exchangeAll_destination]

/-- What a step compares, read off the finished lower triangle. -/
lemma Elimination.Compares.offer_eq (h : Compares tolerance a f r v) {i : Fin n} (hi : r ≤ i)
    (hscale : ∀ i, 0 < f.scaleAt a i) :
    |reduced v.lu i r r / v.scale.get i| =
      |lower f.lu (destination f.pivots r r.isLt.le i) r| /
        f.scaleAt a (destination f.pivots r r.isLt.le i) := by
  rw [h.column_eq i hi, h.scale_eq_scaleAt hi, abs_div, abs_of_pos (hscale _)]

/-- **Scaled partial pivoting**: each pivot is above the tolerance in proportion to the scale of
its row, no row that was left offered more in proportion to its own, and a step takes the first of
the best. The elimination in place, which writes one scale over another in each step, still finds
the scale of each row that is left where that row stands. -/
theorem pivots_scaled_of_factorize (htol : 0 ≤ tolerance) (h : factorize tolerance a = .ok f) :
    (∀ r, tolerance * f.scaleAt a r < |lower f.lu r r|) ∧
      (∀ r i, r ≤ i →
        |lower f.lu i r| * f.scaleAt a r ≤ |lower f.lu r r| * f.scaleAt a i) ∧
      factorizeInPlace tolerance a = .ok f ∧
      ∀ r : Fin n, ∃ s v, scales tolerance a = .ok s ∧
        stepsBy (stepInPlace tolerance) (.start a s) r r.isLt.le = .ok v ∧
        v.Compares tolerance a f r := by
  obtain ⟨s, w, hs, hw, rfl⟩ := factorize_ok h
  set f : Factorization α n := ⟨w.lu, w.pivots⟩
  have hge (m : Fin n) : m ≤ f.pivots.get m := (factored_steps htol le_rfl hw).pivot_ge m m.isLt
  have hscale (i : Fin n) : 0 < f.scaleAt a i := by
    have hrow : f.scaleAt a i = greatest (a.get (origin f.pivots n le_rfl i)) := by
      rw [greatest_eq_supNorm, ← get_exchangeFirst]
      rfl
    rw [hrow]
    exact htol.trans_lt ((scales_ok hs).2 _)
  -- a pivot stands in its place once it is taken
  have hplace (r : Fin n) : destination f.pivots r r.isLt.le (f.pivots.get r) = r :=
    destination_pivot hge r
  refine ⟨fun r => ?_, fun r i hi => ?_, (factorizeInPlace_eq tolerance a).trans h, fun r => ?_⟩
  · obtain ⟨v, -, hv⟩ := exists_compares htol hs hw r
    have habove := hv.above
    rwa [hv.offer_eq (hge r) hscale, hplace, lt_div_iff₀ (hscale r)] at habove
  · obtain ⟨v, -, hv⟩ := exists_compares htol hs hw r
    obtain ⟨j, rfl⟩ := (destination f.pivots r r.isLt.le).surjective i
    have hj : r ≤ j := (le_destination_iff hge _).mp hi
    have hbest := hv.pivot_isLeast.1.2 j hj
    rwa [hv.offer_eq hj hscale, hv.offer_eq (hge r) hscale, hplace,
      div_le_div_iff₀ (hscale _) (hscale r)] at hbest
  · obtain ⟨v, hv, hcompares⟩ := exists_compares htol hs hw r
    have hlockstep := Elimination.lockstep_stepsInPlace tolerance (.start a s) r r.isLt.le
    rw [hv] at hlockstep
    obtain ⟨v', hv', hsame⟩ := hlockstep.exists_of_ok
    exact ⟨s, v', hs, hv', hcompares.of_sameFrom hsame⟩

/-- The first row is moved in each of two steps. By the scale of the row whose place it is given in
the first it would not be the pivot of the second. -/
theorem pivots_scaled_of_exchanges :
    factorize (0 : ℚ) #v[#v[0, -1, -1], #v[4, 0, 5], #v[-2, -2, 0]] =
        .ok ⟨#v[#v[-2, 1, 0], #v[0, -1, 1], #v[4, -4, 9]], #v[2, 2, 2]⟩ ∧
      ∀ r i : Fin 3, r ≤ i →
        let a : Square ℚ 3 := #v[#v[0, -1, -1], #v[4, 0, 5], #v[-2, -2, 0]]
        let f : Factorization ℚ 3 := ⟨#v[#v[-2, 1, 0], #v[0, -1, 1], #v[4, -4, 9]], #v[2, 2, 2]⟩
        |lower f.lu i r| * f.scaleAt a r ≤ |lower f.lu r r| * f.scaleAt a i := by
  have h : factorize (0 : ℚ) #v[#v[0, -1, -1], #v[4, 0, 5], #v[-2, -2, 0]] =
      .ok ⟨#v[#v[-2, 1, 0], #v[0, -1, 1], #v[4, -4, 9]], #v[2, 2, 2]⟩ := by cbv
  exact ⟨h, (pivots_scaled_of_factorize le_rfl h).2.1⟩

end Scaled

end Simultaneous.Solver
