import Mathlib
import Simultaneous.Proofs.Passes
import Simultaneous.Proofs.Stages

/-!
Refinement as a loop.

Nothing in a loop says that it ends. This one carries the solution and what it lacks from turn to
turn, assigns the counters of the solver as it goes, writes the log, and stops at one of three
places of a turn. It stops whatever the arithmetic makes of the ratios, as every turn that goes on
uses up one of the passes that are allowed, and what it has assigned and written by then is what a
solution is said to come with.
-/

namespace Simultaneous.Solver

open Number (Ratio RatioOrder exceeds reaches)

/-! ### Loops -/

inductive Turn (σ ρ : Type) where
  | next (state : σ)
  | done (result : ρ)

section Loops

variable {σ ρ : Type} {turn : σ → Turn σ ρ} {s t : σ} {r r' : ρ} {k k' : ℕ}

/-- The loop ends with the result after so many turns. -/
inductive Takes (turn : σ → Turn σ ρ) : ℕ → σ → ρ → Prop where
  | done {s : σ} {r : ρ} (h : turn s = .done r) : Takes turn 1 s r
  | next {s t : σ} {r : ρ} {k : ℕ} (h : turn s = .next t) (more : Takes turn k t r) :
    Takes turn (k + 1) s r

lemma Takes.unique (h : Takes turn k s r) (h' : Takes turn k' s r') : k' = k ∧ r' = r := by
  induction h generalizing k' with
  | done h =>
    cases h' with
    | done h' => exact ⟨rfl, Turn.done.inj (h'.symm.trans h)⟩
    | next h' => exact nomatch h'.symm.trans h
  | next h more ih =>
    cases h' with
    | done h' => exact nomatch h'.symm.trans h
    | next h' more' =>
      obtain rfl := Turn.next.inj (h'.symm.trans h)
      obtain ⟨rfl, rfl⟩ := ih more'
      exact ⟨rfl, rfl⟩

/-- A loop that goes through states one after the other and ends at the last of them. -/
lemma takes_of_states (state : ℕ → σ) (hnext : ∀ j < k, turn (state j) = .next (state (j + 1)))
    (hdone : turn (state k) = .done r) : Takes turn (k + 1) (state 0) r := by
  induction k generalizing state with
  | zero => exact .done hdone
  | succ k ih =>
    refine .next (hnext 0 k.succ_pos) (ih (fun j => state (j + 1)) (fun j hj => ?_) hdone)
    exact hnext (j + 1) (Nat.succ_lt_succ hj)

end Loops

/-! ### The loop of a refinement -/

variable {α : Type} {n : ℕ} [Zero α] [One α] [Add α] [Sub α] [Mul α] [Div α] [Neg α] [LT α]
  [DecidableLT α] [RatioOrder α]

/-- What a solution comes to, with its log. -/
abbrev Solved (α : Type) := Logged (Record α) (Solver α × Except Failure (Sparse ℕ α))

/-- The loop between two passes. -/
structure Loop (α : Type) (n : ℕ) where
  /-- The solver, with the counters that are assigned so far. -/
  solver : Solver α
  passes : ℕ
  x : Vector α n
  /-- What the next correction has to make up for. -/
  lacking : Vector α n
  log : List (Record α)

/-- One pass. The first correction of all has nothing to be weighed against. -/
def Loop.turn (f : Factorization α n) (a : Square α n) (b : Vector α n) (l : Loop α n) :
    Turn (Loop α n) (Solved α) :=
  let settings := l.solver.settings
  let e := f.solve l.lacking
  let pass : Pass α := ⟨greatest l.x, greatest e⟩
  let first := l.passes == 0
  let log := if first then l.log else l.log ++ [.pass l.passes pass]
  if l.passes = 1 && exceeds pass.ratio settings.illConditionedRatio then
    .done ⟨(l.solver, .error (.illConditioned .inaccurateDecomposition)), log ++ [.distrusted]⟩
  else
    let converged := !first && !reaches pass.ratio settings.convergenceRatio
    let x := correct l.x e
    let solver : Solver α :=
      { l.solver with
        iterations := l.passes + 1
        ratio := if first then l.solver.ratio else pass.ratio }
    if converged || n = 0 then .done ⟨(solver, .ok (toSparse x)), log⟩
    else if settings.maxIterations < l.passes + 1 then
      .done ⟨(solver, .error (.illConditioned (.noConvergence settings.maxIterations))),
        log ++ [.unconverged settings.maxIterations]⟩
    else .next ⟨solver, l.passes + 1, x, residual a b x, log⟩

/-- The loop before its first pass. -/
def loopStart (s : Solver α) (b : Sparse ℕ α) : Loop α s.dim where
  solver := { s with iterations := 0, ratio := 0 }
  passes := 0
  x := Vector.replicate s.dim 0
  lacking := segment s.dim b
  log := []

/-! ### The states of the loop -/

section States

variable {f : Factorization α n} {a : Square α n} {b : Vector α n} {s : Solver α} {k : ℕ}

/-- What the log says of the first passes that weigh a correction. -/
def passRecords (f : Factorization α n) (a : Square α n) (b : Vector α n) (k : ℕ) :
    List (Record α) :=
  (List.range' 1 k).map fun j => .pass j (passAt f a b j)

/-- The counters once `k` passes are made. The first pass assigns no ratio. -/
def counting (s : Solver α) (f : Factorization α n) (a : Square α n) (b : Vector α n) (k : ℕ) :
    Solver α :=
  { s with iterations := k, ratio := if k ≤ 1 then 0 else (passAt f a b (k - 1)).ratio }

/-- The loop once `k` passes are made. -/
def loopAt (s : Solver α) (f : Factorization α n) (a : Square α n) (b : Vector α n) (k : ℕ) :
    Loop α n where
  solver := s.counting f a b k
  passes := k
  x := approximation f a b k
  lacking := lacking a b (approximation f a b k) k
  log := passRecords f a b (k - 1)

omit [One α] [RatioOrder α] in
lemma passRecords_succ (f : Factorization α n) (a : Square α n) (b : Vector α n) (k : ℕ) :
    passRecords f a b k ++ [.pass (k + 1) (passAt f a b (k + 1))] = passRecords f a b (k + 1) := by
  rw [passRecords, passRecords, List.range'_1_concat, List.map_append, Nat.add_comm 1 k]
  rfl

/-- The first pass is the last one only if there is nothing to correct or no other is allowed. -/
lemma turn_first :
    (loopAt s f a b 0).turn f a b =
      if n = 0 then .done ⟨(s.counting f a b 1, .ok (toSparse (approximation f a b 1))), []⟩
      else if s.settings.maxIterations = 0 then
        .done ⟨(s.counting f a b 1, .error (.illConditioned (.noConvergence 0))), [.unconverged 0]⟩
      else .next (loopAt s f a b 1) := by
  have hturn : (loopAt s f a b 0).turn f a b =
      if (false || n = 0) = true then
        .done ⟨(s.counting f a b 1, .ok (toSparse (approximation f a b 1))), []⟩
      else if s.settings.maxIterations < 1 then
        .done ⟨(s.counting f a b 1,
          .error (.illConditioned (.noConvergence s.settings.maxIterations))),
          [.unconverged s.settings.maxIterations]⟩
      else .next (loopAt s f a b 1) := rfl
  rw [hturn]
  refine ite_congr (by simp) (fun _ => rfl) fun _ => ?_
  cases s.settings.maxIterations with
  | zero => rfl
  | succ m => rfl

/-- A pass that weighs its correction gives up on it, goes on to the next one, or is the last. -/
lemma turn_later (hn : n ≠ 0) :
    (loopAt s f a b (k + 1)).turn f a b =
      if k + 1 = 1 && exceeds (passAt f a b (k + 1)).ratio s.settings.illConditionedRatio then
        .done ⟨(s.counting f a b (k + 1), .error (.illConditioned .inaccurateDecomposition)),
          passRecords f a b (k + 1) ++ [.distrusted]⟩
      else if reaches (passAt f a b (k + 1)).ratio s.settings.convergenceRatio then
        if s.settings.maxIterations < k + 2 then
          .done ⟨(s.counting f a b (k + 2),
              .error (.illConditioned (.noConvergence s.settings.maxIterations))),
            passRecords f a b (k + 1) ++ [.unconverged s.settings.maxIterations]⟩
        else .next (loopAt s f a b (k + 2))
      else
        .done ⟨(s.counting f a b (k + 2), .ok (toSparse (approximation f a b (k + 2)))),
          passRecords f a b (k + 1)⟩ := by
  have hlog : (loopAt s f a b (k + 1)).log ++ [.pass (k + 1) (passAt f a b (k + 1))] =
      passRecords f a b (k + 1) := passRecords_succ f a b k
  rw [← hlog, Loop.turn]
  refine ite_congr rfl (fun _ => rfl) fun _ => ?_
  cases hreach : reaches (passAt f a b (k + 1)).ratio s.settings.convergenceRatio with
  | true =>
    have hgoes : ¬((!reaches (passAt f a b (k + 1)).ratio s.settings.convergenceRatio) ||
        decide (n = 0)) = true := by simp [hreach, hn]
    have hnext : loopAt s f a b (k + 2) =
        { loopAt s f a b (k + 2) with
          log := (loopAt s f a b (k + 1)).log ++ [.pass (k + 1) (passAt f a b (k + 1))] } := by
      rw [hlog]
      rfl
    rw [hnext]
    exact if_neg hgoes
  | false =>
    have hstops : ((!reaches (passAt f a b (k + 1)).ratio s.settings.convergenceRatio) ||
        decide (n = 0)) = true := by simp [hreach]
    exact if_pos hstops

/-! ### All turns -/

variable {r : Refinement α n}

/-- The answer that a refinement stands for. -/
def answer (s : Solver α) (r : Refinement α n) : Solved α where
  value := ({ s with iterations := r.iterations, ratio := r.ratio },
    (r.outcome.map toSparse).mapError .illConditioned)
  log := r.records

/-- The number of turns that a refinement takes. -/
def turns (r : Refinement α n) : ℕ :=
  match r.outcome with
  | .error .inaccurateDecomposition => 2
  | _ => r.iterations

omit [One α] [RatioOrder α] in
lemma mapIdx_passes (f : Factorization α n) (a : Square α n) (b : Vector α n) (k : ℕ) :
    ((List.range' 1 k).map (passAt f a b)).mapIdx (fun i sizes => Record.pass (i + 1) sizes) =
      passRecords f a b k := by
  refine List.ext_getElem (by simp [passRecords]) fun i _ _ => ?_
  simp [passRecords, Nat.add_comm]

/-- The loop ends in its first turn if there is nothing to correct. -/
lemma takes_of_eq_zero (hzero : n = 0) : Takes (Loop.turn f a b) 1 (loopAt s f a b 0)
    (answer s ⟨.ok (approximation f a b 1), 1, 0, []⟩) :=
  .done (turn_first.trans (if_pos hzero))

variable (hn : n ≠ 0)

include hn

/-- The loop goes on behind a pass that reaches the convergence ratio, as long as it may. -/
lemma turn_next (htrusted : exceeds (passAt f a b 1).ratio s.settings.illConditionedRatio = false)
    (hk : k < s.settings.maxIterations)
    (hreach : 1 ≤ k → reaches (passAt f a b k).ratio s.settings.convergenceRatio = true) :
    (loopAt s f a b k).turn f a b = .next (loopAt s f a b (k + 1)) := by
  cases k with
  | zero => rw [turn_first, if_neg hn, if_neg (by omega)]
  | succ k =>
    rw [turn_later hn, if_neg (skips_of_trusted fun _ => htrusted),
      if_pos (hreach (Nat.le_add_left 1 k)), if_neg (by omega)]

/-- **The loop ends** as the refinement does. -/
lemma takes_of_ends (h : Ends s.settings f a b r) :
    Takes (Loop.turn f a b) (turns r) (loopAt s f a b 0) (answer s r) := by
  cases h with
  | forbidden hnone => exact .done (turn_first.trans ((if_neg hn).trans (if_pos hnone)))
  | distrusted hsome hlarge =>
    refine takes_of_states (k := 1) (loopAt s f a b) (fun j hj => ?_) ?_
    · obtain rfl : j = 0 := Nat.lt_one_iff.mp hj
      rw [turn_first, if_neg hn, if_neg (by omega)]
    · rw [turn_later hn, if_pos (by simpa using hlarge)]
      rfl
  | @converged k hpos hallowed htrusted hbefore hstops =>
    refine takes_of_states (k := k) (loopAt s f a b) (fun j hj => ?_) ?_
    · exact turn_next hn htrusted (hj.trans_le hallowed) fun hone => hbefore j hone hj
    · obtain ⟨m, rfl⟩ := Nat.exists_eq_succ_of_ne_zero (Nat.ne_of_gt hpos)
      rw [turn_later hn, if_neg (skips_of_trusted fun _ => htrusted), hstops,
        if_neg Bool.false_ne_true, answer, Refinement.records, mapIdx_passes, List.append_nil]
      rfl
  | exhausted hsome htrusted hall =>
    refine takes_of_states (k := s.settings.maxIterations) (loopAt s f a b) (fun j hj => ?_) ?_
    · exact turn_next hn htrusted hj fun hone => hall j hone hj.le
    · obtain ⟨m, hm⟩ := Nat.exists_eq_succ_of_ne_zero (Nat.ne_of_gt hsome)
      have hreach := hall _ hsome le_rfl
      rw [answer, Refinement.records, mapIdx_passes]
      rw [hm] at hreach ⊢
      rw [turn_later hn, if_neg (skips_of_trusted fun _ => htrusted), if_pos hreach,
        if_pos (by omega), hm]
      rfl

end States

/-! ### What the counters say -/

/-- The number under which the log gives a pass. -/
def passIndex? : Record α → Option ℕ
  | .pass index _ => some index
  | _ => none

/-- The counters and the log of a solution that took so many passes. -/
structure Accounts (s : Solver α) (passes : ℕ) (solved : Solved α) : Prop where
  passes_le : passes ≤ s.settings.maxIterations + 1
  /-- There is nothing to weigh the first correction against. -/
  log_eq : solved.log.filterMap passIndex? = List.range' 1 (passes - 1)
  warning_iff : (∃ w ∈ solved.log, w.level = "WARN") ↔ ∃ e, solved.value.2 = .error e
  empty : s.dim = 0 → passes = 1 ∧ solved.value.2 = .ok (.empty 0) ∧ solved.value.1.iterations = 1
  converged : s.dim ≠ 0 → ∀ x, solved.value.2 = .ok x →
    solved.value.1.iterations = passes ∧ 2 ≤ solved.value.1.iterations ∧
      reaches solved.value.1.ratio s.settings.convergenceRatio = false
  exhausted : ∀ k, solved.value.2 = .error (.illConditioned (.noConvergence k)) →
    k = s.settings.maxIterations ∧ solved.value.1.iterations = passes ∧
      passes = s.settings.maxIterations + 1 ∧
      (1 ≤ s.settings.maxIterations →
        reaches solved.value.1.ratio s.settings.convergenceRatio = true)
  distrusted : solved.value.2 = .error (.illConditioned .inaccurateDecomposition) →
    passes = 2 ∧ solved.value.1.iterations = 1 ∧ solved.value.1.ratio = 0

section Accounts

variable {f : Factorization α n} {a : Square α n} {b : Vector α n} {s : Solver α}
  {r : Refinement α n}

omit [Zero α] [One α] [Add α] [Sub α] [Mul α] [Div α] [Neg α] [LT α] [DecidableLT α]
  [RatioOrder α] in
/-- A refinement logs each pass that weighs a correction. -/
lemma filterMap_records (r : Refinement α n) :
    r.records.filterMap passIndex? = List.range' 1 r.passes.length := by
  have hpasses (passes : List (Pass α)) :
      (passes.mapIdx fun i sizes => Record.pass (i + 1) sizes).filterMap passIndex? =
        List.range' 1 passes.length := by
    induction passes using List.reverseRecOn with
    | nil => rfl
    | append_singleton passes pass ih =>
      rw [List.mapIdx_concat, List.filterMap_append, ih, List.length_append, List.length_singleton,
        List.range'_1_concat, Nat.add_comm 1]
      rfl
  rw [Refinement.records, List.filterMap_append, hpasses]
  rcases r.outcome with (_ | _ | _) | _ <;> simp [passIndex?]

omit [Zero α] [One α] [Add α] [Sub α] [Mul α] [Div α] [Neg α] [LT α] [DecidableLT α]
  [RatioOrder α] in
/-- A refinement warns of its own failures, and a zero pivot is not one of them. -/
lemma warns_iff (r : Refinement α n) : (∃ w ∈ r.records, w.level = "WARN") ↔
    ∃ e, r.outcome = .error e ∧ ∀ column, e ≠ .zeroPivot column := by
  have hpasses : ¬∃ w ∈ r.passes.mapIdx fun i sizes => Record.pass (i + 1) sizes,
      w.level = "WARN" := by
    simp [Record.level, List.mem_mapIdx]
  simp only [Refinement.records, List.mem_append, or_and_right, exists_or, hpasses, false_or]
  rcases r.outcome with (_ | _ | _) | _ <;> simp [Record.level]

lemma accounts_of_ends (hn : s.dim ≠ 0) (h : Ends s.settings f a b r) :
    s.Accounts (turns r) (answer s r) where
  passes_le := by
    cases h with
    | forbidden => exact Nat.le_add_left 1 _
    | distrusted hsome => exact Nat.succ_le_succ hsome
    | converged _ hallowed => exact Nat.succ_le_succ hallowed
    | exhausted => exact le_rfl
  log_eq := by
    refine (filterMap_records r).trans ?_
    cases h with
    | forbidden => rfl
    | distrusted => rfl
    | converged => simp [turns]
    | exhausted => simp [turns]
  warning_iff := by
    refine (warns_iff r).trans ?_
    cases h <;> simp [answer, Except.map, Except.mapError]
  empty hzero := absurd hzero hn
  converged _ x hx := by
    cases h with
    | forbidden => exact nomatch hx
    | distrusted => exact nomatch hx
    | converged hpos _ _ _ hstops => exact ⟨rfl, Nat.succ_le_succ hpos, hstops⟩
    | exhausted => exact nomatch hx
  exhausted k hk := by
    cases h with
    | forbidden hnone =>
      cases hk
      exact ⟨hnone.symm, rfl, congrArg (· + 1) hnone.symm, fun hone => by omega⟩
    | distrusted => exact nomatch hk
    | converged => exact nomatch hk
    | exhausted hsome _ hall =>
      cases hk
      exact ⟨rfl, rfl, rfl, fun hone => hall _ hone le_rfl⟩
  distrusted he := by
    cases h with
    | forbidden => exact nomatch he
    | distrusted => exact ⟨rfl, rfl, rfl⟩
    | converged => exact nomatch he
    | exhausted => exact nomatch he

omit [One α] [Add α] [Sub α] [Mul α] [Div α] [Neg α] [LT α] [DecidableLT α] [RatioOrder α] in
/-- Nothing is stored for no unknowns. -/
lemma toSparse_of_eq_zero (hn : n = 0) (x : Vector α n) : toSparse x = .empty 0 := by
  subst hn
  rfl

omit [Add α] [Sub α] [Mul α] [Div α] [Neg α] [LT α] [DecidableLT α] in
/-- One pass is all that a system without unknowns takes. -/
lemma accounts_of_eq_zero (hzero : s.dim = 0) (x : Vector α s.dim) :
    s.Accounts 1 (answer s ⟨.ok x, 1, 0, []⟩) where
  passes_le := Nat.le_add_left 1 _
  log_eq := rfl
  warning_iff := by simp [answer, Refinement.records, Except.map, Except.mapError]
  empty _ := ⟨rfl, congrArg Except.ok (toSparse_of_eq_zero hzero x), rfl⟩
  converged hn := absurd hzero hn
  exhausted k hk := nomatch hk
  distrusted he := nomatch he

end Accounts

/-- **The loop ends, and its counters tell the truth.** The loop that starts with a right-hand
side ends after one number of turns and with one result: the solution of the solver, which
accounts for them. -/
theorem loop_accounts (s : Solver α) (a : Sparse (ℕ × ℕ) α) (b : Sparse ℕ α) :
    ∃ passes, s.Accounts passes (s.solve a b) ∧ ∀ k solved,
      Takes (Loop.turn s.factors (block s.dim a) (segment s.dim b)) k (s.loopStart b) solved ↔
        k = passes ∧ solved = s.solve a b := by
  obtain ⟨passes, haccounts, htakes⟩ : ∃ passes, s.Accounts passes (s.solve a b) ∧
      Takes (Loop.turn s.factors (block s.dim a) (segment s.dim b)) passes (s.loopStart b)
        (s.solve a b) := by
    change ∃ passes, s.Accounts passes (answer s (s.refinement a b)) ∧
      Takes _ passes (loopAt s s.factors (block s.dim a) (segment s.dim b) 0)
        (answer s (s.refinement a b))
    by_cases hn : s.dim = 0
    · rw [refinement, refine_of_eq_zero hn]
      exact ⟨1, accounts_of_eq_zero hn _, takes_of_eq_zero hn⟩
    · have hends := refine_ends hn s.settings s.factors (block s.dim a) (segment s.dim b)
      exact ⟨_, accounts_of_ends hn hends, takes_of_ends hn hends⟩
  refine ⟨passes, haccounts, fun k solved => ⟨htakes.unique, ?_⟩⟩
  rintro ⟨rfl, rfl⟩
  exact htakes

end Simultaneous.Solver
