import Mathlib
import Simultaneous.Proofs.Frames
import Simultaneous.Proofs.Renaming
import Simultaneous.Solve

/-!
Names that are only compared.

Two runs, one over lines and one over the lines with other names, go side by side as long as
different names stay different. The sessions differ in the places of faults and the lengths of lines
only, the systems in their names only, and the solver does not see the names at all.
-/

namespace Simultaneous

open Equation
open Number (OfDecimal RatioOrder)
open Solver (Settings)

variable {α : Type}

/-! ### Systems -/

lemma Equation.renameRun_injective {ρ : Name → Name} (hρ : Function.Injective ρ) :
    Function.Injective (renameRun ρ) := by
  intro cs ds h
  by_cases hcs : IsName cs
  · by_cases hds : IsName ds
    · rw [renameRun_of_isName hcs, renameRun_of_isName hds] at h
      exact congrArg Subtype.val (hρ (Subtype.ext h))
    · have hname := isName_renameRun (ρ := ρ) hcs
      rw [h, renameRun, dif_neg hds] at hname
      exact absurd hname hds
  · by_cases hds : IsName ds
    · have hname := isName_renameRun (ρ := ρ) hds
      rw [← h, renameRun, dif_neg hcs] at hname
      exact absurd hname hcs
    · rwa [renameRun, renameRun, dif_neg hcs, dif_neg hds] at h

lemma Equation.renameName_injective {ρ : Name → Name} (hρ : Function.Injective ρ) :
    Function.Injective (renameName ρ) := by
  intro s t h
  exact String.toList_injective (renameRun_injective hρ (String.ofList_injective h))

namespace LinearSystem

def rename (f : String → String) (s : LinearSystem α) : LinearSystem α :=
  { s with names := s.names.map f }

variable {f : String → String} (hf : Function.Injective f) (s : LinearSystem α)

lemma variableCount_rename : (s.rename f).variableCount = s.variableCount :=
  List.length_map f

include hf

lemma column_rename (name : String) : (s.rename f).column (f name) = s.column name := by
  obtain ⟨matrix, rhs, names, count⟩ := s
  rw [column, column, rename]
  dsimp only
  induction names with
  | nil => rfl
  | cons other names ih => rw [List.map_cons, List.idxOf_cons, List.idxOf_cons, ih, hf.beq_eq]

lemma declare_rename (name : String) :
    (s.rename f).declare (f name) = (s.declare name).rename f := by
  have hmem : f name ∈ (s.rename f).names ↔ name ∈ s.names := List.mem_map_of_injective hf
  by_cases hname : name ∈ s.names
  · rw [declare, declare, if_pos hname, if_pos (hmem.mpr hname)]
  · rw [declare, declare, if_neg hname, if_neg (mt hmem.mp hname)]
    simp only [rename, List.map_append, List.map_singleton]

variable [One α] [Add α] [Neg α] [OfDecimal α]

lemma enter_rename (row : ℕ) (e : Entry) :
    (s.rename f).enter row (e.rename f) = (s.enter row e).rename f := by
  obtain ⟨negative, quantity⟩ := e
  cases quantity with
  | constant l => rfl
  | multiple l name =>
    simp only [enter, Entry.rename, Quantity.rename, s.declare_rename hf,
      (s.declare name).column_rename hf]
    cases l <;> rfl

lemma foldl_enter_rename (row : ℕ) (es : List Entry) :
    (es.map (Entry.rename f)).foldl (·.enter row ·) (s.rename f) =
      (es.foldl (·.enter row ·) s).rename f := by
  induction es generalizing s with
  | nil => rfl
  | cons e es ih =>
    rw [List.map_cons, List.foldl_cons, List.foldl_cons, s.enter_rename hf, ih]

/-- What a line with other names leaves in the system with other names. -/
lemma absorb_rename (row : ℕ) {r r' : Reading}
    (hentries : r'.entries = r.entries.map (Entry.rename f))
    (hresult : r'.result = .ok .complete ↔ r.result = .ok .complete)
    (hequations : r'.session.equations = r.session.equations) :
    (s.rename f).absorb row r' = (s.absorb row r).rename f := by
  rw [absorb_eq, absorb_eq, hentries, s.foldl_enter_rename hf]
  by_cases hcomplete : r.result = .ok .complete
  · rw [if_pos hcomplete, if_pos (hresult.mpr hcomplete), hequations]
    rfl
  · rw [if_neg hcomplete, if_neg (mt hresult.mp hcomplete)]

end LinearSystem

/-! ### Solutions -/

def Solution.rename (f : String → String) (s : Solution α) : Solution α :=
  ⟨s.values.map fun (name, value) => (f name, value)⟩

/-- The solver does not see the names. -/
lemma LinearSystem.solve_rename [Zero α] [One α] [Add α] [Sub α] [Mul α] [Div α] [Neg α] [LT α]
    [DecidableLT α] [LE α] [DecidableLE α] [RatioOrder α] (settings : Settings α)
    (f : String → String) (s : LinearSystem α) :
    ((s.rename f).solve settings).value =
      (s.solve settings).value.map (Solution.rename f) := by
  rw [solve, solve, variableCount_rename]
  change Logged.value (if s.equationCount < s.variableCount then _ else
    if s.variableCount < s.equationCount then _ else _) = _
  split_ifs
  · rfl
  · rfl
  dsimp only [rename]
  cases (Solver.new settings).setup s.equationCount s.matrix with
  | error e => rfl
  | ok solver =>
    dsimp only
    rw [Logged.value_bind, Logged.value_bind]
    cases (solver.solve s.matrix s.rhs).value.2 with
    | error e => rfl
    | ok x =>
      refine congrArg Except.ok (congrArg Solution.mk ?_)
      exact List.ext_getElem (by simp) (by simp)

/-! ### Sessions -/

namespace Equation

/-- The status under which an answer is known. -/
def Status.ofAnswer : Except ParseError Status → Status
  | .ok status => status
  | .error e => .fault e.fault

def Call.rename (ρ : Name → Name) : Call → Call
  | .parse line => .parse (Equation.rename ρ line)
  | .finish => .finish
  | .reset => .reset

namespace Session

/-- The status that each of the calls in turn is answered with. -/
def statuses (s : Session) : List Call → List Status
  | [] => []
  | c :: calls => .ofAnswer (s.call c).2 :: (s.call c).1.statuses calls

/-- The sessions differ in the place of the last fault and the length of the last line only. -/
structure Parallel (s t : Session) : Prop where
  limits_eq : s.limits = t.limits
  phase_eq : s.phase = t.phase
  equations_eq : s.equations = t.equations
  status_eq : s.status = t.status

lemma parallel_refl (s : Session) : s.Parallel s := ⟨rfl, rfl, rfl, rfl⟩

variable {s t : Session} {ρ : Name → Name}

lemma status_note (s : Session) (r : Except ParseError Status) :
    (s.note r).status = .ofAnswer r := by
  cases r <;> rfl

lemma Parallel.entries_read (h : s.Parallel t) (line : List Char) :
    (t.read (rename ρ line)).entries =
      (s.read line).entries.map (Entry.rename (renameName ρ)) := by
  rw [read, read, ← h.limits_eq, ← h.phase_eq, scan_rename]

lemma Parallel.result_read (h : s.Parallel t) (line : List Char) :
    (t.read (rename ρ line)).result.mapError ParseError.fault =
      (s.read line).result.mapError ParseError.fault := by
  rw [read, read, ← h.limits_eq, ← h.phase_eq, scan_rename]
  dsimp only
  cases (scan s.limits s.phase line).offence with
  | some o => rfl
  | none => cases (scan s.limits s.phase line).phase.lineEnd <;> rfl

lemma eq_ok_congr {ε ε' β : Type} {φ : ε → ε'} {x y : Except ε β}
    (h : x.mapError φ = y.mapError φ) (b : β) : x = .ok b ↔ y = .ok b := by
  rw [← mapError_eq_ok_iff (x := x), h, mapError_eq_ok_iff]

lemma ofAnswer_map_congr {β : Type} {x y : Except ParseError β} (φ : β → Status)
    (h : x.mapError ParseError.fault = y.mapError ParseError.fault) :
    Status.ofAnswer (x.map φ) = .ofAnswer (y.map φ) := by
  cases x <;> cases y <;> simp_all [Except.mapError, Except.map, Status.ofAnswer]

lemma status_call (s : Session) (c : Call) : (s.call c).1.status = .ofAnswer (s.call c).2 := by
  cases c with
  | parse line => exact status_note _ _
  | finish => exact status_note _ _
  | reset => rfl

lemma Parallel.ofAnswer_call (h : s.Parallel t) (c : Call) :
    Status.ofAnswer (t.call (c.rename ρ)).2 = .ofAnswer (s.call c).2 := by
  cases c with
  | parse line => exact ofAnswer_map_congr LineEnd.status (h.result_read line)
  | finish =>
    simp only [Session.call, Call.rename, Session.finish, h.phase_eq]
    cases t.phase <;> rfl
  | reset => rfl

/-- The sessions stay side by side if the renamed line is read in place of the line. -/
lemma Parallel.call (h : s.Parallel t) (c : Call) :
    (s.call c).1.Parallel (t.call (c.rename ρ)).1 := by
  have hstatus : (s.call c).1.status = (t.call (c.rename ρ)).1.status := by
    rw [status_call, status_call, h.ofAnswer_call]
  cases c with
  | parse line =>
    have hcomplete := eq_ok_congr (h.result_read (ρ := ρ) line) LineEnd.complete
    refine ⟨?_, ?_, ?_, hstatus⟩
    · exact (limits_read s line).trans (h.limits_eq.trans (limits_read t _).symm)
    · simp only [Session.call, Call.rename, phase_read, hcomplete, ← h.limits_eq, ← h.phase_eq,
        scan_rename]
    · simp only [Session.call, Call.rename, equations_read, hcomplete, h.equations_eq]
  | finish =>
    refine ⟨?_, ?_, ?_, hstatus⟩
    · exact (limits_note _ _).trans (h.limits_eq.trans (limits_note _ _).symm)
    · exact (phase_note _ _).trans (h.phase_eq.trans (phase_note _ _).symm)
    · exact (equations_note _ _).trans (h.equations_eq.trans (equations_note _ _).symm)
  | reset =>
    refine ⟨h.limits_eq, rfl, rfl, hstatus⟩

lemma Parallel.statuses (h : s.Parallel t) (calls : List Call) :
    t.statuses (calls.map (Call.rename ρ)) = s.statuses calls := by
  induction calls generalizing s t with
  | nil => rfl
  | cons c calls ih =>
    rw [List.map_cons, Session.statuses, Session.statuses, h.ofAnswer_call, ih (h.call c)]

end Session

end Equation

/-! ### Drafts -/

namespace Draft

variable [One α] [Add α] [Neg α] [OfDecimal α]

/-- The drafts stand where two runs stand of which the second one has the other names. -/
structure Parallel (f : String → String) (d d' : Draft α) : Prop where
  session : d.session.Parallel d'.session
  system : d'.system = d.system.rename f

variable {ρ : Name → Name} {d d' : Draft α}

lemma Parallel.call (hρ : Function.Injective ρ) (h : d.Parallel (renameName ρ) d') (c : Call) :
    (d.call c).Parallel (renameName ρ) (d'.call (c.rename ρ)) := by
  constructor
  · rw [session_call, session_call]
    exact h.session.call c
  · cases c with
    | parse line =>
      have hcomplete := Session.eq_ok_congr (h.session.result_read (ρ := ρ) line) LineEnd.complete
      have hequations : (d'.session.read (rename ρ line)).session.equations =
          (d.session.read line).session.equations := by
        rw [Session.equations_read, Session.equations_read, ← h.session.equations_eq]
        simp only [hcomplete]
      refine (system_feed d' _).trans ?_
      rw [h.system, ← h.session.equations_eq]
      exact d.system.absorb_rename (renameName_injective hρ) _ (h.session.entries_read line)
        hcomplete hequations
    | finish => exact h.system
    | reset => exact h.system

lemma Parallel.after (hρ : Function.Injective ρ) (h : d.Parallel (renameName ρ) d')
    (calls : List Call) :
    (d.after calls).Parallel (renameName ρ) (d'.after (calls.map (Call.rename ρ))) := by
  induction calls generalizing d d' with
  | nil => exact h
  | cons c calls ih => exact ih (h.call hρ c)

/-- **Names matter only through equality.** Other names that are different where the names are
different leave every status, whatever calls a session gets. The system has the same matrix,
right-hand side and number of equations, with the other names in the same columns, and the solver
finds the same values in the same order, or fails in the same way. -/
theorem rename_calls [Zero α] [Sub α] [Mul α] [Div α] [LT α] [DecidableLT α] [LE α] [DecidableLE α]
    [RatioOrder α] (limits : Limits) (ρ : Name ↪ Name) (calls : List Call) :
    let others := calls.map (Call.rename ρ)
    let s : LinearSystem α := ((fresh limits).after calls).system
    let s' : LinearSystem α := ((fresh limits).after others).system
    (Session.fresh limits).statuses others = (Session.fresh limits).statuses calls ∧
      s'.matrix = s.matrix ∧ s'.rhs = s.rhs ∧ s'.equationCount = s.equationCount ∧
      s'.names = s.names.map (renameName ρ) ∧
      ∀ settings, (s'.solve settings).value =
        (s.solve settings).value.map (Solution.rename (renameName ρ)) := by
  intro others s s'
  have hfresh : (fresh limits : Draft α).Parallel (renameName ρ) (fresh limits) :=
    ⟨Session.parallel_refl _, rfl⟩
  have hsystem : s' = s.rename (renameName ρ) := (hfresh.after ρ.injective calls).system
  rw [hsystem]
  exact ⟨(Session.parallel_refl _).statuses calls, rfl, rfl, rfl, rfl,
    fun settings => s.solve_rename settings _⟩

end Draft

end Simultaneous
