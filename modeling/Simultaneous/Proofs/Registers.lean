import Mathlib
import Simultaneous.Proofs.FiniteMaps
import Simultaneous.Sparse.Store

/-!
Stores of sparse maps against registers of finite maps.

A register holds a finite map. An instruction puts another finite map into one register and leaves
the others alone, or asks something of one register. A store is run beside the registers: whatever
was done before, its maps store what the registers hold, and its answers are those of the registers.
-/

namespace Simultaneous.Sparse

open Std (TreeMap TransOrd LawfulEqOrd)

variable {ι κ α : Type}

/-- Finite maps by name. -/
abbrev Registers (κ α : Type) := String → FiniteMap κ α

/-- Instructions in turn, each with the name of the map that it works on. -/
abbrev History (κ α : Type) := List (String × Instruction κ α)

/-! ### Registers -/

namespace Instruction

/-- What an instruction makes of the registers. -/
def effect [DecidableEq κ] [Add α] (regs : Registers κ α) (name : String) :
    Instruction κ α → Registers κ α
  | .new v => Function.update regs name (.empty v)
  | .set k v => Function.update regs name ((regs name).assign k (some v))
  | .add k v => Function.update regs name ((regs name).assign k (some ((regs name).read k + v)))
  | .erase k => Function.update regs name ((regs name).assign k none)
  | .clear => Function.update regs name (.empty (regs name).fallback)
  | .copy source => Function.update regs name (regs source)
  | _ => regs

/-- The answers that the registers allow. Keys and entries may come in any order, but each once. -/
inductive Answers [BEq α] (regs : Registers κ α) (name : String) :
    Instruction κ α → Answer κ α → Prop where
  | new (v : α) : Answers regs name (.new v) .done
  | set (k : κ) (v : α) : Answers regs name (.set k v) .done
  | add (k : κ) (v : α) : Answers regs name (.add k v) .done
  | erase (k : κ) (b : Bool) (h : b = true ↔ k ∈ (regs name).support) :
    Answers regs name (.erase k) (.truth b)
  | clear : Answers regs name .clear .done
  | copy (source : String) : Answers regs name (.copy source) .done
  | get (k : κ) : Answers regs name (.get k) (.value ((regs name).read k))
  | get? (k : κ) : Answers regs name (.get? k) (.stored ((regs name).value? k))
  | contains (k : κ) (b : Bool) (h : b = true ↔ k ∈ (regs name).support) :
    Answers regs name (.contains k) (.truth b)
  | isEmpty (b : Bool) (h : b = true ↔ (regs name).support.ncard = 0) :
    Answers regs name .isEmpty (.truth b)
  | equals (other : String) (b : Bool) (h : b = true ↔ (regs name).Alike (regs other)) :
    Answers regs name (.equals other) (.truth b)
  | keys (ks : List κ) (nodup : ks.Nodup) (mem : ∀ k, k ∈ ks ↔ k ∈ (regs name).support) :
    Answers regs name .keys (.keys ks)
  | entries (es : List (κ × α)) (nodup : (es.map Prod.fst).Nodup)
    (mem : ∀ k v, (k, v) ∈ es ↔ (regs name).value? k = some v) :
    Answers regs name .entries (.entries es)

/-- The instructions that only ask. -/
def IsQuery : Instruction κ α → Prop
  | .get _ | .get? _ | .contains _ | .isEmpty | .equals _ | .keys | .entries => True
  | _ => False

/-- The key of the one entry that an instruction changes. -/
def key? : Instruction κ α → Option κ
  | .set k _ | .add k _ | .erase k => some k
  | _ => none

end Instruction

/-- Every register holds the empty map with fallback 0 at first. -/
def Registers.initial [Zero α] : Registers κ α := fun _ => .empty 0

def Registers.after [DecidableEq κ] [Add α] (regs : Registers κ α) (history : History κ α) :
    Registers κ α :=
  history.foldl (fun regs p => p.2.effect regs p.1) regs

/-! ### Stores -/

namespace Store

variable [Ord κ] [Zero α]

section Maps

variable (s : Store κ α) (name other : String) (m : Sparse κ α)

lemma get_empty : (empty : Store κ α).get name = .empty 0 := TreeMap.getD_emptyc

lemma get_put : (s.put name m).get other = if name = other then m else s.get other := by
  simp only [get, put, TreeMap.getD_insert, Std.compare_eq_iff_eq]

variable [TransOrd κ] [LawfulEqOrd κ]

/-- What the maps of a store hold. -/
def registers : Registers κ α := fun name => (s.get name).content

lemma registers_empty : (empty : Store κ α).registers = .initial := by
  funext name
  rw [registers, get_empty, content_empty, Registers.initial]

lemma registers_put :
    (s.put name m).registers = Function.update s.registers name m.content := by
  funext other
  rw [registers, get_put, Function.update_apply]
  by_cases h : name = other
  · rw [if_pos h, if_pos h.symm]
  · rw [if_neg h, if_neg (Ne.symm h), registers]

end Maps

variable [Add α] [BEq α] (s : Store κ α) (name : String) (i : Instruction κ α)

/-- The store after instructions in turn. -/
def after (history : History κ α) : Store κ α :=
  history.foldl (fun s p => (s.run p.1 p.2).1) s

/-! ### One instruction -/

lemma run_of_isQuery (h : i.IsQuery) : (s.run name i).1 = s := by
  cases i with
  | get | get? | contains | isEmpty | equals | keys | entries => rfl
  | new | set | add | erase | clear | copy => exact h.elim

/-- An instruction works on one map. -/
lemma get_run_of_ne {other : String} (h : name ≠ other) :
    (s.run name i).1.get other = s.get other := by
  cases i with
  | get | get? | contains | isEmpty | equals | keys | entries => rfl
  | new | set | add | erase | clear | copy => exact (get_put s name other _).trans (if_neg h)

lemma get_run_copy (source : String) :
    (s.run name (.copy source)).1.get name = s.get source :=
  (get_put s name name _).trans (if_pos rfl)

variable [TransOrd κ] [LawfulEqOrd κ]

lemma answers_run : i.Answers s.registers name (s.run name i).2 := by
  cases i with
  | new v => exact .new v
  | set k v => exact .set k v
  | add k v => exact .add k v
  | erase k => exact .erase k _ (contains_iff _ k)
  | clear => exact .clear
  | copy source => exact .copy source
  | get k => exact .get k
  | get? k => exact .get? k
  | contains k => exact .contains k _ (contains_iff _ k)
  | isEmpty => exact .isEmpty _ (by rw [isEmpty_iff, size_eq_ncard, registers])
  | equals other => exact .equals other _ (beq_iff_alike _ _)
  | keys => exact .keys _ (nodup_keys _) fun k => mem_keys_iff_mem_support _ k
  | entries =>
    refine .entries _ ?_ fun k v => mem_toList_iff _ k v
    rw [map_fst_toList]
    exact nodup_keys _

variable [DecidableEq κ]

/-- An instruction does to the maps what it does to the registers. -/
lemma registers_run : (s.run name i).1.registers = i.effect s.registers name := by
  cases i with
  | new v => rw [run, registers_put, content_empty]; rfl
  | set k v => rw [run, registers_put, content_set]; rfl
  | add k v => rw [run, registers_put, content_add]; rfl
  | erase k => rw [run, registers_put, content_erase]; rfl
  | clear => rw [run, registers_put, content_clear]; rfl
  | copy source => rw [run, registers_put]; rfl
  | get | get? | contains | isEmpty | equals | keys | entries => rfl

/-! ### Histories -/

lemma registers_after (history : History κ α) :
    (s.after history).registers = Registers.after s.registers history := by
  induction history generalizing s with
  | nil => rfl
  | cons p history ih =>
    have hstep : (s.after (p :: history)).registers =
        Registers.after (s.run p.1 p.2).1.registers history := ih (s.run p.1 p.2).1
    rw [hstep, registers_run]
    rfl

omit [TransOrd κ] [LawfulEqOrd κ] [DecidableEq κ] in
/-- A map stays as it is as long as no instruction works on it. -/
lemma get_after_of_ne (history : History κ α) (h : ∀ p ∈ history, p.1 ≠ name) :
    (s.after history).get name = s.get name := by
  induction history generalizing s with
  | nil => rfl
  | cons p history ih =>
    obtain ⟨hp, hrest⟩ := List.forall_mem_cons.mp h
    have hstep : (s.after (p :: history)).get name = (s.run p.1 p.2).1.get name :=
      ih (s.run p.1 p.2).1 hrest
    rw [hstep, get_run_of_ne s p.1 p.2 hp]

/-- The maps of a store hold what the registers hold, and will do so. -/
structure Mirrors (s : Store κ α) (regs : Registers κ α) : Prop where
  content : ∀ name, (s.get name).content = regs name
  size : ∀ name, (s.get name).size = (regs name).support.ncard
  answers : ∀ name (i : Instruction κ α), i.Answers regs name (s.run name i).2
  next : ∀ name (i : Instruction κ α), (s.run name i).1.registers = i.effect regs name
  query : ∀ name (i : Instruction κ α), i.IsQuery → (s.run name i).1 = s
  copied : ∀ name source, (s.run name (.copy source)).1.get name = s.get source
  kept : ∀ name (history : History κ α), (∀ p ∈ history, p.1 ≠ name) →
    (s.after history).get name = s.get name
  add : ∀ name k v, ((s.get name).add k v).content =
    (((s.get name).erase k).set k ((s.get name).get k + v)).content

lemma mirrors_registers : s.Mirrors s.registers where
  content _ := rfl
  size name := size_eq_ncard (s.get name)
  answers name i := s.answers_run name i
  next name i := s.registers_run name i
  query := s.run_of_isQuery
  copied := s.get_run_copy
  kept := s.get_after_of_ne
  add name k _ := (content_set_erase (s.get name) k _).symm

end Store

/-! ### Both kinds of keys -/

section Histories

variable [Ord ι] [TransOrd ι] [LawfulEqOrd ι] [DecidableEq ι]
  [Ord κ] [TransOrd κ] [LawfulEqOrd κ] [DecidableEq κ] [Zero α] [Add α] [BEq α]

/-- An instruction on one cell leaves the cells of other rows and of other columns alone. -/
lemma get?_run_of_key?_eq_some (s : Store κ α) (name : String) (i : Instruction κ α) {k a : κ}
    (hkey : i.key? = some k) (hne : k ≠ a) :
    ((s.run name i).1.get name).get? a = (s.get name).get? a := by
  have hcontent := congrFun (Store.registers_run s name i) name
  have hvalue : ((s.run name i).1.get name).get? a = (i.effect s.registers name name).value? a :=
    congrArg (·.value? a) hcontent
  rw [hvalue]
  cases i with
  | set | add | erase =>
    obtain rfl := Option.some.inj hkey
    simp only [Instruction.effect, Function.update_self, FiniteMap.assign,
      Function.update_of_ne hne.symm]
    rfl
  | _ => exact nomatch hkey

/-- **Sparse maps are finite maps** with a fallback, for all that any history of instructions on
any number of them shows, and sparse matrices are those whose keys are pairs: what is done to a
cell touches no other row and no other column. -/
theorem mirrors_after :
    (∀ history : History κ α,
      (Store.empty.after history).Mirrors (Registers.initial.after history)) ∧
    (∀ history : History (ι × κ) α,
      (Store.empty.after history).Mirrors (Registers.initial.after history)) ∧
    ∀ (s : Store (ι × κ) α) (name : String) (i : Instruction (ι × κ) α) (row row' : ι)
      (col col' : κ), i.key? = some (row, col) → row ≠ row' ∨ col ≠ col' →
        ((s.run name i).1.get name).get? (row', col') = (s.get name).get? (row', col') := by
  have hmirrors {κ : Type} [Ord κ] [TransOrd κ] [LawfulEqOrd κ] [DecidableEq κ]
      (history : History κ α) :
      (Store.empty.after history).Mirrors (Registers.initial.after history) := by
    rw [← Store.registers_empty, ← Store.registers_after]
    exact Store.mirrors_registers _
  refine ⟨hmirrors, hmirrors, fun s name i row row' col col' hkey hne => ?_⟩
  refine get?_run_of_key?_eq_some s name i hkey fun heq => ?_
  obtain ⟨hrow, hcol⟩ := Prod.mk.inj heq
  exact hne.elim (· hrow) (· hcol)

/-- A copy of a matrix stays as it is when the source goes on, and `(0, 1)` is not `(1, 0)`. -/
theorem mirrors_after_copy :
    let history : History (ℕ × ℕ) ℤ :=
      [("a", .new 9), ("a", .set (0, 1) 1), ("b", .copy "a"), ("a", .add (1, 0) 2),
        ("a", .erase (0, 1))]
    let s := Store.empty.after history
    s.Mirrors (Registers.initial.after history) ∧
      (s.get "b").get (0, 1) = 1 ∧ (s.get "b").size = 1 ∧ (s.get "b").get (1, 0) = 9 ∧
      (s.get "a").get (0, 1) = 9 ∧ (s.get "a").get (1, 0) = 11 := by
  intro history s
  refine ⟨(mirrors_after (ι := ℕ) (κ := ℕ) (α := ℤ)).2.1 history, ?_⟩
  decide +kernel

end Histories

end Simultaneous.Sparse
