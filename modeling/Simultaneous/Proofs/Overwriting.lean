import Mathlib
import Simultaneous.Proofs.Registers

/-!
Histories of instructions that end alike.

A register remembers nothing but its finite map. So entries may be stored in any order, and what was
stored over, taken out or cleared does not show: a difference at one key stays at that key, as long
as the map is not copied, and is gone once the key is settled anew.
-/

namespace Simultaneous

variable {κ α : Type}

namespace Sparse

/-- The instructions after which nothing is left of what was stored at a key, whatever it was. -/
def Instruction.Settles (k : κ) : Instruction κ α → Prop
  | .set a _ | .erase a => a = k
  | .clear | .new _ => True
  | _ => False

/-- Entries stored in turn. -/
def History.inserts (name : String) (es : List (κ × α)) : History κ α :=
  es.map fun p => (name, .set p.1 p.2)

/-- Histories that end alike: entries may be stored in any order, and what is done at a key does
not matter if it is settled later, as long as no copy is taken in between. -/
inductive History.Same : History κ α → History κ α → Prop where
  | reorder (name : String) {es es' : List (κ × α)} (hperm : es.Perm es')
    (hkeys : (es.map Prod.fst).Nodup) : Same (inserts name es) (inserts name es')
  | settle (name : String) {i j : Instruction κ α} {k : κ} {between : History κ α}
    (hi : i.key? = some k) (hj : j.Settles k) (hbetween : ∀ p ∈ between, p.2 ≠ .copy name) :
    Same ((name, i) :: between ++ [(name, j)]) (between ++ [(name, j)])
  | clear (name : String) (v : α) : Same [(name, .new v), (name, .clear)] [(name, .new v)]
  | within (before next : History κ α) {h h' : History κ α} :
    Same h h' → Same (before ++ h ++ next) (before ++ h' ++ next)
  | refl (h : History κ α) : Same h h
  | symm {h h' : History κ α} : Same h h' → Same h' h
  | trans {h h' h'' : History κ α} : Same h h' → Same h' h'' → Same h h''

/-- Registers that hold the same but for one key of one of them. -/
structure Registers.SameBut (name : String) (k : κ) (regs regs' : Registers κ α) : Prop where
  other : ∀ other, other ≠ name → regs other = regs' other
  fallback : (regs name).fallback = (regs' name).fallback
  value : ∀ a, a ≠ k → (regs name).value? a = (regs' name).value? a

variable {regs regs' : Registers κ α} {name : String} {k : κ} {i j : Instruction κ α}

/-! ### A difference at one key -/

namespace Registers.SameBut

lemma update_of_ne (h : SameBut name k regs regs') {site : String} (hsite : site ≠ name)
    (m : FiniteMap κ α) :
    SameBut name k (Function.update regs site m) (Function.update regs' site m) := by
  refine ⟨fun other hother => ?_, ?_, fun a ha => ?_⟩
  · by_cases heq : other = site
    · rw [heq, Function.update_self, Function.update_self]
    · rw [Function.update_of_ne heq, Function.update_of_ne heq]
      exact h.other other hother
  · rw [Function.update_of_ne hsite.symm, Function.update_of_ne hsite.symm]
    exact h.fallback
  · rw [Function.update_of_ne hsite.symm, Function.update_of_ne hsite.symm]
    exact h.value a ha

lemma update_self (h : SameBut name k regs regs') {m m' : FiniteMap κ α}
    (hfallback : m.fallback = m'.fallback) (hvalue : ∀ a, a ≠ k → m.value? a = m'.value? a) :
    SameBut name k (Function.update regs name m) (Function.update regs' name m') := by
  refine ⟨fun other hother => ?_, ?_, fun a ha => ?_⟩
  · rw [Function.update_of_ne hother, Function.update_of_ne hother]
    exact h.other other hother
  · rw [Function.update_self, Function.update_self]
    exact hfallback
  · rw [Function.update_self, Function.update_self]
    exact hvalue a ha

variable [DecidableEq κ]

/-- Storing at any key, or taking out, leaves the difference where it was. -/
lemma update_assign (h : SameBut name k regs regs') {a : κ} {v w : Option α}
    (hvw : a ≠ k → v = w) :
    SameBut name k (Function.update regs name ((regs name).assign a v))
      (Function.update regs' name ((regs' name).assign a w)) := by
  refine h.update_self h.fallback fun b hb => ?_
  unfold FiniteMap.assign
  by_cases hba : b = a
  · subst hba
    simp only [Function.update_self]
    exact hvw hb
  · simp only [Function.update_of_ne hba]
    exact h.value b hb

variable [Add α]

/-- No instruction spreads a difference at one key, unless it copies the map. -/
lemma effect (h : SameBut name k regs regs') (hi : i ≠ .copy name) (site : String) :
    SameBut name k (i.effect regs site) (i.effect regs' site) := by
  by_cases hsite : site = name
  · subst hsite
    cases i with
    | new v => exact h.update_self rfl fun _ _ => rfl
    | set a v => exact h.update_assign fun _ => rfl
    | add a v =>
      refine h.update_assign fun ha => ?_
      have hread : (regs site).read a = (regs' site).read a := by
        rw [FiniteMap.read, h.value a ha, h.fallback, FiniteMap.read]
      rw [hread]
    | erase a => exact h.update_assign fun _ => rfl
    | clear => exact h.update_self h.fallback fun _ _ => rfl
    | copy source =>
      have hsource : regs source = regs' source := h.other source fun heq => hi (by rw [heq])
      exact h.update_self (by rw [hsource]) fun _ _ => by rw [hsource]
    | get | get? | contains | isEmpty | equals | keys | entries => exact h
  · have hsame : regs site = regs' site := h.other site hsite
    cases i with
    | new v => exact h.update_of_ne hsite _
    | set | add | erase | clear =>
      simp only [Instruction.effect, hsame]
      exact h.update_of_ne hsite _
    | copy source =>
      have hsource : regs source = regs' source := h.other source fun heq => hi (by rw [heq])
      simp only [Instruction.effect, hsource]
      exact h.update_of_ne hsite _
    | get | get? | contains | isEmpty | equals | keys | entries => exact h

lemma after (h : SameBut name k regs regs') {history : History κ α}
    (hcopies : ∀ p ∈ history, p.2 ≠ .copy name) :
    SameBut name k (Registers.after regs history) (Registers.after regs' history) := by
  induction history generalizing regs regs' with
  | nil => exact h
  | cons p history ih =>
    obtain ⟨hp, hrest⟩ := List.forall_mem_cons.mp hcopies
    exact ih (h.effect hp p.1) hrest

/-- What settles a key takes the difference away. -/
lemma effect_eq (h : SameBut name k regs regs') (hj : j.Settles k) :
    j.effect regs name = j.effect regs' name := by
  have hother (m : FiniteMap κ α) : Function.update regs name m = Function.update regs' name m := by
    funext other
    rw [Function.update_apply, Function.update_apply]
    split_ifs with heq
    · rfl
    · exact h.other other heq
  have hassign (v : Option α) : (regs name).assign k v = (regs' name).assign k v := by
    refine FiniteMap.ext (funext fun a => ?_) h.fallback
    unfold FiniteMap.assign
    by_cases ha : a = k
    · simp only [ha, Function.update_self]
    · simp only [Function.update_of_ne ha, h.value a ha]
  cases j with
  | new v => exact hother _
  | set a v =>
    obtain rfl : a = k := hj
    rw [Instruction.effect, hassign, hother, Instruction.effect]
  | erase a =>
    obtain rfl : a = k := hj
    rw [Instruction.effect, hassign, hother, Instruction.effect]
  | clear => rw [Instruction.effect, h.fallback, hother, Instruction.effect]
  | add | copy | get | get? | contains | isEmpty | equals | keys | entries => exact hj.elim

end Registers.SameBut

variable [DecidableEq κ] [Add α]

/-! ### Histories -/

lemma sameBut_effect (hi : i.key? = some k) :
    Registers.SameBut name k (i.effect regs name) regs := by
  have hassign (v : Option α) :
      Registers.SameBut name k (Function.update regs name ((regs name).assign k v)) regs := by
    refine ⟨fun other hother => Function.update_of_ne hother _ _, ?_, fun a ha => ?_⟩
    · rw [Function.update_self]
      rfl
    · rw [Function.update_self]
      exact Function.update_of_ne ha _ _
  cases i with
  | set | add | erase =>
    obtain rfl := Option.some.inj hi
    exact hassign _
  | new | clear | copy | get | get? | contains | isEmpty | equals | keys | entries =>
    exact nomatch hi

/-- Entries with keys of their own may be stored in any order. -/
lemma after_inserts {es es' : List (κ × α)} (hperm : es.Perm es')
    (hkeys : (es.map Prod.fst).Nodup) :
    Registers.after regs (History.inserts name es) =
      Registers.after regs (History.inserts name es') := by
  unfold Registers.after History.inserts
  rw [List.foldl_map, List.foldl_map]
  refine hperm.foldl_eq' (fun p hp q hq regs => ?_) regs
  by_cases hpq : p.1 = q.1
  · rw [List.inj_on_of_nodup_map hkeys hp hq hpq]
  · have hassign : ((regs name).assign p.1 (some p.2)).assign q.1 (some q.2) =
        ((regs name).assign q.1 (some q.2)).assign p.1 (some p.2) :=
      FiniteMap.ext (Function.update_comm hpq _ _ _) rfl
    simp only [Instruction.effect, Function.update_self, Function.update_idem, hassign]

lemma after_append (regs : Registers κ α) (h h' : History κ α) :
    Registers.after regs (h ++ h') = Registers.after (Registers.after regs h) h' :=
  List.foldl_append

/-- Histories that end alike leave the same in every register. -/
lemma History.Same.after_eq {h h' : History κ α} (hsame : h.Same h') (regs : Registers κ α) :
    Registers.after regs h = Registers.after regs h' := by
  induction hsame generalizing regs with
  | reorder name hperm hkeys => exact after_inserts hperm hkeys
  | settle name hi hj hbetween =>
    rw [after_append, after_append]
    exact ((sameBut_effect hi).after hbetween).effect_eq hj
  | clear name v =>
    simp only [Registers.after, List.foldl_cons, List.foldl_nil, Instruction.effect,
      Function.update_self, Function.update_idem, FiniteMap.empty]
  | within before next _ ih => simp only [after_append, ih]
  | refl h => rfl
  | symm _ ih => exact (ih regs).symm
  | trans _ _ ih ih' => exact (ih regs).trans (ih' regs)

end Sparse

end Simultaneous
