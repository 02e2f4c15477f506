import Mathlib
import Simultaneous.Proofs.Composition

/-!
Calls of a session.

A session reads lines, is told that the input ends, and starts over, in any order, and goes on
after a fault with whatever the fault has left. Only a line is entered into a system, and what the
session makes of it does not depend on the system.
-/

namespace Simultaneous

open Equation
open Number (OfDecimal)

namespace Equation

inductive Call where
  | parse (line : List Char)
  /-- The end of the input. -/
  | finish
  | reset
  deriving DecidableEq, Repr

namespace Session

/-- The session after a call, and the answer that the call gets. -/
def call (s : Session) : Call → Session × Except ParseError Status
  | .parse line => ((s.read line).session, (s.read line).result.map LineEnd.status)
  | .finish => (s.finish.1, s.finish.2.map fun _ => .success)
  | .reset => (s.reset, .ok .success)

/-- The session after calls in turn, whatever answers they get. -/
def after (s : Session) (calls : List Call) : Session := calls.foldl (fun s c => (s.call c).1) s

/-! ### What a call leaves -/

lemma equations_note (s : Session) (r : Except ParseError Status) :
    (s.note r).equations = s.equations := by
  cases r <;> rfl

lemma equations_advance (s : Session) (ph : Phase) (r : Except ParseError LineEnd) :
    (s.advance ph r).equations = if r = .ok .complete then s.equations + 1 else s.equations := by
  unfold advance
  split <;> simp_all

/-- Only a line that completes an equation leads to the next row. -/
lemma equations_read (s : Session) (line : List Char) :
    (s.read line).session.equations =
      if (s.read line).result = .ok .complete then s.equations + 1 else s.equations :=
  (equations_note _ _).trans (equations_advance _ _ _)

lemma limits_read (s : Session) (line : List Char) : (s.read line).session.limits = s.limits :=
  (limits_note _ _).trans (limits_advance _ _ _)

lemma phase_read (s : Session) (line : List Char) :
    (s.read line).session.phase =
      if (s.read line).result = .ok .complete then .start
      else (scan s.limits s.phase line).phase :=
  (phase_note _ _).trans (phase_advance _ _ _)

lemma limits_after (s : Session) (calls : List Call) : (s.after calls).limits = s.limits := by
  induction calls generalizing s with
  | nil => rfl
  | cons c calls ih =>
    refine (ih _).trans ?_
    cases c with
    | parse line => exact s.limits_read line
    | finish => exact limits_note s _
    | reset => rfl

lemma equations_le_call (s : Session) {c : Call} (hc : c ≠ .reset) :
    s.equations ≤ (s.call c).1.equations := by
  cases c with
  | parse line =>
    rw [call, equations_read]
    split_ifs <;> omega
  | finish => exact (equations_note s _).ge
  | reset => exact absurd rfl hc

end Session

end Equation

/-! ### Drafts -/

namespace Draft

variable {α : Type} [One α] [Add α] [Neg α] [OfDecimal α]

/-- The draft after a call. -/
def call (d : Draft α) : Call → Draft α
  | .parse line => (d.feed line).value.1
  | .finish => { d with session := d.session.finish.1 }
  | .reset => { d with session := d.session.reset }

def after (d : Draft α) (calls : List Call) : Draft α := calls.foldl call d

lemma session_call (d : Draft α) (c : Call) : (d.call c).session = (d.session.call c).1 := by
  cases c <;> rfl

end Draft

end Simultaneous
