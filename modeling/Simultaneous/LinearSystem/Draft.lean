import Simultaneous.Log.Logged
import Simultaneous.Log.Record
import Simultaneous.LinearSystem.Basic
import Simultaneous.Text.Separator

/-!
From text to system: a session reads the lines, and a system takes up what they hold.
-/

namespace Simultaneous

open Equation (Entry Limits LineEnd ParseError Reading Session)
open Number (OfDecimal)

variable {α : Type} [Zero α] [One α] [Add α] [Neg α] [OfDecimal α]

namespace LinearSystem

/-- What the log says when an entry is added. -/
def entryRecord (s : LinearSystem α) (row : Nat) (e : Entry) : Record α :=
  match e.quantity with
  | .constant _ => .constant row e.value
  | .multiple _ name => .coefficient row (s.column name) e.value

def entryRecords (s : LinearSystem α) (row : Nat) : List Entry → List (Record α)
  | [] => []
  | e :: rest => s.entryRecord row e :: (s.enter row e).entryRecords row rest

/-- What the log says when a line is taken up. -/
def readingRecords (s : LinearSystem α) (row : Nat) (r : Reading) : List (Record α) :=
  s.entryRecords row r.entries ++
    match r.result with
    | .ok .complete => [.complete row (s.absorb row r).variableCount]
    | _ => []

end LinearSystem

/-- A session and the system that it fills. -/
structure Draft (α : Type) where
  session : Session
  system : LinearSystem α

namespace Draft

def fresh (limits : Limits) : Draft α := ⟨.fresh limits, .empty⟩

/-- Reads one line. -/
def feed (d : Draft α) (line : List Char) :
    Logged (Record α) (Draft α × Except ParseError LineEnd) :=
  let r := d.session.read line
  let row := d.session.equations
  { value := (⟨r.session, d.system.absorb row r⟩, r.result)
    log := d.system.readingRecords row r }

/-- Reads lines up to the first fault. -/
def feedAll (d : Draft α) : List (List Char) → Logged (Record α) (Except ParseError (Draft α))
  | [] => pure (.ok d)
  | line :: rest => do
    let (d, result) ← d.feed line
    match result with
    | .ok _ => d.feedAll rest
    | .error e => pure (.error e)

end Draft

/-- The system that a text writes down, or the first fault in it. -/
def LinearSystem.ofText (limits : Limits) (text : String) :
    Logged (Record α) (Except ParseError (LinearSystem α)) := do
  match ← (Draft.fresh limits).feedAll (Text.splitChars text.toList) with
  | .ok d => return d.session.finish.2.map fun _ => d.system
  | .error e => return .error e

end Simultaneous
