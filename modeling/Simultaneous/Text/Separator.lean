/-!
Cutting a text into lines.

A line ends at a line break of any of the usual kinds, at a comma, or at a backslash and an `n`
that stand for a line break where none can be typed. The pieces between two separators are kept
also when they are empty, so a text with `k` separators has `k + 1` lines.
-/

namespace Simultaneous.Text

inductive Separator where
  | carriageReturnLineFeed
  | carriageReturn
  | lineFeed
  | escapedLineFeed
  | comma
  deriving DecidableEq, Repr

def Separator.chars : Separator → List Char
  | carriageReturnLineFeed => ['\r', '\n']
  | carriageReturn => ['\r']
  | lineFeed => ['\n']
  | escapedLineFeed => ['\\', 'n']
  | comma => [',']

/-- The lines of a text, first to last. There is always at least one. -/
def splitChars : List Char → List (List Char)
  | [] => [[]]
  | '\r' :: '\n' :: rest => [] :: splitChars rest
  | '\\' :: 'n' :: rest => [] :: splitChars rest
  | '\r' :: rest => [] :: splitChars rest
  | '\n' :: rest => [] :: splitChars rest
  | ',' :: rest => [] :: splitChars rest
  | c :: rest => (splitChars rest).modifyHead (c :: ·)

def lines (text : String) : List String :=
  (splitChars text.toList).map String.ofList

theorem splitChars_ne_nil (cs : List Char) : splitChars cs ≠ [] := by
  fun_induction splitChars cs <;> simp_all

end Simultaneous.Text
