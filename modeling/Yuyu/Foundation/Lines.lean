import Mathlib.Data.List.Basic

/-!
# Lines with an optional symbol before their terminator

A text of lines up to an empty one.  A line ends at the terminator, and the symbol `cr` right
before the terminator is not part of the line.
-/

namespace Foundation
namespace Lines

open List

variable {α : Type*} [DecidableEq α] (cr lf : α)

/-- The line without a last `cr`. -/
def chop (line : List α) : List α := if line.getLast? = some cr then line.dropLast else line

/-- The lines in front of the first empty line, and what follows it.  The second argument is the
part of the current line that has been read. -/
def scan : List α → List α → List (List α) × List α
  | [], line => ([line], [])
  | a :: rest, line =>
    if a = lf then
      if chop cr line = [] then ([], rest)
      else (chop cr line :: (scan rest []).1, (scan rest []).2)
    else scan rest (line ++ [a])

/-- A line with both symbols at its end. -/
def ended (line : List α) : List α := line ++ [cr, lf]

variable {cr lf}

end Lines
end Foundation
