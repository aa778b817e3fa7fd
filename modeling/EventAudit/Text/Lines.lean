/-! # Lines of a text

A line ends at a line feed; one carriage return directly before that line feed
belongs to the line break. A carriage return at the end of a text without a
final line feed is part of the last line. -/

namespace EventAudit.Text

/-- A line without the carriage return of its line break. -/
def dropReturn (line : List Char) : List Char :=
  if line.getLast? = some '\r' then line.dropLast else line

/-- The texts between line feeds as lines: the piece after the last line feed is a line of its
own only when it holds something. -/
def linesOfPieces : List (List Char) → List (List Char)
  | [] => []
  | [last] => if last.isEmpty then [] else [last]
  | piece :: next :: rest => dropReturn piece :: linesOfPieces (next :: rest)

def lines (text : List Char) : List (List Char) :=
  linesOfPieces (text.splitOn '\n')

end EventAudit.Text
