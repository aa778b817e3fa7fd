import EventAudit.Text.Blank
import EventAudit.Text.Search

/-! # Classes of source lines

Only lines of code are searched for events. A line that begins inside a block
comment or opens one is a comment line, whatever else stands on it. A line that
starts with `#`, ends with a continuation backslash or follows a line that did is
part of a preprocessor directive. Comment tokens inside string literals count as
comment tokens. -/

namespace EventAudit

inductive LineClass where
  | comment
  | directive
  | code
deriving DecidableEq, Repr

/-- Whether events are looked for on lines of this class. -/
def LineClass.isEligible (lineClass : LineClass) : Bool :=
  lineClass == .code

/-- What the lines read so far say about the next one: whether it begins inside a block comment
and whether it continues the line before. -/
structure LineState where
  inComment : Bool := false
  continued : Bool := false
deriving DecidableEq, Repr

namespace LineState

def openToken : List Char := ['/', '*']

def closeToken : List Char := ['*', '/']

/-- The token that would change whether the text is inside a comment. -/
def nextToken (inside : Bool) : List Char :=
  if inside then closeToken else openToken

theorem nextToken_ne_nil (inside : Bool) : nextToken inside ≠ [] := by
  cases inside <;> decide

/-- Follow the comment tokens of a line from left to right. The first result tells whether a
comment was opened, the second whether the line ends inside one. -/
def walkComments (inside : Bool) (line : List Char) : Bool × Bool :=
  match h : Text.cutAt? (nextToken inside) line with
  | none => (false, inside)
  | some (_, rest) =>
      have := Text.length_after_of_cutAt? (nextToken_ne_nil inside) h
      let walk := walkComments (!inside) rest
      (!inside || walk.1, walk.2)
termination_by line.length

/-- Whether the last character that is not blank is a backslash. -/
def continues (line : List Char) : Bool :=
  (Text.trimEnd line).getLast? == some '\\'

/-- Whether the first character that is not blank is a number sign. -/
def startsDirective (line : List Char) : Bool :=
  (Text.trimStart line).head? == some '#'

def classify (state : LineState) (line : List Char) : LineClass :=
  if state.inComment || (walkComments state.inComment line).1 then .comment
  else if state.continued || continues line || startsDirective line then .directive
  else .code

/-- The state after a line. -/
def next (state : LineState) (line : List Char) : LineState where
  inComment := (walkComments state.inComment line).2
  continued := continues line

/-- The state after some lines. -/
def after (state : LineState) (lines : List (List Char)) : LineState :=
  lines.foldl next state

end LineState
end EventAudit
