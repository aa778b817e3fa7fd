/-! # Writing JSON

A layout is a JSON value that can be written at any depth. Members and elements
stand on lines of their own, indented by two blanks a level; an empty array or
object is written without a break. This is how `serde_json` prints values for people
to read. -/

namespace EventAudit.Json

/-- One character of a string. Only quotes, backslashes and controls are escaped. -/
def escapeChar (c : Char) : List Char :=
  if c = '"' then ['\\', '"']
  else if c = '\\' then ['\\', '\\']
  else if c = '\x08' then ['\\', 'b']
  else if c = '\t' then ['\\', 't']
  else if c = '\n' then ['\\', 'n']
  else if c = '\x0c' then ['\\', 'f']
  else if c = '\r' then ['\\', 'r']
  else if c.toNat < 0x20 then
    ['\\', 'u', '0', '0', Nat.digitChar (c.toNat / 16), Nat.digitChar (c.toNat % 16)]
  else [c]

/-- A string in quotes. -/
def stringText (text : List Char) : List Char :=
  '"' :: text.flatMap escapeChar ++ ['"']

abbrev Layout := Nat → List Char

namespace Layout

def indent (depth : Nat) : List Char :=
  List.replicate (2 * depth) ' '

def null : Layout := fun _ => "null".toList

def number (n : Nat) : Layout := fun _ => Nat.toDigits 10 n

def string (text : String) : Layout := fun _ => stringText text.toList

/-- Items between brackets, each on a line of its own. -/
def block (opening closing : Char) (items : List Layout) : Layout := fun depth =>
  if items.isEmpty then [opening, closing]
  else
    [opening, '\n'] ++
      [',', '\n'].intercalate (items.map fun item => indent (depth + 1) ++ item (depth + 1)) ++
      ['\n'] ++ indent depth ++ [closing]

def array (items : List Layout) : Layout :=
  block '[' ']' items

def member (name : String) (value : Layout) : Layout := fun depth =>
  stringText name.toList ++ [':', ' '] ++ value depth

def object (members : List (String × Layout)) : Layout :=
  block '\x7b' '\x7d' (members.map fun field => member field.1 field.2)

def option (value : Option α) (layout : α → Layout) : Layout :=
  match value with
  | some value => layout value
  | none => null

/-- The text of a value that stands alone. -/
def text (layout : Layout) : List Char :=
  layout 0

end Layout
end EventAudit.Json
