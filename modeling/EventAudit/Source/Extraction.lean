import EventAudit.Source.Markers
import EventAudit.Text.Blank
import EventAudit.Text.Digits
import EventAudit.Text.Search

/-! # What one line says about an event

The markers are tried in a fixed order: declaration, definition, creation, fire,
listener registration, listener definition. The first four count only where they
are called, that is followed by an optional numeric suffix, blanks and an opening
parenthesis. The first called marker decides how the line is read; if its
arguments are malformed the line says nothing. -/

namespace EventAudit

inductive Extraction where
  | declaration (identifier : String) (arity : Option Nat)
  | definition (identifier : String)
  | creation (identifier displayName : String)
  | fire (identifier : String) (arity : Option Nat) (args : List String)
  | listenerRegistration
  | listenerDefinition
deriving DecidableEq, Repr

/-- An occurrence of a marker that is called. -/
structure Call where
  /-- The text of the line before the marker. -/
  before : List Char
  /-- The value of the numeric suffix, if there is one that fits into 64 bits. -/
  arity : Option Nat
  /-- The text after the opening parenthesis. -/
  inner : List Char
deriving DecidableEq, Repr

namespace Call

def suffixValue? (digits : List Char) : Option Nat :=
  if digits.isEmpty ∨ 0x10000000000000000 ≤ Text.decimalValue digits then none
  else some (Text.decimalValue digits)

/-- Read the text around a marker as a call; `passed` is the text before it, last character
first. -/
def ofOccurrence? (passed after : List Char) : Option Call :=
  match Text.trimStart (after.dropWhile Char.isDigit) with
  | '(' :: inner =>
      some { before := passed.reverse, arity := suffixValue? (after.takeWhile Char.isDigit), inner }
  | _ => none

/-- The first occurrence of `marker` that is called. -/
def find? (marker : String) (line : List Char) : Option Call :=
  (Text.occurrences marker.toList line).findSome? fun occurrence =>
    ofOccurrence? occurrence.1 occurrence.2

end Call

namespace Extraction

/-- The event that is spoken of; listeners name none. -/
def identifier? : Extraction → Option String
  | declaration identifier _ => some identifier
  | definition identifier => some identifier
  | creation identifier _ => some identifier
  | fire identifier _ _ => some identifier
  | listenerRegistration => none
  | listenerDefinition => none

def isIdentifierChar (c : Char) : Bool :=
  c.isAlphanum || c == '_'

/-- A text as a name, unless it is empty. -/
def name? (text : List Char) : Option String :=
  if text.isEmpty then none else some (String.ofList text)

/-- The first argument of a call, up to a comma or a closing parenthesis. -/
def firstArgument? (inner : List Char) : Option String :=
  name? (Text.trim (inner.takeWhile fun c => c != ')' && c != ','))

def ofDeclaration? (call : Call) : Option Extraction :=
  (firstArgument? call.inner).map fun identifier => declaration identifier call.arity

def ofDefinition? (call : Call) : Option Extraction :=
  (firstArgument? call.inner).map definition

/-- Whether a character belongs to the wrapping of a display name. -/
def isWrapping (c : Char) : Bool :=
  c == '"' || c == '(' || c == ')' || c == ';' || Text.isBlank c

/-- The name that is assigned to: the word before the last equals sign. -/
def assigned? (before : List Char) : Option (List Char) :=
  match before.reverse.dropWhile (· != '=') with
  | [] => none
  | _ :: earlier =>
      some (Text.takeWhileEnd isIdentifierChar (Text.trimEnd earlier.reverse))

/-- A creation is keyed by the variable that it is assigned to. Without an assignment it is keyed
by its display name, which then has to be a string literal: a prototype has none. -/
def ofCreation? (line : List Char) (call : Call) : Option Extraction :=
  match line.splitOn ',' with
  | _ :: field :: _ => do
      let displayName ← name? (Text.trimWhere isWrapping field)
      match assigned? call.before with
      | some identifier => return creation (← name? identifier) displayName
      | none =>
          if (Text.trimStart field).head? = some '"' then some (creation displayName displayName)
          else none
  | _ => none

/-- Drop one closing parenthesis at the end, and the blanks before it. -/
def dropClosing (field : List Char) : List Char :=
  Text.trimEnd (if field.getLast? = some ')' then field.dropLast else field)

/-- Close the last field of a call. -/
def closeLast : List (List Char) → List (List Char)
  | [] => []
  | [last] => [dropClosing last]
  | field :: next :: rest => field :: closeLast (next :: rest)

/-- The fields of a fire call: the event and the arguments passed to its listeners. -/
def fireFields (inner : List Char) : List (List Char) :=
  closeLast ((inner.splitOn ',').map (Text.trimWhere fun c => c == ';' || Text.isBlank c))

def ofFire? (call : Call) : Option Extraction :=
  match fireFields call.inner with
  | [] => none
  | identifier :: args =>
      (name? identifier).map fun identifier =>
        fire identifier call.arity (args.map String.ofList)

/-- What a line of code says. -/
def ofLine? (markers : Markers) (line : List Char) : Option Extraction :=
  if let some call := Call.find? markers.declaration line then ofDeclaration? call
  else if let some call := Call.find? markers.definition line then ofDefinition? call
  else if let some call := Call.find? markers.creation line then ofCreation? line call
  else if let some call := Call.find? markers.fire line then ofFire? call
  else if Text.contains markers.listenerRegistration.toList line then some listenerRegistration
  else if Text.contains markers.listenerDefinition.toList line then some listenerDefinition
  else none

end Extraction
end EventAudit
