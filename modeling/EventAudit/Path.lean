import EventAudit.RawText

/-! # Paths as they are written

A path is kept as its bytes, because messages show it as it was given. Its meaning
is its list of components: repeated slashes, a slash at the end and the pieces `.`
inside it say nothing, while a leading `.` and every `..` are components. Two texts
with the same components name the same place. -/

namespace EventAudit

structure Path where
  text : RawText
deriving DecidableEq, Repr

namespace Path

/-- The path that a text spells. -/
def ofString (text : String) : Path :=
  ⟨.ofString text⟩

def shown (path : Path) : String :=
  path.text.shown

/-- The byte that separates the pieces of a path. -/
def slash : UInt8 := '/'.toUInt8

def dot : UInt8 := '.'.toUInt8

inductive Component where
  | root
  | here
  | up
  | name (text : RawText)
deriving DecidableEq, Repr

namespace Component

/-- The text of the component. -/
def text : Component → RawText
  | root => [slash]
  | here => [dot]
  | up => [dot, dot]
  | name text => text

/-- The position of the kind of component in the order of paths. -/
def rank : Component → Nat
  | root => 0
  | here => 1
  | up => 2
  | name _ => 3

/-- Components are ordered by kind, names among each other by their text. -/
instance : Ord Component where
  compare := compareLex (compareOn rank) (compareOn text)

/-- What a piece between slashes stands for. -/
def ofPiece? (piece : RawText) : Option Component :=
  if piece = [] ∨ piece = [dot] then none
  else if piece = [dot, dot] then some up
  else some (name piece)

end Component

/-- What stands between the slashes. -/
def pieces (path : Path) : List RawText :=
  path.text.splitOn slash

/-- What a path starts with. -/
inductive Lead where
  | none
  | root
  | here
deriving DecidableEq, Repr

def Lead.components : Lead → List Component
  | none => []
  | root => [.root]
  | here => [.here]

/-- What the first piece of a path stands for in front of all others. -/
def leadOf (first : RawText) (rest : List RawText) : Lead :=
  if first = [dot] then .here else if first = [] ∧ rest ≠ [] then .root else .none

/-- What the path starts with, and the pieces after that. -/
def parts (path : Path) : Lead × List RawText :=
  match path.pieces with
  | [] => (.none, [])
  | first :: rest =>
      (leadOf first rest, if leadOf first rest = .none then first :: rest else rest)

/-- The path with the given start and the given pieces after it. -/
def ofParts (lead : Lead) (pieces : List RawText) : Path where
  text :=
    match lead with
    | .none => [slash].intercalate pieces
    | .root => slash :: [slash].intercalate pieces
    | .here => [slash].intercalate ([dot] :: pieces)

def components (path : Path) : List Component :=
  path.parts.1.components ++ path.parts.2.filterMap Component.ofPiece?

def isAbsolute (path : Path) : Bool :=
  path.text.head? == some slash

/-- `path` seen from `base`: an absolute path stands for itself. -/
def join (base path : Path) : Path :=
  if path.isAbsolute ∨ base.text = [] then path
  else if base.text.getLast? = some slash then ⟨base.text ++ path.text⟩
  else ⟨base.text ++ slash :: path.text⟩

/-- Whether a piece says nothing. -/
def isSilent (piece : RawText) : Bool :=
  (Component.ofPiece? piece).isNone

/-- Drop the silent pieces at the end. -/
def tidyEnd (pieces : List RawText) : List RawText :=
  (pieces.reverse.dropWhile isSilent).reverse

/-- What is left of a path when its last component is removed, again and again; the pieces are
given last first. -/
def ancestorsOfReverse (lead : Lead) : List RawText → List Path
  | [] => if lead = .here then [⟨[]⟩] else []
  | piece :: before =>
      if isSilent piece then ancestorsOfReverse lead before
      else ofParts lead (before.dropWhile isSilent).reverse :: ancestorsOfReverse lead before

/-- The paths above a path, the nearest first. -/
def properAncestors (path : Path) : List Path :=
  ancestorsOfReverse path.parts.1 path.parts.2.reverse

/-- A path and the paths above it, the nearest first. -/
def ancestors (path : Path) : List Path :=
  path :: path.properAncestors

/-- The path without its last component. -/
def parent? (path : Path) : Option Path :=
  path.properAncestors.head?

/-- The last component, if it is a name. -/
def fileName? (path : Path) : Option RawText :=
  match path.components.getLast? with
  | some (.name text) => some text
  | _ => none

/-- The pieces after the given components, if they come first. -/
def dropComponents? : List Component → List RawText → Option (List RawText)
  | [], pieces => some pieces
  | component :: rest, pieces =>
      match pieces.dropWhile isSilent with
      | [] => none
      | piece :: next =>
          if Component.ofPiece? piece = some component then dropComponents? rest next else none

/-- The path below `base`, as far as it is written there; only silent pieces at its ends are
dropped. -/
def relativeTo? (path base : Path) : Option Path :=
  let finish := fun pieces => ofParts .none (tidyEnd (pieces.dropWhile isSilent))
  match base.components, path.parts with
  | [], (lead, pieces) => some (ofParts lead (tidyEnd pieces))
  | components, (.none, pieces) => (dropComponents? components pieces).map finish
  | .root :: rest, (.root, pieces) => (dropComponents? rest pieces).map finish
  | .here :: rest, (.here, pieces) => (dropComponents? rest pieces).map finish
  | _, _ => none

/-- A path as it is seen from `base`, where one that is not below it stays as it is. -/
def asSeenFrom (path base : Path) : Path :=
  (path.relativeTo? base).getD path

end Path
end EventAudit
