/-! # Wildcard patterns

A pattern is a sequence of tokens over the characters of a path: `?` is any one
character, `*` any run of characters, `[...]` and `[!...]` one character in or not
in a set, and `**` any number of leading folders. None of them stops at a slash.
`**` has to be a whole component of the path, and a slash after it belongs to it.

Patterns stand for those of the library `glob` and follow its documented behaviour,
with its default options. -/

namespace EventAudit

inductive PatternFault where
  /-- More than two stars in a row. -/
  | wildcards
  /-- A double star that is not a whole component. -/
  | recursiveWildcards
  /-- A set of characters that is not closed or has no member. -/
  | range
deriving DecidableEq, Repr

def PatternFault.text : PatternFault → String
  | wildcards => "wildcards are either regular `*` or recursive `**`"
  | recursiveWildcards => "recursive wildcards must form a single path component"
  | range => "invalid range pattern"

/-- A fault and the position in characters at which it shows. -/
structure PatternError where
  position : Nat
  fault : PatternFault
deriving DecidableEq, Repr

def PatternError.message (error : PatternError) : String :=
  "Pattern syntax error near position " ++ toString error.position ++ ": " ++ error.fault.text

/-- A set of characters, given by ranges; a negated set holds all other characters. -/
structure CharSet where
  negated : Bool
  ranges : List (Char × Char)
deriving DecidableEq, Repr

namespace CharSet

def contains (set : CharSet) (c : Char) : Bool :=
  set.negated != set.ranges.any fun range => range.1 ≤ c && c ≤ range.2

/-- The ranges that the text of a set spells. -/
def rangesOf : List Char → List (Char × Char)
  | low :: '-' :: high :: rest => (low, high) :: rangesOf rest
  | c :: rest => (c, c) :: rangesOf rest
  | [] => []

/-- The members of a set whose first member is `first`, and the text after its bracket. -/
def close? (first : Char) (text : List Char) : Option (List Char × List Char) :=
  match text.dropWhile (· != ']') with
  | [] => none
  | _ :: rest => some (first :: text.takeWhile (· != ']'), rest)

/-- Read a set after its opening bracket: whether it is negated, its members and the text after
it. A bracket that comes first is a member. -/
def read? : List Char → Option (Bool × List Char × List Char)
  | '!' :: first :: text => (close? first text).map fun read => (true, read)
  | ['!'] => none
  | first :: text => (close? first text).map fun read => (false, read)
  | [] => none

theorem length_of_read? {text members rest : List Char} {negated : Bool}
    (h : read? text = some (negated, members, rest)) : rest.length < text.length := by
  have hclose : ∀ {first : Char} {text members rest : List Char},
      close? first text = some (members, rest) → rest.length < text.length := by
    intro first text members rest hread
    rw [close?] at hread
    split at hread
    next => simp at hread
    next c after hdrop =>
      simp only [Option.some.injEq, Prod.mk.injEq] at hread
      have hsuffix := (List.dropWhile_suffix (l := text) (· != ']')).length_le
      rw [hdrop] at hsuffix
      simp only [List.length_cons] at hsuffix
      rw [← hread.2]
      omega
  unfold read? at h
  split at h
  next first after =>
    obtain ⟨read, hread, heq⟩ := Option.map_eq_some_iff.mp h
    simp only [Prod.mk.injEq] at heq
    obtain ⟨-, rfl⟩ := heq
    have := hclose hread
    simp only [List.length_cons]
    omega
  next => simp at h
  next first after _ _ =>
    obtain ⟨read, hread, heq⟩ := Option.map_eq_some_iff.mp h
    simp only [Prod.mk.injEq] at heq
    obtain ⟨-, rfl⟩ := heq
    have := hclose hread
    simp only [List.length_cons]
    omega
  next => simp at h

end CharSet

inductive PatternToken where
  | literal (c : Char)
  | anyChar
  | anyRun
  | anyFolders
  | oneOf (set : CharSet)
deriving DecidableEq, Repr

/-- Whether a token that stands for one character stands for this one. -/
def PatternToken.accepts : PatternToken → Char → Bool
  | literal expected, c => expected == c
  | anyChar, _ => true
  | oneOf set, c => set.contains c
  | anyRun, _ => false
  | anyFolders, _ => false

abbrev Pattern := List PatternToken

namespace Pattern

/-- Whether a text is meant as a pattern at all. -/
def isWild (text : List Char) : Bool :=
  text.contains '*' || text.contains '?'

/-- Read the tokens of a text from a position on; `previous` is the character before it. -/
def compileFrom (position : Nat) (previous : Option Char) (text : List Char) :
    Except PatternError Pattern :=
  match text with
  | [] => .ok []
  | '?' :: rest => (compileFrom (position + 1) (some '?') rest).map (.anyChar :: ·)
  | '*' :: '*' :: '*' :: _ => .error { position := position + 2, fault := .wildcards }
  | '*' :: '*' :: rest =>
      if previous = none ∨ previous = some '/' then
        match rest with
        | [] => .ok [.anyFolders]
        | c :: rest =>
            if c = '/' then (compileFrom (position + 3) (some '/') rest).map (.anyFolders :: ·)
            else .error { position := position + 2, fault := .recursiveWildcards }
      else .error { position := position - 1, fault := .recursiveWildcards }
  | '*' :: rest => (compileFrom (position + 1) (some '*') rest).map (.anyRun :: ·)
  | '[' :: rest =>
      match h : CharSet.read? rest with
      | none => .error { position, fault := .range }
      | some (negated, members, after) =>
          have := CharSet.length_of_read? h
          let width := members.length + if negated then 3 else 2
          (compileFrom (position + width) (some ']') after).map
            (.oneOf { negated, ranges := CharSet.rangesOf members } :: ·)
  | c :: rest => (compileFrom (position + 1) (some c) rest).map (.literal c :: ·)
termination_by text.length

def compile (text : List Char) : Except PatternError Pattern :=
  compileFrom 0 none text

end Pattern
end EventAudit
