import EventAudit.Pattern.Match
import EventAudit.Text.Search

/-! # Excludes

An exclude with a wildcard is a pattern for whole display paths. Any other exclude
is a plain text, and covers every display path that contains it. -/

namespace EventAudit

inductive Exclude where
  | part (text : List Char)
  | wild (pattern : Pattern)
deriving DecidableEq, Repr

namespace Exclude

def ofText (text : String) : Except PatternError Exclude :=
  if Pattern.isWild text.toList then (Pattern.compile text.toList).map wild
  else .ok (part text.toList)

/-- What is wrong with an exclude, if anything is. -/
def error? (text : String) : Option PatternError :=
  match ofText text with
  | .ok _ => none
  | .error error => some error

def covers (exclude : Exclude) (displayPath : List Char) : Bool :=
  match exclude with
  | part text => Text.contains text displayPath
  | wild pattern => pattern.test displayPath

end Exclude
end EventAudit
