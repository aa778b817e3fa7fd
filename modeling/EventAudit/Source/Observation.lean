import EventAudit.Source.Extraction
import EventAudit.Source.Line
import EventAudit.Text.Lines

/-! # Observations of a source text

The lines of a text are numbered from one. Each line of code that says something
about an event gives one observation. -/

namespace EventAudit

structure Observation where
  line : Nat
  extraction : Extraction
deriving DecidableEq, Repr

/-- Everything observed in one file, and the plugin that owns the file. -/
structure FileObservations where
  file : String
  plugin : String
  observations : List Observation
deriving DecidableEq, Repr

namespace Observation

/-- What one line adds, read in a given state. -/
def ofLine? (markers : Markers) (state : LineState) (number : Nat) (line : List Char) :
    Option Observation :=
  if (state.classify line).isEligible then
    (Extraction.ofLine? markers line).map fun extraction => { line := number, extraction }
  else none

/-- The observations of numbered lines, the first of which is line `number`. -/
def ofLines (markers : Markers) : LineState → Nat → List (List Char) → List Observation
  | _, _, [] => []
  | state, number, line :: rest =>
      (ofLine? markers state number line).toList ++
        ofLines markers (state.next line) (number + 1) rest

def ofSource (markers : Markers) (source : List Char) : List Observation :=
  ofLines markers {} 1 (Text.lines source)

end Observation
end EventAudit
