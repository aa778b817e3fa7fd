import EventAudit.Decimal.Shortest
import EventAudit.Text.Quoted

/-! # What can be wrong with a JSON text

A text can end too early, it can be no JSON, or it can be JSON of another shape
than the one that is wanted. The messages are those of `serde_json`. -/

namespace EventAudit.Json

/-- A value of an unwanted kind. -/
inductive Found where
  | null
  | boolean (value : Bool)
  | integer (value : Int)
  | real (digits : List Char)
  | string (value : List Char)
  | sequence
  | map
deriving DecidableEq, Repr

/-- How real numbers are shown: positionally from five places behind the point up to sixteen
digits before it. -/
def realFormat : Decimal.Format where
  leastLead := -5
  mostLead := 15
  plusSign := true

def Found.text : Found → String
  | null => "null"
  | boolean value => "boolean `" ++ toString value ++ "`"
  | integer value => "integer `" ++ toString value ++ "`"
  | real digits => "floating point `" ++ String.ofList digits ++ "`"
  | string value => "string " ++ String.ofList (Text.quoted value)
  | sequence => "sequence"
  | map => "map"

inductive Fault where
  /-- The text ends too early. -/
  | truncated
  /-- The text is not JSON, or goes on after the value. -/
  | malformed
  | unexpected (found : Found) (expected : String)
  | repeated (name : String)
deriving DecidableEq, Repr

def Fault.message : Fault → String
  | truncated => "<eof>"
  | malformed => "<syntax>"
  | unexpected found expected =>
      "<data> invalid type: " ++ found.text ++ ", expected " ++ expected
  | repeated name => "<data> duplicate field `" ++ name ++ "`"

end EventAudit.Json
