/-! # Decimal digits -/

namespace EventAudit.Text

/-- The number that a run of decimal digits spells. -/
def decimalValue (digits : List Char) : Nat :=
  digits.foldl (fun value digit => value * 10 + (digit.toNat - '0'.toNat)) 0

end EventAudit.Text
