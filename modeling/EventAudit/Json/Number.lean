import EventAudit.Json.Chars
import EventAudit.Text.Digits

/-! # Numbers in JSON

No number is ever wanted, so a number is either skipped, which checks its form,
or read in order to be named in a message. Integers are named as they are while
they fit into 64 bits; all other numbers are named as binary reals. This stands for
the numbers of `serde_json`. -/

namespace EventAudit.Json

/-! ## Skipping -/

/-- The text after at least one digit. -/
def skipDigits? : List Char → Option (List Char)
  | [] => none
  | c :: rest => if c.isDigit then some (rest.dropWhile Char.isDigit) else none

/-- A zero in front stands alone. -/
def skipWhole? : List Char → Option (List Char)
  | '0' :: rest => if rest.head?.any Char.isDigit then none else some rest
  | text => skipDigits? text

def skipFraction? : List Char → Option (List Char)
  | '.' :: rest => skipDigits? rest
  | text => some text

def dropSign : List Char → List Char
  | '+' :: rest => rest
  | '-' :: rest => rest
  | text => text

def skipExponent? : List Char → Option (List Char)
  | [] => some []
  | c :: rest => if c = 'e' ∨ c = 'E' then skipDigits? (dropSign rest) else some (c :: rest)

def dropMinus : List Char → List Char
  | '-' :: rest => rest
  | text => text

/-- The text after a number. -/
def skipNumber? (text : List Char) : Option (List Char) :=
  ((skipWhole? (dropMinus text)).bind skipFraction?).bind skipExponent?

theorem length_of_skipDigits? {text rest : List Char} (h : skipDigits? text = some rest) :
    rest.length < text.length := by
  unfold skipDigits? at h
  split at h
  next => simp at h
  next =>
    split at h
    next after _ =>
      simp only [Option.some.injEq] at h
      have := (List.dropWhile_sublist (l := after) Char.isDigit).length_le
      simp only [← h, List.length_cons]
      omega
    next => simp at h

theorem length_of_skipWhole? {text rest : List Char} (h : skipWhole? text = some rest) :
    rest.length < text.length := by
  unfold skipWhole? at h
  split at h
  next =>
    split at h
    next => simp at h
    next => simp only [Option.some.injEq] at h; simp [← h]
  next => exact length_of_skipDigits? h

theorem length_of_skipFraction? {text rest : List Char} (h : skipFraction? text = some rest) :
    rest.length ≤ text.length := by
  unfold skipFraction? at h
  split at h
  next => have := length_of_skipDigits? h; simp only [List.length_cons]; omega
  next => simp only [Option.some.injEq] at h; simp [← h]

theorem length_dropSign_le (text : List Char) : (dropSign text).length ≤ text.length := by
  unfold dropSign
  split <;> simp

theorem length_of_skipExponent? {text rest : List Char} (h : skipExponent? text = some rest) :
    rest.length ≤ text.length := by
  unfold skipExponent? at h
  split at h
  next => simp only [Option.some.injEq] at h; simp [← h]
  next c after =>
    split at h
    next =>
      have := length_of_skipDigits? h
      have := length_dropSign_le after
      simp only [List.length_cons]
      omega
    next => simp only [Option.some.injEq] at h; simp [← h]

theorem length_dropMinus_le (text : List Char) : (dropMinus text).length ≤ text.length := by
  unfold dropMinus
  split <;> simp

theorem length_of_skipNumber? {text rest : List Char} (h : skipNumber? text = some rest) :
    rest.length < text.length := by
  obtain ⟨fraction, hfraction, hrest⟩ := Option.bind_eq_some_iff.mp h
  obtain ⟨whole, hwhole, hfraction⟩ := Option.bind_eq_some_iff.mp hfraction
  have := length_dropMinus_le text
  have := length_of_skipWhole? hwhole
  have := length_of_skipFraction? hfraction
  have := length_of_skipExponent? hrest
  omega

/-! ## Naming -/

/-- Take up digits as long as the number fits into 64 bits: the number, and how many digits were
left out. -/
def absorb (value : Nat) : List Char → Nat × Nat
  | [] => (value, 0)
  | digit :: rest =>
      let next := value * 10 + (digit.toNat - '0'.toNat)
      if next < 0x10000000000000000 then absorb next rest else (value, rest.length + 1)

def powerOfTen (exponent : Nat) : Float :=
  Float.ofScientific 1 false exponent

/-- Divide by a power of ten, in steps where the power is too large for one. -/
def scaleDown (value : Float) (exponent : Nat) : Float :=
  if exponent ≤ 308 then value / powerOfTen exponent
  else if value == 0 then value
  else scaleDown (value / powerOfTen 308) (exponent - 308)
termination_by exponent

/-- `significand * 10 ^ exponent`, unless that is too large. -/
def scale? (significand : Nat) (exponent : Int) : Option Float :=
  if exponent < 0 then some (scaleDown (Float.ofNat significand) exponent.natAbs)
  else if exponent ≤ 308 then
    let value := Float.ofNat significand * powerOfTen exponent.toNat
    if value.isInf then none else some value
  else if significand = 0 then some 0 else none

def nameReal (negative : Bool) (significand : Nat) (exponent : Int) : Except Fault Found :=
  match scale? significand exponent with
  | some value => .ok (.real (realFormat.renderFloat (if negative then -value else value)))
  | none => .error .malformed

def nameInteger (negative : Bool) (value : Nat) : Except Fault Found :=
  if !negative then .ok (.integer value)
  else if 0 < value ∧ value ≤ 0x8000000000000000 then .ok (.integer (-(value : Int)))
  else nameReal true value 0

/-- The exponent after its letter. -/
def readExponent (text : List Char) : Except Fault Int :=
  match dropSign text with
  | [] => .error .truncated
  | c :: rest =>
      if c.isDigit then
        let value : Int := Text.decimalValue ((c :: rest).takeWhile Char.isDigit)
        .ok (if text.head? = some '-' then -value else value)
      else .error .malformed

/-- Name a number given the digits before its exponent. -/
def nameWithExponent (negative : Bool) (significand : Nat) (exponent : Int) (text : List Char) :
    Except Fault Found :=
  match text with
  | [] => nameReal negative significand exponent
  | c :: rest =>
      if c = 'e' ∨ c = 'E' then do
        nameReal negative significand (exponent + (← readExponent rest))
      else nameReal negative significand exponent

/-- Name a number given its whole part, `dropped` digits of which were left out. -/
def nameWithWhole (negative : Bool) (whole dropped : Nat) (text : List Char) :
    Except Fault Found :=
  match text with
  | '.' :: rest =>
      let digits := rest.takeWhile Char.isDigit
      let absorbed := absorb whole digits
      if rest.isEmpty then .error .truncated
      else if digits.isEmpty then .error .malformed
      else
        nameWithExponent negative absorbed.1 (dropped - ((digits.length - absorbed.2 : Nat) : Int))
          (rest.dropWhile Char.isDigit)
  | text =>
      if dropped = 0 ∧ text.head? ≠ some 'e' ∧ text.head? ≠ some 'E' then
        nameInteger negative whole
      else nameWithExponent negative whole dropped text

/-- What a number is called in a message. -/
def nameNumber (text : List Char) : Except Fault Found :=
  match dropMinus text with
  | [] => .error .truncated
  | c :: rest =>
      if !c.isDigit || (c == '0' && rest.head?.any Char.isDigit) then .error .malformed
      else
        let whole := absorb 0 ((c :: rest).takeWhile Char.isDigit)
        nameWithWhole (text.head? == some '-') whole.1 whole.2 ((c :: rest).dropWhile Char.isDigit)

end EventAudit.Json
