import EventAudit.Text.Blank

/-! # The shortest decimal of a binary number

A binary floating-point number is one point of a window of reals that all round
to it. Its shortest decimal is the one with the fewest digits inside that window,
and of two such the nearer. All of this is arithmetic on natural numbers. -/

namespace EventAudit

/-- A positive decimal: its digits, the first of which stands for `10 ^ lead`. -/
structure Decimal where
  digits : List Char
  lead : Int
deriving DecidableEq, Repr

namespace Decimal

/-- The reals from `low / den` to `high / den` around `value / den`; the ends belong to the
window when it is closed. -/
structure Window where
  low : Nat
  value : Nat
  high : Nat
  den : Nat
  closed : Bool
deriving DecidableEq, Repr

namespace Window

/-- Whether `num / den` lies in the window. -/
def contains (window : Window) (num den : Nat) : Bool :=
  if window.closed then
    window.low * den ≤ num * window.den && num * window.den ≤ window.high * den
  else window.low * den < num * window.den && num * window.den < window.high * den

/-- The exponent of the value's leading decimal digit. -/
def lead (window : Window) : Int :=
  if window.den ≤ window.value then
    ((Nat.toDigits 10 (window.value / window.den)).length : Int) - 1
  else
    let size := (Nat.toDigits 10 (window.den / window.value)).length
    if window.value * Nat.pow 10 (size - 1) = window.den then 1 - (size : Int) else -(size : Int)

/-- The decimal of `count` digits in the window that is nearest to its value, a tie going to the
even neighbour. -/
def nearest? (window : Window) (count : Nat) : Option Decimal :=
  let step := window.lead + 1 - (count : Int)
  let finer := Nat.pow 10 (-step).toNat
  let coarser := Nat.pow 10 step.toNat
  let num := window.value * finer
  let den := window.den * coarser
  let below := num / den
  let inside := fun digits : Nat => window.contains (digits * coarser) finer
  let decimal := fun digits : Nat =>
    let text := Nat.toDigits 10 digits
    { digits := Text.dropWhileEnd (· == '0') text, lead := step + text.length - 1 : Decimal }
  let upper := 2 * (num - below * den)
  match inside below, inside (below + 1) with
  | true, true =>
      if upper < den ∨ (upper = den ∧ below % 2 = 0) then some (decimal below)
      else some (decimal (below + 1))
  | true, false => some (decimal below)
  | false, true => some (decimal (below + 1))
  | false, false => none

/-- The decimal with the fewest digits in the window; seventeen are enough for any window of a
64-bit number. -/
def shortest? (window : Window) : Option Decimal :=
  (List.range 17).findSome? fun i => window.nearest? (i + 1)

/-- The window of the number with the given significand and binary exponent. The window is
narrower below a power of two, where the numbers lie closer together. -/
def ofBinary (significand : Nat) (exponent : Int) (powerOfTwo : Bool) : Window :=
  let scale := Nat.pow 2 (exponent - 2).toNat
  { low := (4 * significand - if powerOfTwo then 1 else 2) * scale
    value := 4 * significand * scale
    high := (4 * significand + 2) * scale
    den := Nat.pow 2 (2 - exponent).toNat
    closed := significand % 2 = 0 }

/-- The window of a finite number other than zero, its sign left out. -/
def ofFloat (number : Float) : Window :=
  let bits : Nat := number.toBits.toNat
  let fraction : Nat := bits % Nat.pow 2 52
  let field : Nat := bits / Nat.pow 2 52 % Nat.pow 2 11
  if field = 0 then ofBinary fraction (-1074) false
  else ofBinary (Nat.pow 2 52 + fraction) ((field : Int) - 1075) (fraction = 0 && 1 < field)

end Window

/-- How a decimal is laid out: positionally while the leading exponent is in a range, with one
place at least behind the point, and with a signed exponent otherwise. -/
structure Format where
  leastLead : Int
  mostLead : Int
  plusSign : Bool
deriving DecidableEq, Repr

namespace Format

def scientific (format : Format) (decimal : Decimal) : List Char :=
  let fraction := decimal.digits.drop 1
  decimal.digits.take 1 ++ (if fraction.isEmpty then [] else '.' :: fraction) ++ ['e'] ++
    (if decimal.lead < 0 then ['-'] else if format.plusSign then ['+'] else []) ++
    Nat.toDigits 10 decimal.lead.natAbs

def positional (decimal : Decimal) : List Char :=
  if decimal.lead < 0 then
    ['0', '.'] ++ List.replicate (decimal.lead.natAbs - 1) '0' ++ decimal.digits
  else
    let whole := decimal.lead.toNat + 1
    let fraction := decimal.digits.drop whole
    decimal.digits.take whole ++ List.replicate (whole - decimal.digits.length) '0' ++ ['.'] ++
      (if fraction.isEmpty then ['0'] else fraction)

def render (format : Format) (decimal : Decimal) : List Char :=
  if format.leastLead ≤ decimal.lead ∧ decimal.lead ≤ format.mostLead then positional decimal
  else format.scientific decimal

/-- A finite number, zero included, with its sign. -/
def renderFloat (format : Format) (number : Float) : List Char :=
  let magnitude :=
    if number == 0 then ['0', '.', '0']
    else ((Window.ofFloat number).shortest?.map format.render).getD []
  if number.toBits.toNat / Nat.pow 2 63 = 1 then '-' :: magnitude else magnitude

end Format
end Decimal
end EventAudit
