/-! # Terminal styles

A styled text is one group: the codes of its styles, the text, and the code that
ends all styles. Without colours the text stands alone. This stands for the library
`colored`. -/

namespace EventAudit.Text

inductive Style where
  | bold | dimmed | red | green | yellow | blue | cyan
deriving DecidableEq, Repr

/-- The number that switches the style on. -/
def Style.code : Style → Nat
  | bold => 1
  | dimmed => 2
  | red => 31
  | green => 32
  | yellow => 33
  | blue => 34
  | cyan => 36

/-- `text` in the given styles, in the order given, when `colours` are on. -/
def paint (colours : Bool) (styles : List Style) (text : String) : String :=
  if colours then
    "\x1b[" ++ ";".intercalate (styles.map fun style => toString style.code) ++ "m" ++ text
      ++ "\x1b[0m"
  else text

end EventAudit.Text
