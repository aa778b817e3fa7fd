/-! # Blank characters and trimming

A character is blank when it has the Unicode property `White_Space`. Trimming
works on characters from either end and never looks inside the text. -/

namespace EventAudit.Text

/-- The ranges of code points with the property `White_Space`. -/
def blankRanges : List (Nat × Nat) :=
  [(0x09, 0x0D), (0x20, 0x20), (0x85, 0x85), (0xA0, 0xA0), (0x1680, 0x1680), (0x2000, 0x200A),
    (0x2028, 0x2029), (0x202F, 0x202F), (0x205F, 0x205F), (0x3000, 0x3000)]

def isBlank (c : Char) : Bool :=
  blankRanges.any fun range => range.1 ≤ c.toNat && c.toNat ≤ range.2

/-- Drop the longest suffix whose characters all satisfy `p`. -/
def dropWhileEnd (p : Char → Bool) (text : List Char) : List Char :=
  (text.reverse.dropWhile p).reverse

/-- The longest suffix whose characters all satisfy `p`. -/
def takeWhileEnd (p : Char → Bool) (text : List Char) : List Char :=
  (text.reverse.takeWhile p).reverse

def trimStart (text : List Char) : List Char :=
  text.dropWhile isBlank

def trimEnd (text : List Char) : List Char :=
  dropWhileEnd isBlank text

/-- Drop the characters satisfying `p` from both ends. -/
def trimWhere (p : Char → Bool) (text : List Char) : List Char :=
  dropWhileEnd p (text.dropWhile p)

def trim (text : List Char) : List Char :=
  trimWhere isBlank text

end EventAudit.Text
