import EventAudit.Json.Fault

/-! # Characters of JSON strings

Reading starts after the opening quote and ends behind the closing one. Controls
have to be escaped, and escaped surrogates have to come in pairs. Like all modules on
JSON, this one stands for the library `serde_json` and follows its documented
behaviour; nothing here belongs to the program itself. -/

namespace EventAudit.Json

/-- A value and the text behind it. -/
abbrev Result (α : Type) := Except Fault (α × List Char)

def isSpace (c : Char) : Bool :=
  c == ' ' || c == '\n' || c == '\t' || c == '\r'

def skipSpace (text : List Char) : List Char :=
  text.dropWhile isSpace

theorem length_skipSpace_le (text : List Char) : (skipSpace text).length ≤ text.length :=
  (List.dropWhile_suffix _).length_le

theorem length_lt_of_skipSpace {text rest : List Char} {c : Char}
    (h : skipSpace text = c :: rest) : rest.length < text.length := by
  have hle := length_skipSpace_le text
  rw [h, List.length_cons] at hle
  exact hle

def hexValue? (c : Char) : Option Nat :=
  if c.isDigit then some (c.toNat - '0'.toNat)
  else if 'a' ≤ c ∧ c ≤ 'f' then some (c.toNat - 'a'.toNat + 10)
  else if 'A' ≤ c ∧ c ≤ 'F' then some (c.toNat - 'A'.toNat + 10)
  else none

/-- Four hexadecimal digits. A text of fewer than four bytes has ended too early, whatever it
holds. -/
def readHex : List Char → Result Nat
  | a :: b :: c :: d :: rest =>
      match hexValue? a, hexValue? b, hexValue? c, hexValue? d with
      | some a, some b, some c, some d => .ok (((a * 16 + b) * 16 + c) * 16 + d, rest)
      | _, _, _, _ => .error .malformed
  | text => if (String.ofList text).utf8ByteSize < 4 then .error .truncated else .error .malformed

theorem length_of_readHex {text rest : List Char} {value : Nat}
    (h : readHex text = .ok (value, rest)) : rest.length < text.length := by
  unfold readHex at h
  split at h
  next =>
    split at h
    next =>
      simp only [Except.ok.injEq, Prod.mk.injEq] at h
      simp only [← h.2, List.length_cons]
      omega
    next => simp at h
  next => split at h <;> simp at h

/-- The character of a pair of surrogates, the first of which is `high`. -/
def readLowSurrogate (high : Nat) : List Char → Result Char
  | [] => .error .truncated
  | ['\\'] => .error .truncated
  | '\\' :: 'u' :: rest =>
      match readHex rest with
      | .error fault => .error fault
      | .ok (low, rest) =>
          if 0xDC00 ≤ low ∧ low ≤ 0xDFFF then
            .ok (Char.ofNat (0x10000 + (high - 0xD800) * 0x400 + (low - 0xDC00)), rest)
          else .error .malformed
  | _ => .error .malformed

theorem length_of_readLowSurrogate {high : Nat} {text rest : List Char} {value : Char}
    (h : readLowSurrogate high text = .ok (value, rest)) : rest.length < text.length := by
  unfold readLowSurrogate at h
  split at h
  next => simp at h
  next => simp at h
  next =>
    split at h
    next => simp at h
    next hread =>
      have hlt := length_of_readHex hread
      split at h
      next =>
        simp only [Except.ok.injEq, Prod.mk.injEq] at h
        simp only [← h.2, List.length_cons]
        omega
      next => simp at h
  next => simp at h

/-- The character of an escape that is a single letter. -/
def shortEscape? (c : Char) : Option Char :=
  if c = '"' then some '"'
  else if c = '\\' then some '\\'
  else if c = '/' then some '/'
  else if c = 'b' then some '\x08'
  else if c = 'f' then some '\x0c'
  else if c = 'n' then some '\n'
  else if c = 'r' then some '\r'
  else if c = 't' then some '\t'
  else none

/-- An escape after its backslash. Surrogates have to come in pairs. -/
def readEscape : List Char → Result Char
  | [] => .error .truncated
  | 'u' :: rest =>
      match readHex rest with
      | .error fault => .error fault
      | .ok (value, rest) =>
          if 0xDC00 ≤ value ∧ value ≤ 0xDFFF then .error .malformed
          else if 0xD800 ≤ value ∧ value ≤ 0xDBFF then readLowSurrogate value rest
          else .ok (Char.ofNat value, rest)
  | c :: rest =>
      match shortEscape? c with
      | some c => .ok (c, rest)
      | none => .error .malformed

theorem length_of_readEscape {text rest : List Char} {value : Char}
    (h : readEscape text = .ok (value, rest)) : rest.length < text.length := by
  unfold readEscape at h
  split at h
  next => simp at h
  next =>
    split at h
    next => simp at h
    next hread =>
      have hlt := length_of_readHex hread
      split at h
      next => simp at h
      next =>
        split at h
        next => have := length_of_readLowSurrogate h; simp only [List.length_cons]; omega
        next =>
          simp only [Except.ok.injEq, Prod.mk.injEq] at h
          simp only [← h.2, List.length_cons]
          omega
  next =>
    split at h
    next => simp only [Except.ok.injEq, Prod.mk.injEq] at h; simp [← h.2]
    next => simp at h

/-- The characters of a string after its opening quote. -/
def readChars (text : List Char) : Result (List Char) :=
  match text with
  | [] => .error .truncated
  | '"' :: rest => .ok ([], rest)
  | '\\' :: rest =>
      match h : readEscape rest with
      | .error fault => .error fault
      | .ok (c, after) =>
          have := length_of_readEscape h
          (readChars after).map fun read => (c :: read.1, read.2)
  | c :: rest =>
      if c.toNat < 0x20 then .error .malformed
      else (readChars rest).map fun read => (c :: read.1, read.2)
termination_by text.length

theorem length_of_readChars {text value rest : List Char}
    (h : readChars text = .ok (value, rest)) : rest.length < text.length := by
  fun_induction readChars text generalizing value with
  | case1 => simp at h
  | case2 => simp only [Except.ok.injEq, Prod.mk.injEq] at h; simp [← h.2]
  | case3 => simp at h
  | case4 text c after hread _ ih =>
      have hlt := length_of_readEscape hread
      cases hchars : readChars after with
      | error => simp [hchars, Except.map] at h
      | ok read =>
          simp only [hchars, Except.map, Except.ok.injEq, Prod.mk.injEq] at h
          have hrest : readChars after = .ok (read.1, rest) := by simp [hchars, ← h.2]
          have := ih hrest
          simp only [List.length_cons]
          omega
  | case5 => simp at h
  | case6 c text _ _ _ ih =>
      cases hchars : readChars text with
      | error => simp [hchars, Except.map] at h
      | ok read =>
          simp only [hchars, Except.map, Except.ok.injEq, Prod.mk.injEq] at h
          have hrest : readChars text = .ok (read.1, rest) := by simp [hchars, ← h.2]
          have := ih hrest
          simp only [List.length_cons]
          omega

end EventAudit.Json
