import EventAudit.Json.Number

/-! # Skipping JSON values

A value that nobody asks for is checked for its form only. The brackets that are
open are kept in a list, so that nesting has no limit, and escapes may name lone
surrogates. This is how `serde_json` passes over a value that it ignores. -/

namespace EventAudit.Json

/-- Skip an escape after its backslash. -/
def skipEscape : List Char → Except Fault (List Char)
  | [] => .error .truncated
  | 'u' :: rest => (readHex rest).map (·.2)
  | c :: rest => if (shortEscape? c).isSome then .ok rest else .error .malformed

theorem length_of_skipEscape {text rest : List Char} (h : skipEscape text = .ok rest) :
    rest.length < text.length := by
  unfold skipEscape at h
  split at h
  next => simp at h
  next after =>
    cases hread : readHex after with
    | error => simp [hread, Except.map] at h
    | ok read =>
        simp only [hread, Except.map, Except.ok.injEq] at h
        have := length_of_readHex hread
        simp only [← h, List.length_cons]
        omega
  next =>
    split at h
    next => simp only [Except.ok.injEq] at h; simp [← h]
    next => simp at h

/-- The text after a string whose opening quote has been read. -/
def skipChars (text : List Char) : Except Fault (List Char) :=
  match text with
  | [] => .error .truncated
  | '"' :: rest => .ok rest
  | '\\' :: rest =>
      match h : skipEscape rest with
      | .error fault => .error fault
      | .ok after =>
          have := length_of_skipEscape h
          skipChars after
  | c :: rest => if c.toNat < 0x20 then .error .malformed else skipChars rest
termination_by text.length

theorem length_of_skipChars {text rest : List Char} (h : skipChars text = .ok rest) :
    rest.length < text.length := by
  fun_induction skipChars text with
  | case1 => simp at h
  | case2 => simp only [Except.ok.injEq] at h; simp [← h]
  | case3 => simp at h
  | case4 text after hskip _ ih =>
      have := length_of_skipEscape hskip
      have := ih h
      simp only [List.length_cons]
      omega
  | case5 => simp at h
  | case6 c text _ _ _ ih =>
      have := ih h
      simp only [List.length_cons]
      omega

/-- The text after the given letters. -/
def skipWord : List Char → List Char → Except Fault (List Char)
  | [], text => .ok text
  | _ :: _, [] => .error .truncated
  | letter :: word, c :: rest => if c = letter then skipWord word rest else .error .malformed

theorem length_of_skipWord {word text rest : List Char} (h : skipWord word text = .ok rest) :
    rest.length ≤ text.length := by
  fun_induction skipWord word text with
  | case1 => simp only [Except.ok.injEq] at h; simp [← h]
  | case2 => simp at h
  | case3 _ _ _ ih => have := ih h; simp only [List.length_cons]; omega
  | case4 => simp at h

/-- Skip a value that has no brackets. -/
def skipScalar (text : List Char) : Except Fault (List Char) :=
  match text with
  | [] => .error .truncated
  | 'n' :: rest => skipWord ['u', 'l', 'l'] rest
  | 't' :: rest => skipWord ['r', 'u', 'e'] rest
  | 'f' :: rest => skipWord ['a', 'l', 's', 'e'] rest
  | '"' :: rest => skipChars rest
  | c :: rest =>
      if c = '-' ∨ c.isDigit then
        match skipNumber? (c :: rest) with
        | some after => .ok after
        | none => .error .malformed
      else .error .malformed

theorem length_of_skipScalar {text rest : List Char} (h : skipScalar text = .ok rest) :
    rest.length < text.length := by
  unfold skipScalar at h
  split at h
  next => simp at h
  next => have := length_of_skipWord h; simp only [List.length_cons]; omega
  next => have := length_of_skipWord h; simp only [List.length_cons]; omega
  next => have := length_of_skipWord h; simp only [List.length_cons]; omega
  next => have := length_of_skipChars h; simp only [List.length_cons]; omega
  next =>
    split at h
    next =>
      split at h
      next hskip => simp only [Except.ok.injEq] at h; exact h ▸ length_of_skipNumber? hskip
      next => simp at h
    next => simp at h

inductive Bracket where
  | array
  | object
deriving DecidableEq, Repr

def Bracket.closing : Bracket → Char
  | array => ']'
  | object => '\x7d'

/-- What is looked for next: a value, the name of a member, or the end of the innermost bracket.
The first two may be that end instead when the bracket has just been opened. -/
inductive Stage where
  | value (opened : Bool)
  | member (opened : Bool)
  | close
deriving DecidableEq, Repr

/-- What is looked for after a comma. -/
def Bracket.next : Bracket → Stage
  | array => .value false
  | object => .member false

/-- Where skipping stands: what is looked for, and the open brackets, innermost first. -/
abbrev Progress := Stage × List Bracket

/-- The text after a colon. -/
def skipColon (text : List Char) : Except Fault (List Char) :=
  match skipSpace text with
  | [] => .error .truncated
  | c :: rest => if c = ':' then .ok rest else .error .malformed

theorem length_of_skipColon {text rest : List Char} (h : skipColon text = .ok rest) :
    rest.length < text.length := by
  unfold skipColon at h
  split at h
  next => simp at h
  next hspace =>
    split at h
    next => simp only [Except.ok.injEq] at h; exact h ▸ length_lt_of_skipSpace hspace
    next => simp at h

/-- The text after the name of a member, whose opening quote has been read, and its colon. -/
def skipName (text : List Char) : Except Fault (List Char) :=
  match skipChars text with
  | .error fault => .error fault
  | .ok after => skipColon after

theorem length_of_skipName {text rest : List Char} (h : skipName text = .ok rest) :
    rest.length < text.length := by
  unfold skipName at h
  split at h
  next => simp at h
  next hchars =>
    have := length_of_skipChars hchars
    have := length_of_skipColon h
    omega

/-- Skip one token. -/
def skipToken (progress : Progress) (c : Char) (rest : List Char) : Result Progress :=
  match progress with
  | (.value opened, brackets) =>
      if opened ∧ c = Bracket.array.closing then .ok ((.close, brackets.tail), rest)
      else if c = '[' then .ok ((.value true, .array :: brackets), rest)
      else if c = '\x7b' then .ok ((.member true, .object :: brackets), rest)
      else (skipScalar (c :: rest)).map fun after => ((.close, brackets), after)
  | (.member opened, brackets) =>
      if opened ∧ c = Bracket.object.closing then .ok ((.close, brackets.tail), rest)
      else if c = '"' then (skipName rest).map fun after => ((.value false, brackets), after)
      else .error .malformed
  | (.close, []) => .error .malformed
  | (.close, bracket :: outer) =>
      if c = ',' then .ok ((bracket.next, bracket :: outer), rest)
      else if c = bracket.closing then .ok ((.close, outer), rest)
      else .error .malformed

theorem length_of_skipToken {progress next : Progress} {c : Char} {text rest : List Char}
    (h : skipToken progress c text = .ok (next, rest)) : rest.length ≤ text.length := by
  unfold skipToken at h
  split at h
  next =>
    split at h
    next => simp only [Except.ok.injEq, Prod.mk.injEq] at h; simp [← h.2]
    next =>
      split at h
      next => simp only [Except.ok.injEq, Prod.mk.injEq] at h; simp [← h.2]
      next =>
        split at h
        next => simp only [Except.ok.injEq, Prod.mk.injEq] at h; simp [← h.2]
        next =>
          cases hscalar : skipScalar (c :: text) with
          | error => simp [hscalar, Except.map] at h
          | ok after =>
              simp only [hscalar, Except.map, Except.ok.injEq, Prod.mk.injEq] at h
              have hlt := length_of_skipScalar hscalar
              rw [h.2, List.length_cons] at hlt
              omega
  next =>
    split at h
    next => simp only [Except.ok.injEq, Prod.mk.injEq] at h; simp [← h.2]
    next =>
      split at h
      next =>
        cases hname : skipName text with
        | error => simp [hname, Except.map] at h
        | ok after =>
            simp only [hname, Except.map, Except.ok.injEq, Prod.mk.injEq] at h
            have hlt := length_of_skipName hname
            rw [h.2] at hlt
            omega
      next => simp at h
  next => simp at h
  next =>
    split at h
    next => simp only [Except.ok.injEq, Prod.mk.injEq] at h; simp [← h.2]
    next =>
      split at h
      next => simp only [Except.ok.injEq, Prod.mk.injEq] at h; simp [← h.2]
      next => simp at h

/-- The text after the value at hand: skipping ends when no bracket is open any more. -/
def skipFrom (progress : Progress) (text : List Char) : Except Fault (List Char) :=
  if progress = (.close, []) then .ok text
  else
    match h : skipSpace text with
    | [] => .error .truncated
    | c :: rest =>
        match htoken : skipToken progress c rest with
        | .error fault => .error fault
        | .ok (next, after) =>
            have := length_lt_of_skipSpace h
            have := length_of_skipToken htoken
            skipFrom next after
termination_by text.length

theorem length_of_skipFrom {progress : Progress} {text rest : List Char}
    (h : skipFrom progress text = .ok rest) : rest.length ≤ text.length := by
  fun_induction skipFrom progress text with
  | case1 => simp only [Except.ok.injEq] at h; simp [← h]
  | case2 => simp at h
  | case3 => simp at h
  | case4 _ _ _ c after hspace next later htoken _ _ ih =>
      have := ih h
      have := length_lt_of_skipSpace hspace
      have := length_of_skipToken htoken
      omega

/-- The text after a value. -/
def skipValue (text : List Char) : Except Fault (List Char) :=
  skipFrom (.value false, []) text

end EventAudit.Json
