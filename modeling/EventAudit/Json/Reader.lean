import EventAudit.Json.Skip

/-! # Reading JSON into records

A reader takes a value of the shape it wants off the front of a text. The text is
consumed from left to right, and the first problem decides what is reported: a
value of another shape is reported as soon as it has been recognised, even when
the text behind it is broken. A record may be written as an object or as the array
of its fields; fields that are left out keep their defaults, and members that the
record does not have are skipped.

Every reader consumes something when it succeeds, which is why repetition ends.

The readers stand for the deserializers of `serde_json` and for those that `serde`
derives for records; they follow the documented behaviour of both. -/

namespace EventAudit.Json

structure Reader (α : Type) where
  run : List Char → Result α
  shrinks : ∀ {text value rest}, run text = .ok (value, rest) → rest.length < text.length

/-- Name the value at the front of a text that has another shape than the wanted one. -/
def faultOfShape (expected : String) : List Char → Fault
  | [] => .truncated
  | 'n' :: rest => word ['u', 'l', 'l'] rest .null
  | 't' :: rest => word ['r', 'u', 'e'] rest (.boolean true)
  | 'f' :: rest => word ['a', 'l', 's', 'e'] rest (.boolean false)
  | '"' :: rest =>
      match readChars rest with
      | .ok (value, _) => .unexpected (.string value) expected
      | .error fault => fault
  | '[' :: _ => .unexpected .sequence expected
  | '\x7b' :: _ => .unexpected .map expected
  | c :: rest =>
      if c = '-' ∨ c.isDigit then
        match nameNumber (c :: rest) with
        | .ok found => .unexpected found expected
        | .error fault => fault
      else .malformed
where
  /-- A word that has to be spelled out. -/
  word (letters rest : List Char) (found : Found) : Fault :=
    match skipWord letters rest with
    | .ok _ => .unexpected found expected
    | .error fault => fault

/-- Read a value that starts with `opening`, and the rest of it by `next`. -/
def readAfter (opening : Char) (expected : String) (next : List Char → Result α)
    (text : List Char) : Result α :=
  match skipSpace text with
  | [] => .error .truncated
  | c :: rest => if c = opening then next rest else .error (faultOfShape expected (c :: rest))

theorem length_of_readAfter {opening : Char} {expected : String} {next : List Char → Result α}
    (hnext : ∀ {text value rest}, next text = .ok (value, rest) → rest.length < text.length)
    {text rest : List Char} {value : α}
    (h : readAfter opening expected next text = .ok (value, rest)) :
    rest.length < text.length := by
  unfold readAfter at h
  split at h
  next => simp at h
  next hspace =>
    split at h
    next =>
      have := length_lt_of_skipSpace hspace
      have := hnext h
      omega
    next => simp at h

/-- What stands at a place where an item may begin: the closing bracket, or an item. -/
inductive Item where
  | close (rest : List Char)
  | item (text : List Char)

/-- Find the next item, with the comma before it unless it is the first. -/
def nextItem (closing : Char) (first : Bool) (text : List Char) : Except Fault Item :=
  match skipSpace text with
  | [] => .error .truncated
  | c :: rest =>
      if c = closing then .ok (.close rest)
      else if first then .ok (.item (c :: rest))
      else if c = ',' then
        match skipSpace rest with
        | [] => .error .truncated
        | c :: rest => if c = closing then .error .malformed else .ok (.item (c :: rest))
      else .error .malformed

theorem length_of_nextItem_close {closing : Char} {first : Bool} {text rest : List Char}
    (h : nextItem closing first text = .ok (.close rest)) : rest.length < text.length := by
  unfold nextItem at h
  grind [→ length_lt_of_skipSpace]

theorem length_of_nextItem_item {closing : Char} {first : Bool} {text rest : List Char}
    (h : nextItem closing first text = .ok (.item rest)) : rest.length ≤ text.length := by
  unfold nextItem at h
  have hle := length_skipSpace_le text
  split at h
  next => simp at h
  next c after hspace =>
    have hlt := length_lt_of_skipSpace hspace
    have hle' := length_skipSpace_le after
    grind

/-! ## Strings and arrays -/

def string : Reader String where
  run := readAfter '"' "a string" fun text =>
    (readChars text).map fun read => (String.ofList read.1, read.2)
  shrinks := length_of_readAfter fun {text value rest} h => by
    cases hchars : readChars text with
    | error => simp [hchars, Except.map] at h
    | ok read =>
        simp only [hchars, Except.map, Except.ok.injEq, Prod.mk.injEq] at h
        exact h.2 ▸ length_of_readChars hchars

/-- The items of an array after its opening bracket. -/
def readItems (item : Reader α) (first : Bool) (text : List Char) : Result (List α) :=
  match hnext : nextItem ']' first text with
  | .error fault => .error fault
  | .ok (.close rest) => .ok ([], rest)
  | .ok (.item start) =>
      match hitem : item.run start with
      | .error fault => .error fault
      | .ok (value, rest) =>
          have := length_of_nextItem_item hnext
          have := item.shrinks hitem
          (readItems item false rest).map fun read => (value :: read.1, read.2)
termination_by text.length

theorem length_of_readItems {item : Reader α} {first : Bool} {text rest : List Char}
    {values : List α} (h : readItems item first text = .ok (values, rest)) :
    rest.length < text.length := by
  fun_induction readItems item first text generalizing values with
  | case1 => simp at h
  | case2 _ _ _ hnext =>
      simp only [Except.ok.injEq, Prod.mk.injEq] at h
      exact h.2 ▸ length_of_nextItem_close hnext
  | case3 => simp at h
  | case4 _ _ start hnext value after hitem _ _ ih =>
      have := length_of_nextItem_item hnext
      have := item.shrinks hitem
      cases hitems : readItems item false after with
      | error => simp [hitems, Except.map] at h
      | ok read =>
          simp only [hitems, Except.map, Except.ok.injEq, Prod.mk.injEq] at h
          have hrest : readItems item false after = .ok (read.1, rest) := by simp [hitems, ← h.2]
          have := ih hrest
          omega

def array (item : Reader α) : Reader (List α) where
  run := readAfter '[' "a sequence" (readItems item true)
  shrinks := length_of_readAfter length_of_readItems

/-! ## Records -/

/-- A field of a record: its name, and how its value is put into the record. -/
structure RecordField (α : Type) where
  name : String
  read : α → Reader α

/-- A field whose values are read by `reader`. -/
def RecordField.of (name : String) (reader : Reader β) (put : α → β → α) : RecordField α where
  name
  read record :=
    { run := fun text => (reader.run text).map fun read => (put record read.1, read.2)
      shrinks := fun {text value rest} h => by
        cases hrun : reader.run text with
        | error => simp [hrun, Except.map] at h
        | ok read =>
            simp only [hrun, Except.map, Except.ok.injEq, Prod.mk.injEq] at h
            exact h.2 ▸ reader.shrinks hrun }

/-- The end of an array in which all fields have been read. -/
def readTupleEnd (record : α) (text : List Char) : Result α :=
  match skipSpace text with
  | [] => .error .truncated
  | c :: rest => if c = ']' then .ok (record, rest) else .error .malformed

/-- The fields of a record that is written as an array, after its opening bracket. -/
def readTuple : List (RecordField α) → Bool → α → List Char → Result α
  | [], _, record, text => readTupleEnd record text
  | field :: fields, first, record, text =>
      match nextItem ']' first text with
      | .error fault => .error fault
      | .ok (.close rest) => .ok (record, rest)
      | .ok (.item start) =>
          match (field.read record).run start with
          | .error fault => .error fault
          | .ok (record, rest) => readTuple fields false record rest

theorem length_of_readTuple {fields : List (RecordField α)} {first : Bool} {record value : α}
    {text rest : List Char} (h : readTuple fields first record text = .ok (value, rest)) :
    rest.length < text.length := by
  induction fields generalizing first record text with
  | nil =>
      rw [readTuple, readTupleEnd] at h
      grind [→ length_lt_of_skipSpace]
  | cons field fields ih =>
      rw [readTuple] at h
      split at h
      next => simp at h
      next hnext =>
        simp only [Except.ok.injEq, Prod.mk.injEq] at h
        exact h.2 ▸ length_of_nextItem_close hnext
      next hnext =>
        split at h
        next => simp at h
        next hread =>
          have := length_of_nextItem_item hnext
          have := (field.read record).shrinks hread
          have := ih h
          omega

/-- Read the value of a member whose name and colon have been read; a member that the record does
not have is skipped. -/
def readMember (field : Option (RecordField α)) (record : α) (text : List Char) : Result α :=
  match field with
  | some field => (field.read record).run text
  | none => (skipValue text).map fun rest => (record, rest)

theorem length_of_readMember {field : Option (RecordField α)} {record value : α}
    {text rest : List Char} (h : readMember field record text = .ok (value, rest)) :
    rest.length ≤ text.length := by
  unfold readMember at h
  split at h
  next field => exact Nat.le_of_lt ((field.read record).shrinks h)
  next =>
    cases hskip : skipValue text with
    | error => simp [hskip, Except.map] at h
    | ok after =>
        simp only [hskip, Except.map, Except.ok.injEq, Prod.mk.injEq] at h
        exact h.2 ▸ length_of_skipFrom hskip

/-- The name of a member. -/
def readName (text : List Char) : Result String :=
  match text with
  | '"' :: rest => (readChars rest).map fun read => (String.ofList read.1, read.2)
  | _ => .error .malformed

theorem length_of_readName {text rest : List Char} {name : String}
    (h : readName text = .ok (name, rest)) : rest.length < text.length := by
  unfold readName at h
  split at h
  next after =>
    cases hchars : readChars after with
    | error => simp [hchars, Except.map] at h
    | ok read =>
        simp only [hchars, Except.map, Except.ok.injEq, Prod.mk.injEq] at h
        have hlt := length_of_readChars hchars
        rw [h.2] at hlt
        simp only [List.length_cons]
        omega
  next => simp at h

/-- The members of a record after its opening bracket, of which `seen` have been read. A member
that the record has may come once. -/
def readMembers (fields : List (RecordField α)) (seen : List String) (first : Bool) (record : α)
    (text : List Char) : Result α :=
  match hnext : nextItem '\x7d' first text with
  | .error fault => .error fault
  | .ok (.close rest) => .ok (record, rest)
  | .ok (.item start) =>
      match hname : readName start with
      | .error fault => .error fault
      | .ok (name, afterName) =>
          let field := fields.find? (·.name == name)
          if field.isSome && seen.contains name then .error (.repeated name)
          else
            match hcolon : skipColon afterName with
            | .error fault => .error fault
            | .ok afterColon =>
                match hvalue : readMember field record afterColon with
                | .error fault => .error fault
                | .ok (record, rest) =>
                    have := length_of_nextItem_item hnext
                    have := length_of_readName hname
                    have := length_of_skipColon hcolon
                    have := length_of_readMember hvalue
                    readMembers fields (name :: seen) false record rest
termination_by text.length

theorem length_of_readMembers {fields : List (RecordField α)} {seen : List String} {first : Bool}
    {record value : α} {text rest : List Char}
    (h : readMembers fields seen first record text = .ok (value, rest)) :
    rest.length < text.length := by
  fun_induction readMembers fields seen first record text with
  | case1 => simp at h
  | case2 _ _ _ _ _ hnext =>
      simp only [Except.ok.injEq, Prod.mk.injEq] at h
      exact h.2 ▸ length_of_nextItem_close hnext
  | case3 => simp at h
  | case4 => simp at h
  | case5 => simp at h
  | case6 => simp at h
  | case7 => have := ‹_ → _› h; omega

/-- A record with the given fields, called `struct name` in messages. -/
def readRecord (name : String) (fields : List (RecordField α)) (record : α) (text : List Char) :
    Result α :=
  match skipSpace text with
  | [] => .error .truncated
  | c :: rest =>
      if c = '[' then readTuple fields true record rest
      else if c = '\x7b' then readMembers fields [] true record rest
      else .error (faultOfShape ("struct " ++ name) (c :: rest))

theorem length_of_readRecord {name : String} {fields : List (RecordField α)} {record value : α}
    {text rest : List Char} (h : readRecord name fields record text = .ok (value, rest)) :
    rest.length < text.length := by
  unfold readRecord at h
  split at h
  next => simp at h
  next hspace =>
    have := length_lt_of_skipSpace hspace
    split at h
    next => have := length_of_readTuple h; omega
    next =>
      split at h
      next => have := length_of_readMembers h; omega
      next => simp at h

def record (name : String) (fields : List (RecordField α)) (default : α) : Reader α where
  run := readRecord name fields default
  shrinks := length_of_readRecord

/-- Read a text that holds one value and nothing else. -/
def Reader.parse (reader : Reader α) (text : List Char) : Except Fault α :=
  match reader.run text with
  | .error fault => .error fault
  | .ok (value, rest) => if (skipSpace rest).isEmpty then .ok value else .error .malformed

end EventAudit.Json
