import EventAudit.Json.Layout
import EventAudit.Json.Reader
import Mathlib.Data.List.Forall2

/-! # Reading what has been written

A reader takes a value back off every text to which the layout of the value has written it,
whatever the depth and whatever follows. This holds of strings, and it carries over to
arrays and to records, so that the readers and layouts of a format are matched piece by
piece. -/

namespace EventAudit.Json

/-! ## Characters -/

section Chars

variable {c : Char} {text rest after : List Char}

theorem readChars_quote : readChars ('"' :: rest) = .ok ([], rest) := by
  rw [readChars]

theorem readChars_escape (hescape : readEscape text = .ok (c, after)) :
    readChars ('\\' :: text) = (readChars after).map fun read => (c :: read.1, read.2) := by
  rw [readChars]
  split
  next hfault =>
    rw [hescape] at hfault
    cases hfault
  next hread =>
    rw [hescape] at hread
    obtain ⟨rfl, rfl⟩ := Prod.mk.inj (Except.ok.inj hread)
    rfl

theorem readChars_plain (hquote : c ≠ '"') (hbackslash : c ≠ '\\') (hcontrol : ¬c.toNat < 0x20) :
    readChars (c :: text) = (readChars text).map fun read => (c :: read.1, read.2) := by
  rw [readChars]
  · rw [if_neg hcontrol]
  · exact hquote
  · exact hbackslash

theorem hexValue?_digitChar {n : Nat} (hn : n < 16) : hexValue? (Nat.digitChar n) = some n := by
  have hall : ∀ n : Fin 16, hexValue? (Nat.digitChar n) = some n.val := by decide
  exact hall ⟨n, hn⟩

/-- The escape of a control that has no letter. -/
theorem readEscape_control (hcontrol : c.toNat < 0x20) :
    readEscape ('u' :: '0' :: '0' :: Nat.digitChar (c.toNat / 16) ::
      Nat.digitChar (c.toNat % 16) :: rest) = .ok (c, rest) := by
  have hzero : hexValue? '0' = some 0 := by decide
  have hhigh : hexValue? (Nat.digitChar (c.toNat / 16)) = some (c.toNat / 16) :=
    hexValue?_digitChar (by omega)
  have hlow : hexValue? (Nat.digitChar (c.toNat % 16)) = some (c.toNat % 16) :=
    hexValue?_digitChar (by omega)
  have hvalue : ((0 * 16 + 0) * 16 + c.toNat / 16) * 16 + c.toNat % 16 = c.toNat := by omega
  have hhex : readHex ('0' :: '0' :: Nat.digitChar (c.toNat / 16) ::
      Nat.digitChar (c.toNat % 16) :: rest) = .ok (c.toNat, rest) := by
    simp only [readHex, hzero, hhigh, hlow, hvalue]
  simp only [readEscape, hhex]
  rw [if_neg (by omega), if_neg (by omega), Char.ofNat_toNat]

/-- Each character is read as it was written. -/
theorem readChars_escapeChar_append (c : Char) (text : List Char) :
    readChars (escapeChar c ++ text) =
      (readChars text).map fun read => (c :: read.1, read.2) := by
  rw [escapeChar]
  split_ifs with hquote hbackslash hbackspace htab hfeed hform hreturn hcontrol
  · subst hquote
    exact readChars_escape rfl
  · subst hbackslash
    exact readChars_escape rfl
  · subst hbackspace
    exact readChars_escape rfl
  · subst htab
    exact readChars_escape rfl
  · subst hfeed
    exact readChars_escape rfl
  · subst hform
    exact readChars_escape rfl
  · subst hreturn
    exact readChars_escape rfl
  · exact readChars_escape (readEscape_control hcontrol)
  · exact readChars_plain hquote hbackslash hcontrol

theorem readChars_flatMap_escapeChar (text rest : List Char) :
    readChars (text.flatMap escapeChar ++ '"' :: rest) = .ok (text, rest) := by
  induction text with
  | nil => exact readChars_quote
  | cons c text ih =>
      rw [List.flatMap_cons, List.append_assoc, readChars_escapeChar_append, ih]
      rfl

end Chars

/-! ## Values -/

/-- Whether a reader takes a value off every text to which a layout has written it. -/
structure Reads (reader : Reader α) (layout : Layout) (value : α) : Prop where
  /-- The text starts with a character that can neither be skipped nor taken for an end. -/
  opens : ∀ depth, ∃ c rest, layout depth = c :: rest ∧ isSpace c = false ∧ c ≠ ']'
  run : ∀ {depth : Nat} {text rest : List Char}, skipSpace text = layout depth ++ rest →
    reader.run text = .ok (value, rest)

section Space

variable {c : Char} {spaces text rest : List Char}

theorem skipSpace_append (hspaces : ∀ c ∈ spaces, isSpace c = true) :
    skipSpace (spaces ++ text) = skipSpace text :=
  List.dropWhile_append_of_pos hspaces

theorem skipSpace_cons (hc : isSpace c = false) : skipSpace (c :: rest) = c :: rest :=
  List.dropWhile_cons_of_neg (by simp [hc])

/-- A line feed and an indentation are skipped. -/
theorem skipSpace_line (depth : Nat) (hc : isSpace c = false) :
    skipSpace ('\n' :: (Layout.indent depth ++ c :: rest)) = c :: rest := by
  have hspaces : ∀ c ∈ '\n' :: Layout.indent depth, isSpace c = true := by
    simp [Layout.indent, isSpace]
  rw [← List.cons_append, skipSpace_append hspaces, skipSpace_cons hc]

end Space

theorem readAfter_of_skipSpace {opening : Char} {expected : String}
    {next : List Char → Result α} {text rest : List Char}
    (hopening : skipSpace text = opening :: rest) :
    readAfter opening expected next text = next rest := by
  rw [readAfter, hopening]
  dsimp only
  rw [if_pos rfl]

theorem reads_string (text : String) : Reads Json.string (.string text) text where
  opens _ := ⟨_, _, rfl, by decide, by decide⟩
  run {depth source rest} hsource := by
    have htext : Layout.string text depth ++ rest =
        '"' :: (text.toList.flatMap escapeChar ++ '"' :: rest) := by
      simp [Layout.string, stringText]
    rw [htext] at hsource
    rw [Json.string]
    dsimp only
    rw [readAfter_of_skipSpace hsource, readChars_flatMap_escapeChar]
    simp [Except.map]

/-! ## Blocks -/

section Block

variable {closing : Char} {depth : Nat}

/-- What a block holds where its first or a later item is due: the items and the end. -/
def blockItems (closing : Char) (depth : Nat) : (first : Bool) → List Layout → List Char
  | true, [] => [closing]
  | false, [] => '\n' :: (Layout.indent depth ++ [closing])
  | first, item :: items =>
      (if first then ['\n'] else [',', '\n']) ++
        (Layout.indent (depth + 1) ++ (item (depth + 1) ++ blockItems closing depth false items))

theorem intercalate_append_end (closing : Char) (depth : Nat) (item : Layout)
    (items : List Layout) :
    [',', '\n'].intercalate
        ((item :: items).map fun item => Layout.indent (depth + 1) ++ item (depth + 1)) ++
      '\n' :: (Layout.indent depth ++ [closing]) =
    Layout.indent (depth + 1) ++ (item (depth + 1) ++ blockItems closing depth false items) := by
  induction items generalizing item with
  | nil => simp [blockItems]
  | cons next items ih =>
      have hnext := ih next
      rw [List.map_cons] at hnext
      rw [List.map_cons, List.map_cons, List.intercalate_cons_cons, List.append_assoc,
        List.append_assoc, List.append_assoc, hnext]
      rfl

theorem block_eq_cons (opening : Char) (items : List Layout) :
    Layout.block opening closing items depth =
      opening :: blockItems closing depth true items := by
  cases items with
  | nil => rfl
  | cons item items =>
      have hend := intercalate_append_end closing depth item items
      simp only [Layout.block, blockItems, List.isEmpty_cons]
      simpa using hend

/-- The end of a block is found behind its last item. -/
theorem nextItem_nil (hspace : isSpace closing = false) (first : Bool) (rest : List Char) :
    nextItem closing first (blockItems closing depth first [] ++ rest) = .ok (.close rest) := by
  have hskip : skipSpace (blockItems closing depth first [] ++ rest) = closing :: rest := by
    cases first with
    | false =>
        rw [blockItems, List.cons_append, List.append_assoc]
        exact skipSpace_line depth hspace
    | true => exact skipSpace_cons hspace
  rw [nextItem, hskip]
  dsimp only
  rw [if_pos rfl]

/-- An item of a block is found, behind a comma unless it is the first one. -/
theorem nextItem_cons (hcomma : closing ≠ ',') {item : Layout} {c : Char} {text : List Char}
    (hitem : item (depth + 1) = c :: text) (hspace : isSpace c = false) (hclosing : c ≠ closing)
    (first : Bool) (items : List Layout) (rest : List Char) :
    nextItem closing first (blockItems closing depth first (item :: items) ++ rest) =
      .ok (.item (item (depth + 1) ++ (blockItems closing depth false items ++ rest))) := by
  rw [blockItems, hitem]
  cases first with
  | true =>
      simp only [if_true, List.cons_append, List.nil_append, List.append_assoc]
      rw [nextItem, skipSpace_line _ hspace]
      dsimp only
      rw [if_neg hclosing, if_pos rfl]
  | false =>
      simp only [Bool.false_eq_true, if_false, List.cons_append, List.nil_append,
        List.append_assoc]
      rw [nextItem, skipSpace_cons (by decide)]
      dsimp only
      rw [if_neg hcomma.symm, if_neg (by decide), if_pos rfl, skipSpace_line _ hspace]
      dsimp only
      rw [if_neg hclosing]

end Block

/-! ## Arrays -/

/-- What has been written is what `skipSpace` leaves. -/
theorem Reads.run_append {reader : Reader α} {layout : Layout} {value : α}
    (hreads : Reads reader layout value) (depth : Nat) (rest : List Char) :
    reader.run (layout depth ++ rest) = .ok (value, rest) := by
  obtain ⟨c, text, hlayout, hspace, -⟩ := hreads.opens depth
  apply hreads.run
  rw [hlayout, List.cons_append, skipSpace_cons hspace]

section Items

variable {item : Reader α} {first : Bool} {text start after rest : List Char}

theorem readItems_of_close (hnext : nextItem ']' first text = .ok (.close rest)) :
    readItems item first text = .ok ([], rest) := by
  rw [readItems]
  split <;> simp_all

theorem readItems_of_item {value : α} (hnext : nextItem ']' first text = .ok (.item start))
    (hitem : item.run start = .ok (value, after)) :
    readItems item first text =
      (readItems item false after).map fun read => (value :: read.1, read.2) := by
  rw [readItems]
  split
  next => simp_all
  next => simp_all
  next hstart =>
    rw [hnext] at hstart
    obtain rfl := Item.item.inj (Except.ok.inj hstart)
    split <;> simp_all

theorem readItems_blockItems {layouts : List Layout} {values : List α}
    (hitems : List.Forall₂ (Reads item) layouts values) (first : Bool) (depth : Nat)
    (rest : List Char) :
    readItems item first (blockItems ']' depth first layouts ++ rest) = .ok (values, rest) := by
  induction hitems generalizing first with
  | nil => exact readItems_of_close (nextItem_nil (by decide) first rest)
  | @cons layout value layouts values hitem hitems ih =>
      obtain ⟨c, text, hlayout, hspace, hclosing⟩ := hitem.opens (depth + 1)
      rw [readItems_of_item (nextItem_cons (by decide) hlayout hspace hclosing first layouts rest)
        (hitem.run_append _ _), ih]
      rfl

/-- An array is read if its items are. -/
theorem reads_array {layouts : List Layout} {values : List α}
    (hitems : List.Forall₂ (Reads item) layouts values) :
    Reads (Json.array item) (.array layouts) values where
  opens depth := ⟨_, _, block_eq_cons _ _, by decide, by decide⟩
  run {depth text rest} htext := by
    rw [Layout.array, block_eq_cons, List.cons_append] at htext
    rw [Json.array]
    dsimp only
    rw [readAfter_of_skipSpace htext, readItems_blockItems hitems]

end Items

/-! ## Records -/

/-- Whether members, when they are read one after the other, make one record out of another; some
have been seen before. -/
inductive Makes (fields : List (RecordField α)) :
    (seen : List String) → α → List (String × Layout) → α → Prop where
  | nil {seen : List String} {record : α} : Makes fields seen record [] record
  | cons {seen : List String} {record next final : α} {name : String} {layout : Layout}
      {members : List (String × Layout)} {field : RecordField α}
      (hfield : fields.find? (·.name == name) = some field) (hseen : name ∉ seen)
      (hvalue : Reads (field.read record) layout next)
      (hmembers : Makes fields (name :: seen) next members final) :
      Makes fields seen record ((name, layout) :: members) final

section Members

variable {fields : List (RecordField α)} {seen : List String} {first : Bool} {record : α}
  {text start rest : List Char}

theorem readMembers_of_close (hnext : nextItem '\x7d' first text = .ok (.close rest)) :
    readMembers fields seen first record text = .ok (record, rest) := by
  rw [readMembers]
  split <;> simp_all

theorem readMembers_of_item {name : String} {field : RecordField α} {next : α}
    {afterName afterColon : List Char}
    (hnext : nextItem '\x7d' first text = .ok (.item start))
    (hname : readName start = .ok (name, afterName))
    (hfield : fields.find? (·.name == name) = some field) (hseen : name ∉ seen)
    (hcolon : skipColon afterName = .ok afterColon)
    (hvalue : (field.read record).run afterColon = .ok (next, rest)) :
    readMembers fields seen first record text =
      readMembers fields (name :: seen) false next rest := by
  rw [readMembers]
  split
  next => simp_all
  next => simp_all
  next hstart =>
    rw [hnext] at hstart
    obtain rfl := Item.item.inj (Except.ok.inj hstart)
    split
    next => simp_all
    next hread =>
      rw [hname] at hread
      obtain ⟨rfl, rfl⟩ := Prod.mk.inj (Except.ok.inj hread)
      have hnew : ¬((fields.find? (·.name == name)).isSome && seen.contains name) = true := by
        rw [Bool.and_eq_true, List.contains_iff_mem]
        exact fun hrepeated => hseen hrepeated.2
      dsimp only
      rw [if_neg hnew]
      have hmember : readMember (fields.find? (·.name == name)) record afterColon =
          .ok (next, rest) := by
        rw [hfield, readMember, hvalue]
      split
      next => simp_all
      next hskip =>
        rw [hcolon] at hskip
        obtain rfl := Except.ok.inj hskip
        split
        next => simp_all
        next hnow =>
          rw [hmember] at hnow
          obtain ⟨rfl, rfl⟩ := Prod.mk.inj (Except.ok.inj hnow)
          rfl

theorem readName_stringText (name : String) (rest : List Char) :
    readName (stringText name.toList ++ rest) = .ok (name, rest) := by
  have hsplit : stringText name.toList ++ rest =
      '"' :: (name.toList.flatMap escapeChar ++ '"' :: rest) := by
    simp [stringText]
  rw [hsplit, readName, readChars_flatMap_escapeChar]
  simp [Except.map]

/-- A member that the record has is read, unless it has been seen before. -/
theorem readMembers_of_member {name : String} {layout : Layout} (depth : Nat)
    {field : RecordField α} {next : α}
    (hnext : nextItem '\x7d' first text = .ok (.item (Layout.member name layout depth ++ rest)))
    (hfield : fields.find? (·.name == name) = some field) (hseen : name ∉ seen)
    (hvalue : Reads (field.read record) layout next) :
    readMembers fields seen first record text =
      readMembers fields (name :: seen) false next rest := by
  have hname : readName (Layout.member name layout depth ++ rest) =
      .ok (name, ':' :: ' ' :: (layout depth ++ rest)) := by
    rw [Layout.member, List.append_assoc, List.append_assoc, readName_stringText]
    rfl
  have hskip : skipSpace (' ' :: (layout depth ++ rest)) = layout depth ++ rest := by
    obtain ⟨c, more, hlayout, hspace, -⟩ := hvalue.opens depth
    rw [hlayout, List.cons_append]
    exact skipSpace_cons hspace
  exact readMembers_of_item hnext hname hfield hseen rfl (hvalue.run hskip)

theorem readMembers_blockItems {members : List (String × Layout)} {final : α}
    (hmakes : Makes fields seen record members final) (first : Bool) (depth : Nat)
    (rest : List Char) :
    readMembers fields seen first record (blockItems '\x7d' depth first
      (members.map fun field => Layout.member field.1 field.2) ++ rest) = .ok (final, rest) := by
  induction hmakes generalizing first with
  | nil => exact readMembers_of_close (nextItem_nil (by decide) first rest)
  | cons hfield hseen hvalue hmembers ih =>
      rw [List.map_cons]
      refine (readMembers_of_member (depth + 1) ?_ hfield hseen hvalue).trans (ih false)
      -- The text of a member starts with the quote of its name.
      exact nextItem_cons (by decide) rfl (by decide) (by decide) first _ rest

theorem reads_of {reader : Reader β} {put : α → β → α} {name : String} {layout : Layout}
    {value : β} (hvalue : Reads reader layout value) :
    Reads ((RecordField.of name reader put).read record) layout (put record value) where
  opens := hvalue.opens
  run htext := by
    rw [RecordField.of]
    dsimp only
    rw [hvalue.run htext]
    rfl

/-- A record is read if its members make it out of the default. -/
theorem reads_record {name : String} {default value : α} {members : List (String × Layout)}
    (hmakes : Makes fields [] default members value) :
    Reads (Json.record name fields default) (.object members) value where
  opens depth := ⟨_, _, block_eq_cons _ _, by decide, by decide⟩
  run {depth text rest} htext := by
    rw [Layout.object, block_eq_cons, List.cons_append] at htext
    rw [Json.record]
    dsimp only
    rw [readRecord, htext]
    dsimp only
    rw [if_neg (by decide), if_pos rfl, readMembers_blockItems hmakes]

end Members

/-- A text that holds one value is parsed as this value. -/
theorem Reads.parse_text {reader : Reader α} {layout : Layout} {value : α}
    (hreads : Reads reader layout value) : reader.parse layout.text = .ok value := by
  have hrun := hreads.run_append 0 []
  rw [List.append_nil] at hrun
  rw [Reader.parse, Layout.text, hrun]
  rfl

end EventAudit.Json
