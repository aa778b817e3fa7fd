import EventAudit.Failure
import EventAudit.Proofs.Text.Encoding

/-! # Quoted bytes

The bytes of a text are quoted as the text is, so that a failure names a path that is spelled
by a text in the same way as it would name the text. Only bytes that are no part of a
character are given by their numbers. -/

namespace EventAudit

namespace Text

open Utf8

/-- Bytes that belong to a character that is there already are passed over. -/
theorem quoteBytes_eq_drop (skip : Nat) (bytes : List UInt8) :
    quoteBytes skip bytes = quoteBytes 0 (bytes.drop skip) := by
  induction skip generalizing bytes with
  | zero => rfl
  | succ skip ih =>
      cases bytes with
      | nil => rfl
      | cons byte rest => exact ih rest

theorem quoteBytes_encodeChar_append (c : Char) (rest : List UInt8) :
    quoteBytes 0 (String.utf8EncodeChar c ++ rest) = quoteChar c ++ quoteBytes 0 rest := by
  obtain ⟨byte, more, hbytes⟩ := List.exists_cons_of_ne_nil (@String.utf8EncodeChar_ne_nil c)
  have hsize := String.length_utf8EncodeChar c
  -- Four bytes are enough to tell which character comes first.
  have hread : (decode ((String.utf8EncodeChar c ++ rest).take 4)).head? = some (some c) := by
    have hfits : c.utf8Size ≤ 4 := c.utf8Size_le_four
    rw [List.take_append, List.take_of_length_le (by omega), decode, run_encodeChar_append]
    rfl
  rw [hbytes, List.cons_append] at hread ⊢
  rw [quoteBytes, hread]
  dsimp only
  rw [quoteBytes_eq_drop, ← hsize, hbytes, List.length_cons, Nat.add_sub_cancel, List.drop_left]

theorem quotedBytes_encode (text : List Char) : quotedBytes (encode text) = quoted text := by
  have hquote : quoteBytes 0 (encode text) = text.flatMap quoteChar := by
    induction text with
    | nil => rfl
    | cons c rest ih =>
        rw [encode, List.flatMap_cons, quoteBytes_encodeChar_append, List.flatMap_cons, ← ih]
        rfl
  rw [quotedBytes, hquote, quoted]

end Text

/-- A failure names a path that is spelled by a text as it would name the text. -/
theorem Failure.quotedPath_ofString (text : String) :
    quotedPath (.ofString text) = String.ofList (Text.quoted text.toList) :=
  congrArg String.ofList (Text.quotedBytes_encode text.toList)

end EventAudit
