import EventAudit.Proofs.Text.Ascii
import EventAudit.RawText

/-! # Raw texts and what they are shown as

A text is got back from its bytes. Bytes are got back from what they are shown as exactly
if they are the bytes of a text at all: the bytes that others are shown as, they are
respelled by. A replacement leaves its trace, so that nothing else is respelled by bytes
of a text without U+FFFD. -/

namespace EventAudit.RawText

open Text.Utf8

/-- Whether the bytes are those of a text. -/
def IsUtf8 (text : RawText) : Prop :=
  ∃ string, text = ofString string

/-- The bytes of what the bytes are shown as. -/
def respelled (text : RawText) : RawText :=
  ofString text.shown

theorem shown_ofString (string : String) : shown (ofString string) = string := by
  rw [shown, ofString, decodeLossy_encode, String.ofList_toList]

theorem ofString_injective : Function.Injective ofString :=
  Function.LeftInverse.injective shown_ofString

theorem respelled_eq_encode (text : RawText) : text.respelled = encode (decodeLossy text) := by
  rw [respelled, ofString, shown, String.toList_ofList]

theorem respelled_eq_self_iff {text : RawText} : text.respelled = text ↔ text.IsUtf8 := by
  constructor
  · intro hself
    exact ⟨text.shown, hself.symm⟩
  · rintro ⟨string, rfl⟩
    rw [respelled, shown_ofString]

instance (text : RawText) : Decidable text.IsUtf8 :=
  decidable_of_iff _ respelled_eq_self_iff

theorem isUtf8_ofString (string : String) : IsUtf8 (ofString string) :=
  ⟨string, rfl⟩

/-- Bytes that are decoded without a replacement are what the text is encoded as. -/
theorem eq_encode_of_decodesTo {bytes : List UInt8} {text : List Char}
    (htext : DecodesTo bytes text) (hnone : '\uFFFD' ∉ text) : bytes = encode text := by
  induction htext with
  | nil => rfl
  | char c hrest ih =>
      rw [ih (List.not_mem_of_not_mem_cons hnone)]
      rfl
  | invalid hpart hrest ih => exact absurd List.mem_cons_self hnone

/-- Nothing else is respelled by the bytes of a text without a replacement. -/
theorem respelled_eq_ofString_iff {text : RawText} {string : String}
    (hnone : '\uFFFD' ∉ string.toList) :
    text.respelled = ofString string ↔ text = ofString string := by
  constructor
  · intro hspelled
    obtain rfl : text.shown = string := ofString_injective hspelled
    rw [shown, String.toList_ofList] at hnone
    rw [← respelled, respelled_eq_encode]
    exact eq_encode_of_decodesTo (decodesTo_decodeLossy text) hnone
  · rintro rfl
    exact respelled_eq_self_iff.mpr (isUtf8_ofString string)

end EventAudit.RawText
