import EventAudit.Proofs.Text.Lossy

/-! # Characters of a single byte

The decoder, inside a character, expects only bytes that are no characters of their own.
So a byte that is one ends whatever has been begun before it, and decoding starts anew
behind it. Texts between separators of a single byte are decoded one by one, therefore,
and no separator comes into being in one of them. -/

namespace EventAudit.Text.Utf8

namespace Decoder

/-- Whether the decoder, inside a character, expects no byte that is a character of its own. -/
def AwaitsHigh : Decoder → Prop
  | ready => True
  | inside _ low _ _ => 0x80 ≤ low

theorem awaitsHigh_start (byte : UInt8) : (start byte).2.AwaitsHigh := by
  have hreading := isFirstReading_start byte
  generalize start byte = reading at hreading ⊢
  cases hreading with
  | single => trivial
  | nothing => trivial
  | opening hopening => exact UInt8.le_iff_toNat_le.mpr hopening.1.1

theorem AwaitsHigh.step {decoder : Decoder} (hdecoder : decoder.AwaitsHigh) (byte : UInt8) :
    (decoder.step byte).2.AwaitsHigh := by
  cases decoder with
  | ready => exact awaitsHigh_start byte
  | inside bits low high more =>
      by_cases hrange : low ≤ byte ∧ byte ≤ high
      · cases more with
        | zero =>
            rw [Decoder.step, if_pos hrange]
            trivial
        | succ more =>
            rw [Decoder.step, if_pos hrange]
            exact UInt8.le_refl 0x80
      · have hstep : (inside bits low high more).step byte =
            (none :: (start byte).1, (start byte).2) := if_neg hrange
        rw [hstep]
        exact awaitsHigh_start byte

end Decoder

variable {separator : Char} (hseparator : separator.toNat < 0x80)

include hseparator

theorem encodeChar_of_single : String.utf8EncodeChar separator = [separator.toUInt8] := by
  have hle : separator.val.toNat ≤ 0x7F := Nat.le_of_lt_succ hseparator
  rw [String.utf8EncodeChar]
  exact if_pos hle

namespace Decoder

theorem start_of_single : start separator.toUInt8 = ([some separator], ready) := by
  have hstart := start_single hseparator
  rwa [Char.ofNat_toNat] at hstart

/-- A character of a single byte ends what has been begun and is read by itself. -/
theorem AwaitsHigh.step_of_single {decoder : Decoder} (hdecoder : decoder.AwaitsHigh) :
    decoder.step separator.toUInt8 = (decoder.finish ++ [some separator], ready) := by
  cases decoder with
  | ready => exact start_of_single hseparator
  | inside bits low high more =>
      have hbyte : separator.toUInt8 < 0x80 := by
        rw [UInt8.lt_iff_toNat_lt]
        exact Nat.lt_of_le_of_lt (Nat.mod_le _ _) hseparator
      have hrange : ¬(low ≤ separator.toUInt8 ∧ separator.toUInt8 ≤ high) := by
        rintro ⟨hlow, -⟩
        exact absurd (UInt8.le_trans hdecoder hlow) (UInt8.not_le.mpr hbyte)
      have hstep : (inside bits low high more).step separator.toUInt8 =
          (none :: (start separator.toUInt8).1, (start separator.toUInt8).2) := if_neg hrange
      rw [hstep, start_of_single hseparator]
      rfl

theorem AwaitsHigh.run_append_cons {decoder : Decoder} (hdecoder : decoder.AwaitsHigh)
    (bytes rest : List UInt8) :
    decoder.run (bytes ++ separator.toUInt8 :: rest) =
      decoder.run bytes ++ some separator :: ready.run rest := by
  induction bytes generalizing decoder with
  | nil =>
      rw [List.nil_append, run, run, hdecoder.step_of_single hseparator, List.append_assoc,
        List.singleton_append]
  | cons byte bytes ih =>
      rw [List.cons_append, run, run, ih (hdecoder.step byte), List.append_assoc]

end Decoder

theorem decodeLossy_append_cons (bytes rest : List UInt8) :
    decodeLossy (bytes ++ separator.toUInt8 :: rest) =
      decodeLossy bytes ++ separator :: decodeLossy rest := by
  have hready : Decoder.ready.AwaitsHigh := trivial
  rw [decodeLossy, decode, hready.run_append_cons hseparator, List.map_append]
  rfl

/-- Byte strings that are joined by separators are decoded one by one. -/
theorem decodeLossy_intercalate (pieces : List (List UInt8)) :
    decodeLossy ([separator.toUInt8].intercalate pieces) =
      [separator].intercalate (pieces.map decodeLossy) := by
  induction pieces with
  | nil => rfl
  | cons piece rest ih =>
      cases rest with
      | nil => rw [List.intercalate_singleton, List.map_singleton, List.intercalate_singleton]
      | cons next rest =>
          rw [List.map_cons, List.map_cons, List.intercalate_cons_cons,
            List.intercalate_cons_cons, List.append_assoc, List.append_assoc,
            List.singleton_append, List.singleton_append, decodeLossy_append_cons hseparator, ih,
            List.map_cons]

/-- Texts that are joined by separators are encoded one by one. -/
theorem encode_intercalate (texts : List (List Char)) :
    encode ([separator].intercalate texts) =
      [separator.toUInt8].intercalate (texts.map encode) := by
  induction texts with
  | nil => rfl
  | cons text rest ih =>
      cases rest with
      | nil => rw [List.intercalate_singleton, List.map_singleton, List.intercalate_singleton]
      | cons next rest =>
          have hencode : encode [separator] = [separator.toUInt8] :=
            (List.flatMap_singleton _ _).trans (encodeChar_of_single hseparator)
          rw [List.map_cons, List.map_cons, List.intercalate_cons_cons,
            List.intercalate_cons_cons, encode, List.flatMap_append, List.flatMap_append, ← encode,
            ← encode, ← encode, hencode, ih, List.map_cons]

/-- Only the byte of a separator is read as the separator. -/
theorem DecodesTo.separator_not_mem {bytes : List UInt8} {text : List Char}
    (htext : DecodesTo bytes text) (hbytes : separator.toUInt8 ∉ bytes) : separator ∉ text := by
  induction htext with
  | nil => exact List.not_mem_nil
  | char c hrest ih =>
      rw [List.mem_append, not_or] at hbytes
      rw [List.mem_cons, not_or]
      refine ⟨?_, ih hbytes.2⟩
      rintro rfl
      exact hbytes.1 (by rw [encodeChar_of_single hseparator]; exact List.mem_singleton_self _)
  | invalid hpart hrest ih =>
      rw [List.mem_append, not_or] at hbytes
      rw [List.mem_cons, not_or]
      refine ⟨?_, ih hbytes.2⟩
      rintro rfl
      exact absurd hseparator (by decide)

/-- Only a separator is written by its byte. -/
theorem separator_not_mem_encode {text : List Char} (htext : separator ∉ text) :
    separator.toUInt8 ∉ encode text := by
  intro hmem
  obtain ⟨before, after, hbytes⟩ := List.append_of_mem hmem
  have hdecoded := decodeLossy_append_cons hseparator before after
  rw [← hbytes, decodeLossy_encode] at hdecoded
  exact htext (hdecoded ▸ List.mem_append_right _ List.mem_cons_self)

end EventAudit.Text.Utf8
