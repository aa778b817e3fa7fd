import EventAudit.Proofs.Text.Encoding
import Mathlib.Data.List.Infix

/-! # Decoding what is not UTF-8

Bytes are read from the beginning. Where the bytes of a character stand, it is read;
elsewhere one replacement character takes the place of the longest part that begins some
character, or of a single byte if nothing begins there. This determines the text, and the
decoder yields it. While it is inside a character, what it has read is the beginning of
one, and it goes on exactly with the bytes that continue it. -/

namespace EventAudit.Text.Utf8

open String (utf8EncodeChar)

/-- Whether some character begins with these bytes. -/
def Begins (bytes : List UInt8) : Prop :=
  ∃ c, bytes <+: utf8EncodeChar c

/-- Whether a part of the bytes before `rest` is one that is replaced: no character stands there,
it is a single byte or the beginning of a character, and nothing longer is. -/
structure IsInvalidPart (part rest : List UInt8) : Prop where
  ne_nil : part ≠ []
  no_char : ∀ c, ¬utf8EncodeChar c <+: part ++ rest
  begins : part.length = 1 ∨ Begins part
  longest : ∀ longer, longer <+: part ++ rest → part.length < longer.length → ¬Begins longer

/-- Whether bytes are read as a text, with U+FFFD for each part that is not UTF-8. -/
inductive DecodesTo : List UInt8 → List Char → Prop where
  | nil : DecodesTo [] []
  | char (c : Char) {rest : List UInt8} {text : List Char} (hrest : DecodesTo rest text) :
      DecodesTo (utf8EncodeChar c ++ rest) (c :: text)
  | invalid {part rest : List UInt8} {text : List Char} (hpart : IsInvalidPart part rest)
      (hrest : DecodesTo rest text) : DecodesTo (part ++ rest) ('\uFFFD' :: text)

namespace Decoder

variable {bits more : Nat} {low high byte : UInt8} {part rest bytes tail : List UInt8}

/-- What a decoder that is inside a character has read of it. -/
inductive HasRead : (bits : Nat) → (low high : UInt8) → (more : Nat) → List UInt8 → Prop where
  | first {bits more : Nat} {low high byte : UInt8}
      (hstart : start byte = ([], inside bits low high more)) :
      HasRead bits low high more [byte]
  | next {bits more : Nat} {low high byte : UInt8} {part : List UInt8}
      (hread : HasRead bits low high (more + 1) part) (hlow : low ≤ byte)
      (hhigh : byte ≤ high) :
      HasRead (bits * 64 + (byte.toNat - 0x80)) 0x80 0xBF more (part ++ [byte])

/-- Whether a byte begins a character of several bytes with these bits, the range of the next byte
and the number of those after it. The range keeps out what no character has. -/
def IsOpening (byte : UInt8) (bits : Nat) (low high : UInt8) (more : Nat) : Prop :=
  (128 ≤ low.toNat ∧ low.toNat ≤ high.toNat ∧ high.toNat ≤ 191) ∧
    (more = 0 ∧ byte.toNat = bits + 192 ∧ 2 ≤ bits ∧ bits < 32 ∨
      more = 1 ∧ byte.toNat = bits + 224 ∧ bits < 16 ∧
        (bits = 0 → 160 ≤ low.toNat) ∧ (bits = 13 → high.toNat ≤ 159) ∨
      more = 2 ∧ byte.toNat = bits + 240 ∧ bits < 5 ∧
        (bits = 0 → 144 ≤ low.toNat) ∧ (bits = 4 → high.toNat ≤ 143))

instance (byte : UInt8) (bits : Nat) (low high : UInt8) (more : Nat) :
    Decidable (IsOpening byte bits low high more) :=
  inferInstanceAs (Decidable (_ ∧ _))

/-- What may come of a first byte: a character of its own, nothing, or the beginning of a longer
character. -/
inductive IsFirstReading (byte : UInt8) : List (Option Char) × Decoder → Prop where
  | single {c : Char} (hbyte : byte < 0x80) : IsFirstReading byte ([some c], ready)
  | nothing : IsFirstReading byte ([none], ready)
  | opening {bits more : Nat} {low high : UInt8} (hopening : IsOpening byte bits low high more) :
      IsFirstReading byte ([], inside bits low high more)

instance (byte : UInt8) : DecidablePred (IsFirstReading byte)
  | ([some _], ready) =>
      decidable_of_iff (byte < 0x80) ⟨.single, fun | .single hbyte => hbyte⟩
  | ([none], ready) => isTrue .nothing
  | ([], inside bits low high more) =>
      decidable_of_iff (IsOpening byte bits low high more)
        ⟨.opening, fun | .opening hopening => hopening⟩
  | ([], ready) => isFalse nofun
  | ([_], inside ..) => isFalse nofun
  | (_ :: _ :: _, _) => isFalse nofun

theorem isFirstReading_start (byte : UInt8) : IsFirstReading byte (start byte) := by
  have hall : ∀ n : Fin 256, IsFirstReading (UInt8.ofNat n) (start (UInt8.ofNat n)) := by
    decide +kernel
  have hbyte := hall ⟨byte.toNat, byte.toNat_lt⟩
  rwa [UInt8.ofNat_toNat] at hbyte

theorem isOpening_of_start_eq (hstart : start byte = ([], inside bits low high more)) :
    IsOpening byte bits low high more := by
  have hreading := isFirstReading_start byte
  rw [hstart] at hreading
  cases hreading with
  | opening hopening => exact hopening

/-- Whether the bytes are such as follow the first two of a character. -/
def AreContinuing (tail : List UInt8) : Prop :=
  ∀ byte ∈ tail, 0x80 ≤ byte ∧ byte ≤ 0xBF

theorem exists_char_of_toNat {n : Nat} (hn : n < 0xD800 ∨ 0xDFFF < n ∧ n < 0x110000) :
    ∃ c : Char, c.val.toNat = n := by
  refine ⟨Char.ofNat n, ?_⟩
  rw [Char.ofNat, dif_pos hn]
  rfl

theorem ofNat_eq_of_toNat {n : Nat} (hbyte : n = byte.toNat) : UInt8.ofNat n = byte := by
  rw [hbyte, UInt8.ofNat_toNat]

/-- A first byte, a byte in the range for it and as many others as it asks for are a character. -/
theorem exists_char_of_start_eq {second : UInt8}
    (hstart : start byte = ([], inside bits low high more)) (hlow : low ≤ second)
    (hhigh : second ≤ high) (htail : AreContinuing tail) (hlength : tail.length = more) :
    ∃ c, utf8EncodeChar c = byte :: second :: tail := by
  rw [UInt8.le_iff_toNat_le] at hlow hhigh
  simp only [AreContinuing, UInt8.le_iff_toNat_le] at htail
  have hleast : (0x80 : UInt8).toNat = 128 := rfl
  have hmost : (0xBF : UInt8).toNat = 191 := rfl
  obtain ⟨hrange, ⟨rfl, hbyte, hbits⟩ | ⟨rfl, hbyte, hbits⟩ | ⟨rfl, hbyte, hbits⟩⟩ :=
    isOpening_of_start_eq hstart
  · obtain rfl := List.length_eq_zero_iff.mp hlength
    obtain ⟨c, hc⟩ := @exists_char_of_toNat (bits * 64 + (second.toNat - 128)) (by omega)
    refine ⟨c, ?_⟩
    rw [utf8EncodeChar, hc, if_neg (by omega), if_pos (by omega)]
    simp only [List.cons.injEq, and_true]
    exact ⟨ofNat_eq_of_toNat (by omega), ofNat_eq_of_toNat (by omega)⟩
  · obtain ⟨third, rfl⟩ := List.length_eq_one_iff.mp hlength
    have hthird := htail third (by simp)
    obtain ⟨c, hc⟩ := @exists_char_of_toNat
      ((bits * 64 + (second.toNat - 128)) * 64 + (third.toNat - 128)) (by omega)
    refine ⟨c, ?_⟩
    rw [utf8EncodeChar, hc, if_neg (by omega), if_neg (by omega), if_pos (by omega)]
    simp only [List.cons.injEq, and_true]
    exact ⟨ofNat_eq_of_toNat (by omega), ofNat_eq_of_toNat (by omega),
      ofNat_eq_of_toNat (by omega)⟩
  · obtain ⟨third, fourth, rfl⟩ := List.length_eq_two.mp hlength
    have hthird := htail third (by simp)
    have hfourth := htail fourth (by simp)
    obtain ⟨c, hc⟩ := @exists_char_of_toNat
      (((bits * 64 + (second.toNat - 128)) * 64 + (third.toNat - 128)) * 64 +
        (fourth.toNat - 128)) (by omega)
    refine ⟨c, ?_⟩
    rw [utf8EncodeChar, hc, if_neg (by omega), if_neg (by omega), if_neg (by omega)]
    simp only [List.cons.injEq, and_true]
    exact ⟨ofNat_eq_of_toNat (by omega), ofNat_eq_of_toNat (by omega),
      ofNat_eq_of_toNat (by omega), ofNat_eq_of_toNat (by omega)⟩

namespace HasRead

/-- The decoder goes on as it would after all that it has read. -/
theorem run_append (hread : HasRead bits low high more part) (bytes : List UInt8) :
    ready.run (part ++ bytes) = (inside bits low high more).run bytes := by
  induction hread generalizing bytes with
  | first hstart =>
      rw [List.singleton_append, run_ready_cons, hstart]
      rfl
  | next hread hlow hhigh ih =>
      rw [List.append_assoc, List.singleton_append, ih, run, step, if_pos ⟨hlow, hhigh⟩]
      rfl

/-- What the decoder has read, a byte in the range that it expects and the bytes that it then asks
for are a character. -/
theorem exists_char (hread : HasRead bits low high more part) (hlow : low ≤ byte)
    (hhigh : byte ≤ high) (htail : AreContinuing tail) (hlength : tail.length = more) :
    ∃ c, utf8EncodeChar c = part ++ byte :: tail := by
  induction hread generalizing byte tail with
  | first hstart => exact exists_char_of_start_eq hstart hlow hhigh htail hlength
  | next hread hlow' hhigh' ih =>
      rw [List.append_assoc, List.singleton_append]
      have hmore : AreContinuing (byte :: tail) :=
        List.forall_mem_cons.mpr ⟨⟨hlow, hhigh⟩, htail⟩
      exact ih hlow' hhigh' hmore (congrArg Nat.succ hlength)

theorem low_le_high (hread : HasRead bits low high more part) : low ≤ high := by
  cases hread with
  | first hstart =>
      rw [UInt8.le_iff_toNat_le]
      exact (isOpening_of_start_eq hstart).1.2.1
  | next => decide

/-- What the decoder has read is the beginning of a character. -/
theorem begins (hread : HasRead bits low high more part) : Begins part := by
  have htail : AreContinuing (List.replicate more 0x80) := by
    intro byte hbyte
    rw [List.eq_of_mem_replicate hbyte]
    decide
  obtain ⟨c, hc⟩ := hread.exists_char (UInt8.le_refl low) hread.low_le_high htail
    List.length_replicate
  exact ⟨c, low :: List.replicate more 0x80, hc.symm⟩

end HasRead

end Decoder

section Parts

variable {part part' rest rest' bytes : List UInt8}

/-- A part is invalid if the decoder gives it up at what follows. -/
theorem IsInvalidPart.of_run (hne : part ≠ []) (hbegins : part.length = 1 ∨ Begins part)
    (hrun : ∀ following : List UInt8, following.head? = rest.head? →
      ∃ read, Decoder.ready.run (part ++ following) = none :: read) :
    IsInvalidPart part rest := by
  have hchar : ∀ following : List UInt8, following.head? = rest.head? →
      ∀ c, ¬utf8EncodeChar c <+: part ++ following := by
    rintro following hhead c ⟨after, hafter⟩
    obtain ⟨read, hread⟩ := hrun following hhead
    rw [← hafter, run_encodeChar_append] at hread
    cases (List.cons.inj hread).1
  refine ⟨hne, hchar rest rfl, hbegins, ?_⟩
  rintro longer hlonger hlength ⟨c, after, hc⟩
  obtain ⟨following, rfl⟩ := List.prefix_of_prefix_length_le (List.prefix_append part rest) hlonger
    hlength.le
  rw [List.prefix_append_right_inj] at hlonger
  -- The first byte after the part is the same before any such character.
  have hhead : (following ++ after).head? = rest.head? := by
    cases following with
    | nil => simp at hlength
    | cons byte following =>
        obtain ⟨others, rfl⟩ := hlonger
        rfl
  exact hchar (following ++ after) hhead c ⟨[], by rw [← List.append_assoc, hc, List.append_nil]⟩

/-- Where the decoder cannot go on inside a character, what it has read of it is replaced. -/
theorem Decoder.HasRead.isInvalidPart {bits more : Nat} {low high : UInt8}
    (hread : HasRead bits low high more part)
    (hrest : ∀ byte ∈ rest.head?, ¬(low ≤ byte ∧ byte ≤ high)) :
    IsInvalidPart part rest ∧
      (inside bits low high more).run rest = none :: ready.run rest := by
  have hend : ∀ following : List UInt8, following.head? = rest.head? →
      (inside bits low high more).run following = none :: ready.run following := by
    intro following hhead
    cases following with
    | nil => rfl
    | cons byte following =>
        have hstep : step (inside bits low high more) byte =
            (none :: (start byte).1, (start byte).2) := if_neg (hrest byte hhead.symm)
        rw [run, hstep]
        rfl
  have hne : part ≠ [] := by cases hread <;> simp
  refine ⟨.of_run hne (.inr hread.begins) fun following hhead => ?_, hend rest rfl⟩
  exact ⟨_, (hread.run_append following).trans (hend following hhead)⟩

/-- Inside a character, the decoder completes it or gives up what it has read so far. -/
theorem Decoder.HasRead.char_or_invalid {bits more : Nat} {low high : UInt8}
    (hread : HasRead bits low high more part) (bytes : List UInt8) :
    (∃ c rest, part ++ bytes = utf8EncodeChar c ++ rest) ∨
      ∃ read rest, bytes = read ++ rest ∧ IsInvalidPart (part ++ read) rest ∧
        (inside bits low high more).run bytes = none :: ready.run rest := by
  induction bytes generalizing part bits low high more with
  | nil =>
      obtain ⟨hpart, hrun⟩ := @isInvalidPart part [] _ _ _ _ hread (by simp)
      exact .inr ⟨[], [], rfl, by rwa [List.append_nil], hrun⟩
  | cons byte bytes ih =>
      by_cases hrange : low ≤ byte ∧ byte ≤ high
      · cases more with
        | zero =>
            obtain ⟨c, hc⟩ := @exists_char _ _ _ _ byte _ [] hread hrange.1 hrange.2 (by simp
              [AreContinuing]) rfl
            exact .inl ⟨c, bytes, by rw [hc, List.append_assoc, List.singleton_append]⟩
        | succ more =>
            rcases ih (hread.next hrange.1 hrange.2) with ⟨c, rest, hchar⟩ |
              ⟨read, rest, rfl, hpart, hrun⟩
            · exact .inl ⟨c, rest, by rw [← hchar, List.append_assoc, List.singleton_append]⟩
            · rw [List.append_assoc, List.singleton_append] at hpart
              refine .inr ⟨byte :: read, rest, rfl, hpart, ?_⟩
              rw [run, step, if_pos hrange]
              exact hrun
      · obtain ⟨hpart, hrun⟩ := @isInvalidPart part (byte :: bytes) _ _ _ _ hread (by
          rintro _ ⟨⟩
          exact hrange)
        exact .inr ⟨[], byte :: bytes, rfl, by rwa [List.append_nil], hrun⟩

/-- A character stands at the beginning of the bytes, or a part that is replaced. -/
theorem char_or_invalid (hne : bytes ≠ []) :
    (∃ c rest, bytes = utf8EncodeChar c ++ rest) ∨
      ∃ part rest, bytes = part ++ rest ∧ IsInvalidPart part rest ∧
        Decoder.ready.run bytes = none :: Decoder.ready.run rest := by
  obtain ⟨byte, rest, rfl⟩ := List.exists_cons_of_ne_nil hne
  have hreading := Decoder.isFirstReading_start byte
  generalize hstart : Decoder.start byte = reading at hreading
  cases hreading with
  | single hbyte =>
      left
      have hmost : byte.toNat ≤ 127 := Nat.le_of_lt_succ (UInt8.lt_iff_toNat_lt.mp hbyte)
      obtain ⟨c, hc⟩ := @Decoder.exists_char_of_toNat byte.toNat (by omega)
      refine ⟨c, rest, ?_⟩
      rw [utf8EncodeChar, hc, if_pos hmost, UInt8.ofNat_toNat, List.singleton_append]
  | nothing =>
      right
      have hrun : ∀ following : List UInt8, Decoder.ready.run ([byte] ++ following) =
          none :: Decoder.ready.run following := by
        intro following
        rw [List.singleton_append, Decoder.run_ready_cons, hstart]
        rfl
      refine ⟨[byte], rest, rfl, ?_, hrun rest⟩
      exact .of_run (List.cons_ne_nil _ _) (.inl rfl) fun following _ => ⟨_, hrun following⟩
  | opening =>
      rcases (Decoder.HasRead.first hstart).char_or_invalid rest with hchar |
        ⟨read, rest, rfl, hpart, hrun⟩
      · exact .inl hchar
      · refine .inr ⟨byte :: read, rest, rfl, hpart, ?_⟩
        rw [Decoder.run_ready_cons, hstart]
        exact hrun

/-- No invalid part is longer than another one in its place. -/
theorem IsInvalidPart.length_le (hpart : IsInvalidPart part rest)
    (hpart' : IsInvalidPart part' rest') (hbytes : part ++ rest = part' ++ rest') :
    part'.length ≤ part.length := by
  by_contra hlonger
  have hpos := List.length_pos_iff.mpr hpart.ne_nil
  rcases hpart'.begins with hsingle | hbegins
  · omega
  · exact hpart.longest part' (hbytes ▸ List.prefix_append part' rest') (by omega) hbegins

end Parts

section Text

variable {bytes : List UInt8} {text text' : List Char}

theorem decodeLossy_encodeChar_append (c : Char) (rest : List UInt8) :
    decodeLossy (utf8EncodeChar c ++ rest) = c :: decodeLossy rest := by
  rw [decodeLossy, decode, run_encodeChar_append]
  rfl

/-- Bytes are read as one text only. -/
theorem DecodesTo.unique (htext : DecodesTo bytes text) (htext' : DecodesTo bytes text') :
    text = text' := by
  induction htext generalizing text' with
  | nil =>
      generalize hbytes : [] = bytes at htext'
      cases htext' with
      | nil => rfl
      | char c hrest => simp at hbytes
      | invalid hpart hrest => simp [hpart.ne_nil] at hbytes
  | char c hrest ih =>
      generalize hbytes : utf8EncodeChar c ++ _ = bytes at htext'
      cases htext' with
      | nil => simp at hbytes
      | char c' hrest' =>
          have hrun := congrArg Decoder.ready.run hbytes
          rw [run_encodeChar_append, run_encodeChar_append] at hrun
          obtain rfl := Option.some.inj (List.cons.inj hrun).1
          obtain rfl := List.append_cancel_left hbytes
          rw [ih hrest']
      | invalid hpart hrest' => exact absurd ⟨_, hbytes⟩ (hpart.no_char c)
  | @invalid part rest text hpart hrest ih =>
      generalize hbytes : part ++ rest = bytes at htext'
      cases htext' with
      | nil => simp [hpart.ne_nil] at hbytes
      | char c' hrest' => exact absurd ⟨_, hbytes.symm⟩ (hpart.no_char c')
      | invalid hpart' hrest' =>
          have hlength := Nat.le_antisymm (hpart'.length_le hpart hbytes.symm)
            (hpart.length_le hpart' hbytes)
          obtain ⟨rfl, rfl⟩ := List.append_inj hbytes hlength
          rw [ih hrest']

theorem decodesTo_decodeLossy (bytes : List UInt8) : DecodesTo bytes (decodeLossy bytes) := by
  induction hlength : bytes.length using Nat.strongRecOn generalizing bytes with
  | ind length ih =>
      subst hlength
      by_cases hne : bytes = []
      · subst hne
        exact .nil
      rcases char_or_invalid hne with ⟨c, rest, rfl⟩ | ⟨part, rest, rfl, hpart, hrun⟩
      · have hpos := List.length_pos_iff.mpr (@String.utf8EncodeChar_ne_nil c)
        rw [decodeLossy_encodeChar_append]
        exact .char c (ih _ (by rw [List.length_append]; omega) rest rfl)
      · have hpos := List.length_pos_iff.mpr hpart.ne_nil
        rw [decodeLossy, decode, hrun]
        exact .invalid hpart (ih _ (by rw [List.length_append]; omega) rest rfl)

/-- The decoder reads bytes as the text that they are to be read as. -/
theorem decodesTo_iff : DecodesTo bytes text ↔ text = decodeLossy bytes :=
  ⟨fun htext => htext.unique (decodesTo_decodeLossy bytes),
    fun htext => htext ▸ decodesTo_decodeLossy bytes⟩

end Text

end EventAudit.Text.Utf8
