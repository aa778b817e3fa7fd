import EventAudit.Text.Utf8
import Mathlib.Data.String.Basic

/-! # Encoded text that is decoded again

The decoder goes through the bytes of an encoded character without leaving it early: the
first byte tells how many follow, each of them adds six bits, and the second one lies in
the range that keeps out what no character has. So decoding is inverse to encoding. -/

namespace EventAudit.Text.Utf8

namespace Decoder

variable {bits more digit : Nat} {low high : UInt8}

theorem run_ready_cons (byte : UInt8) (bytes : List UInt8) :
    ready.run (byte :: bytes) = (start byte).1 ++ (start byte).2.run bytes :=
  rfl

/-! What the first byte says: the bits in it, the range of the next byte and the number of bytes. -/

theorem start_single (hdigit : digit < 128) :
    start (UInt8.ofNat digit) = ([some (Char.ofNat digit)], ready) := by
  have hall : ∀ n : Fin 128, start (UInt8.ofNat n) = ([some (Char.ofNat n)], ready) := by
    decide +kernel
  exact hall ⟨digit, hdigit⟩

theorem start_pair (hlow : 2 ≤ digit) (hdigit : digit < 32) :
    start (UInt8.ofNat (digit + 192)) = ([], inside digit 0x80 0xBF 0) := by
  have hall : ∀ n : Fin 32, 2 ≤ n.val →
      start (UInt8.ofNat (n + 192)) = ([], inside n 0x80 0xBF 0) := by
    decide +kernel
  exact hall ⟨digit, hdigit⟩ hlow

theorem start_triple (hdigit : digit < 16) :
    ∃ low high, start (UInt8.ofNat (digit + 224)) = ([], inside digit low high 1) ∧
      low.toNat = (if digit = 0 then 0xA0 else 0x80) ∧
        high.toNat = (if digit = 13 then 0x9F else 0xBF) := by
  have hall : ∀ n : Fin 16, start (UInt8.ofNat (n + 224)) = ([], inside n
      (if n.val = 0 then 0xA0 else 0x80) (if n.val = 13 then 0x9F else 0xBF) 1) := by
    decide +kernel
  exact ⟨_, _, hall ⟨digit, hdigit⟩, by split <;> rfl, by split <;> rfl⟩

theorem start_quadruple (hdigit : digit < 5) :
    ∃ low high, start (UInt8.ofNat (digit + 240)) = ([], inside digit low high 2) ∧
      low.toNat = (if digit = 0 then 0x90 else 0x80) ∧
        high.toNat = (if digit = 4 then 0x8F else 0xBF) := by
  have hall : ∀ n : Fin 5, start (UInt8.ofNat (n + 240)) = ([], inside n
      (if n.val = 0 then 0x90 else 0x80) (if n.val = 4 then 0x8F else 0xBF) 2) := by
    decide +kernel
  exact ⟨_, _, hall ⟨digit, hdigit⟩, by split <;> rfl, by split <;> rfl⟩

theorem toNat_continuation (hdigit : digit < 64) :
    (UInt8.ofNat (digit + 128)).toNat = digit + 128 :=
  UInt8.toNat_ofNat_of_lt' (Nat.lt_of_lt_of_le (Nat.add_lt_add_right hdigit 128) (by decide))

section Inside

variable (hdigit : digit < 64) (hlow : low.toNat ≤ digit + 128) (hhigh : digit + 128 ≤ high.toNat)

include hdigit hlow hhigh

theorem continuation_mem_range :
    low ≤ UInt8.ofNat (digit + 128) ∧ UInt8.ofNat (digit + 128) ≤ high := by
  rw [UInt8.le_iff_toNat_le, UInt8.le_iff_toNat_le, toNat_continuation hdigit]
  exact ⟨hlow, hhigh⟩

/-- The last byte in its range completes the character. -/
theorem run_inside_zero (bytes : List UInt8) :
    (inside bits low high 0).run (UInt8.ofNat (digit + 128) :: bytes) =
      some (Char.ofNat (bits * 64 + digit)) :: ready.run bytes := by
  simp only [run, step, if_pos (continuation_mem_range hdigit hlow hhigh),
    toNat_continuation hdigit, Nat.add_sub_cancel]
  rfl

/-- Another byte in its range adds its bits. -/
theorem run_inside_succ (bytes : List UInt8) :
    (inside bits low high (more + 1)).run (UInt8.ofNat (digit + 128) :: bytes) =
      (inside (bits * 64 + digit) 0x80 0xBF more).run bytes := by
  simp only [run, step, if_pos (continuation_mem_range hdigit hlow hhigh),
    toNat_continuation hdigit, Nat.add_sub_cancel]
  rfl

end Inside

end Decoder

/-- The bytes of a character are decoded as this character, whatever follows. -/
theorem run_encodeChar_append (c : Char) (bytes : List UInt8) :
    Decoder.ready.run (String.utf8EncodeChar c ++ bytes) =
      some c :: Decoder.ready.run bytes := by
  have hc : Char.ofNat c.val.toNat = c := Char.ofNat_toNat c
  have hvalid : c.val.toNat < 0xD800 ∨ 0xDFFF < c.val.toNat ∧ c.val.toNat < 0x110000 := c.valid
  rw [String.utf8EncodeChar]
  generalize c.val.toNat = n at hc hvalid ⊢
  have hlowest : (0x80 : UInt8).toNat = 128 := rfl
  have hhighest : (0xBF : UInt8).toNat = 191 := rfl
  split_ifs with hsingle hpair htriple
  · rw [List.singleton_append, Decoder.run_ready_cons, Decoder.start_single (by omega), hc]
    rfl
  · have hvalue : n / 64 % 32 * 64 + n % 64 = n := by omega
    simp only [List.cons_append, List.nil_append]
    rw [Decoder.run_ready_cons, Decoder.start_pair (by omega) (by omega)]
    dsimp only
    rw [Decoder.run_inside_zero (by omega) (by omega) (by omega), hvalue, hc]
    rfl
  · have hvalue : (n / 4096 % 16 * 64 + n / 64 % 64) * 64 + n % 64 = n := by omega
    obtain ⟨low, high, hstart, hlow, hhigh⟩ := @Decoder.start_triple (n / 4096 % 16) (by omega)
    have hleast : low.toNat ≤ n / 64 % 64 + 128 := by
      rw [hlow]
      split <;> omega
    have hmost : n / 64 % 64 + 128 ≤ high.toNat := by
      rw [hhigh]
      split <;> omega
    simp only [List.cons_append, List.nil_append]
    rw [Decoder.run_ready_cons, hstart]
    dsimp only
    rw [Decoder.run_inside_succ (by omega) hleast hmost,
      Decoder.run_inside_zero (by omega) (by omega) (by omega), hvalue, hc]
    rfl
  · have hvalue : ((n / 262144 % 8 * 64 + n / 4096 % 64) * 64 + n / 64 % 64) * 64 + n % 64 = n := by
      omega
    obtain ⟨low, high, hstart, hlow, hhigh⟩ :=
      @Decoder.start_quadruple (n / 262144 % 8) (by omega)
    have hleast : low.toNat ≤ n / 4096 % 64 + 128 := by
      rw [hlow]
      split <;> omega
    have hmost : n / 4096 % 64 + 128 ≤ high.toNat := by
      rw [hhigh]
      split <;> omega
    simp only [List.cons_append, List.nil_append]
    rw [Decoder.run_ready_cons, hstart]
    dsimp only
    rw [Decoder.run_inside_succ (by omega) hleast hmost,
      Decoder.run_inside_succ (by omega) (by omega) (by omega),
      Decoder.run_inside_zero (by omega) (by omega) (by omega), hvalue, hc]
    rfl

theorem decode_encode (text : List Char) : decode (encode text) = text.map some := by
  induction text with
  | nil => rfl
  | cons c text ih =>
      rw [encode, List.flatMap_cons, decode, run_encodeChar_append, List.map_cons, ← ih]
      rfl

theorem decodeLossy_encode (text : List Char) : decodeLossy (encode text) = text := by
  rw [decodeLossy, decode_encode, List.map_map]
  exact List.map_id text

/-- What has been encoded can be decoded. -/
theorem decode?_encode (text : List Char) : decode? (encode text) = some text := by
  rw [decode?, decode_encode]
  induction text with
  | nil => rfl
  | cons c text ih => simp [List.mapM_cons, ih]

end EventAudit.Text.Utf8
