import EventAudit.Text.Utf8
import Mathlib.Data.String.Basic

/-! # The order of texts by bytes

Texts are ordered by their characters. The order of their encoded bytes is the same,
because a greater character differs from a smaller one first in a greater byte. -/

namespace EventAudit.Text.Utf8

theorem ofNat_lt_ofNat_iff {m n : Nat} (hm : m < 256) (hn : n < 256) :
    UInt8.ofNat m < UInt8.ofNat n ↔ m < n := by
  rw [UInt8.lt_iff_toNat_lt, UInt8.toNat_ofNat_of_lt' hm, UInt8.toNat_ofNat_of_lt' hn]

theorem ofNat_eq_ofNat_iff {m n : Nat} (hm : m < 256) (hn : n < 256) :
    UInt8.ofNat m = UInt8.ofNat n ↔ m = n := by
  rw [← UInt8.toNat_inj, UInt8.toNat_ofNat_of_lt' hm, UInt8.toNat_ofNat_of_lt' hn]

/-- Numbers are compared by their last digit to base 64 when the digits before it agree. -/
theorem div_mod_lex {m n : Nat} (hlt : m < n) :
    m / 64 < n / 64 ∨ m / 64 = n / 64 ∧ m % 64 < n % 64 := by
  omega

/-- Numbers agree down to some digit to base 64, in which the smaller one has the smaller digit. -/
theorem digits_lex {m n : Nat} (hlt : m < n) :
    m / 64 / 64 / 64 < n / 64 / 64 / 64 ∨
      m / 64 / 64 / 64 = n / 64 / 64 / 64 ∧ (m / 64 / 64 % 64 < n / 64 / 64 % 64 ∨
        m / 64 / 64 = n / 64 / 64 ∧ (m / 64 % 64 < n / 64 % 64 ∨
          m / 64 = n / 64 ∧ m % 64 < n % 64)) := by
  rcases div_mod_lex hlt with hlead | ⟨hlead, hlast⟩
  · rcases div_mod_lex hlead with hlead | ⟨hlead, hlast⟩
    · rcases div_mod_lex hlead with hlead | ⟨hlead, hlast⟩
      · exact .inl hlead
      · exact .inr ⟨hlead, .inl hlast⟩
    · exact .inr ⟨congrArg (· / 64) hlead, .inr ⟨hlead, .inl hlast⟩⟩
  · exact .inr ⟨congrArg (· / 64 / 64) hlead,
      .inr ⟨congrArg (· / 64) hlead, .inr ⟨hlead, hlast⟩⟩⟩

/-- The bytes of a smaller character come first, whatever follows them. -/
theorem encodeChar_append_lt {c d : Char} (hlt : c < d) (s t : List UInt8) :
    String.utf8EncodeChar c ++ s < String.utf8EncodeChar d ++ t := by
  have hval : c.val.toNat < d.val.toNat := UInt32.lt_iff_toNat_lt.mp hlt
  have hbound : d.val.toNat < 0x110000 := by
    rcases d.valid with hlow | ⟨-, hhigh⟩
    · exact Nat.lt_trans hlow (by decide)
    · exact hhigh
  have hdigits := digits_lex hval
  have hthird : ∀ n : Nat, n / 4096 = n / 64 / 64 := fun n => (Nat.div_div_eq_div_mul n 64 64).symm
  have hfourth : ∀ n : Nat, n / 262144 = n / 64 / 64 / 64 := fun n => by
    rw [Nat.div_div_eq_div_mul, Nat.div_div_eq_div_mul]
  simp only [String.utf8EncodeChar, hthird, hfourth]
  generalize c.val.toNat = m at *
  generalize d.val.toNat = n at *
  -- Encodings of different lengths differ in the first byte, others in the byte of that digit.
  split_ifs <;>
    simp (disch := omega) only [List.cons_append, List.nil_append, List.cons_lt_cons_iff,
      ofNat_lt_ofNat_iff, ofNat_eq_ofNat_iff] <;>
    omega

theorem encode_lt_encode {s t : List Char} (hlt : s < t) : encode s < encode t := by
  induction s generalizing t with
  | nil =>
      cases t with
      | nil => exact absurd hlt (List.not_lt_nil _)
      | cons d t =>
          obtain ⟨byte, rest, hencode⟩ := List.exists_cons_of_ne_nil
            (List.append_ne_nil_of_left_ne_nil String.utf8EncodeChar_ne_nil (encode t))
          have hbytes : encode (d :: t) = byte :: rest := hencode
          rw [hbytes]
          exact List.nil_lt_cons byte rest
  | cons c s ih =>
      cases t with
      | nil => exact absurd hlt (List.not_lt_nil _)
      | cons d t =>
          rw [encode, encode, List.flatMap_cons, List.flatMap_cons]
          rcases List.cons_lt_cons_iff.mp hlt with hchar | ⟨rfl, hrest⟩
          · exact encodeChar_append_lt hchar _ _
          · exact List.append_left_lt (ih hrest)

/-- Whether a text comes before another one in the order of their bytes. -/
def Precedes (s t : String) : Prop :=
  encode s.toList < encode t.toList

theorem precedes_iff_lt {s t : String} : Precedes s t ↔ s < t := by
  rw [Precedes]
  constructor
  · intro hbytes
    rcases lt_trichotomy s t with hlt | rfl | hgt
    · exact hlt
    · exact absurd hbytes (List.lt_irrefl _)
    · exact absurd hbytes (List.lt_asymm (encode_lt_encode (String.lt_iff.mp hgt)))
  · intro hlt
    exact encode_lt_encode (String.lt_iff.mp hlt)

end EventAudit.Text.Utf8
