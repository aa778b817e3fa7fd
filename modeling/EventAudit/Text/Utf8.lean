/-! # Reading bytes as UTF-8

The decoder is a machine over bytes. Each character of the text comes out as
`some c`, and each maximal run of bytes that starts a character but cannot
complete it comes out as one `none`, as does each byte that starts nothing. -/

namespace EventAudit.Text.Utf8

/-- Where the decoder stands between two bytes. -/
inductive Decoder where
  | ready
  /-- Inside a character: its bits so far, the range that the next byte has to lie in and the
  number of bytes that follow the next one. -/
  | inside (bits : Nat) (low high : UInt8) (more : Nat)
deriving DecidableEq, Repr

namespace Decoder

/-- Read the first byte of a character. The ranges for the second byte keep out overlong forms,
surrogates and values beyond the last code point. -/
def start (byte : UInt8) : List (Option Char) × Decoder :=
  if byte < 0x80 then ([some (Char.ofNat byte.toNat)], ready)
  else if byte < 0xC2 then ([none], ready)
  else if byte < 0xE0 then ([], inside (byte.toNat - 0xC0) 0x80 0xBF 0)
  else if byte = 0xE0 then ([], inside 0 0xA0 0xBF 1)
  else if byte = 0xED then ([], inside 0xD 0x80 0x9F 1)
  else if byte < 0xF0 then ([], inside (byte.toNat - 0xE0) 0x80 0xBF 1)
  else if byte = 0xF0 then ([], inside 0 0x90 0xBF 2)
  else if byte < 0xF4 then ([], inside (byte.toNat - 0xF0) 0x80 0xBF 2)
  else if byte = 0xF4 then ([], inside 4 0x80 0x8F 2)
  else ([none], ready)

/-- Read one byte. A byte that cannot continue the character at hand ends it as `none` and is
read as a first byte. -/
def step : Decoder → UInt8 → List (Option Char) × Decoder
  | ready, byte => start byte
  | inside bits low high more, byte =>
      if low ≤ byte ∧ byte ≤ high then
        match more with
        | 0 => ([some (Char.ofNat (bits * 64 + (byte.toNat - 0x80)))], ready)
        | more + 1 => ([], inside (bits * 64 + (byte.toNat - 0x80)) 0x80 0xBF more)
      else (none :: (start byte).1, (start byte).2)

def finish : Decoder → List (Option Char)
  | ready => []
  | inside .. => [none]

def run : Decoder → List UInt8 → List (Option Char)
  | decoder, [] => decoder.finish
  | decoder, byte :: bytes => (decoder.step byte).1 ++ (decoder.step byte).2.run bytes

end Decoder

/-- The characters of `bytes`, with `none` for each part that is not UTF-8. -/
def decode (bytes : List UInt8) : List (Option Char) :=
  Decoder.ready.run bytes

/-- Decode with U+FFFD in place of each part that is not UTF-8. -/
def decodeLossy (bytes : List UInt8) : List Char :=
  (decode bytes).map (·.getD '\uFFFD')

/-- Decode, or fail when some part is not UTF-8. -/
def decode? (bytes : List UInt8) : Option (List Char) :=
  (decode bytes).mapM id

def encode (text : List Char) : List UInt8 :=
  text.flatMap String.utf8EncodeChar

end EventAudit.Text.Utf8
