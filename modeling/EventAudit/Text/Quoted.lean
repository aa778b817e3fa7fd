import EventAudit.Text.Hidden
import EventAudit.Text.Utf8

/-! # Quoted text in messages

A quoted text stands between double quotes. Inside, quotes and backslashes are
preceded by a backslash, the usual controls have a letter of their own, and a
hidden character is given by its code point, so that a message never hides what
it is about. -/

namespace EventAudit.Text

/-- The lowercase hexadecimal digits of a number. -/
def hexDigits (n : Nat) : List Char :=
  Nat.toDigits 16 n

/-- One character of a quoted text. -/
def quoteChar (c : Char) : List Char :=
  if c = '\x00' then ['\\', '0']
  else if c = '\t' then ['\\', 't']
  else if c = '\r' then ['\\', 'r']
  else if c = '\n' then ['\\', 'n']
  else if c = '\\' then ['\\', '\\']
  else if c = '"' then ['\\', '"']
  else if isHidden c then ['\\', 'u', '\x7b'] ++ hexDigits c.toNat ++ ['\x7d']
  else [c]

def quoted (text : List Char) : List Char :=
  '"' :: text.flatMap quoteChar ++ ['"']

/-- Bytes inside a quoted text, the first `skip` of which belong to a character that is there
already. A byte that is no part of a character is given by its number. -/
def quoteBytes : (skip : Nat) → List UInt8 → List Char
  | _, [] => []
  | skip + 1, _ :: rest => quoteBytes skip rest
  | 0, byte :: rest =>
      match (Utf8.decode ((byte :: rest).take 4)).head? with
      | some (some c) => quoteChar c ++ quoteBytes (c.utf8Size - 1) rest
      | _ => '\\' :: 'x' :: (hexDigits byte.toNat).map Char.toUpper ++ quoteBytes 0 rest

def quotedBytes (bytes : List UInt8) : List Char :=
  '"' :: quoteBytes 0 bytes ++ ['"']

end EventAudit.Text
