import EventAudit.Text.Utf8

/-! # Raw texts

The system takes names and paths as bytes. Most of them are UTF-8, but nothing makes
them so. Where a message or a record wants a text, it gets what the bytes are shown
as: each part that is not UTF-8 becomes U+FFFD, so that different bytes may be shown
alike. -/

namespace EventAudit

abbrev RawText := List UInt8

namespace RawText

/-- The bytes of a text. -/
def ofString (text : String) : RawText :=
  Text.Utf8.encode text.toList

/-- What the bytes are shown as. -/
def shown (text : RawText) : String :=
  String.ofList (Text.Utf8.decodeLossy text)

end RawText
end EventAudit
