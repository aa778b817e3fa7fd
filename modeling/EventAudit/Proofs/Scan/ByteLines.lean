import EventAudit.Proofs.Text.Ascii
import EventAudit.Scan.Basic
import Mathlib.Data.List.Forall2

/-! # Files that are not UTF-8, line by line

A line feed is a character of a single byte, so that it ends whatever has been begun before
it, and decoding starts anew behind it. What is invalid on a line changes nothing on another
one. -/

namespace EventAudit

namespace Text.Utf8

/-- What byte strings are read as, each by itself. -/
theorem forall₂_decodesTo_iff {pieces : List (List UInt8)} {texts : List (List Char)} :
    List.Forall₂ DecodesTo pieces texts ↔ texts = pieces.map decodeLossy := by
  constructor
  · intro htexts
    induction htexts with
    | nil => rfl
    | cons htext hrest ih => exact congrArg₂ List.cons (decodesTo_iff.mp htext) ih
  · rintro rfl
    exact List.forall₂_map_right_iff.mpr
      (List.forall₂_same.mpr fun piece _ => decodesTo_decodeLossy piece)

end Text.Utf8

namespace SourceFile

open Text.Utf8

/-- What is invalid stays on its line: a file whose lines are any byte strings without a line feed
is looked at as the text of which each line is decoded by itself, with one replacement character
for each longest invalid part. The text has as many lines as there are byte strings. -/
theorem invalid_bytes_stay_on_line (tree : FileTree) (markers : Markers) (plugin : String)
    (file : SourceFile) (pieces : List (List UInt8)) (hpieces : ∀ piece ∈ pieces, 0x0A ∉ piece)
    (hread : tree.read file.path = .ok ([0x0A].intercalate pieces)) :
    (∃ texts, List.Forall₂ DecodesTo pieces texts) ∧
      ∀ texts, List.Forall₂ DecodesTo pieces texts →
        file.observe tree markers plugin = .ok {
          file := file.displayPath
          plugin
          observations := Observation.ofSource markers (['\n'].intercalate texts) } ∧
        (∀ text ∈ texts, '\n' ∉ text) ∧
        (texts ≠ [] → (['\n'].intercalate texts).splitOn '\n' = texts) := by
  refine ⟨⟨_, forall₂_decodesTo_iff.mpr rfl⟩, fun texts htexts => ?_⟩
  obtain rfl := forall₂_decodesTo_iff.mp htexts
  have hlines : ∀ text ∈ pieces.map decodeLossy, '\n' ∉ text := by
    intro text htext
    obtain ⟨piece, hpiece, rfl⟩ := List.mem_map.mp htext
    exact (decodesTo_decodeLossy piece).separator_not_mem (by decide) (hpieces piece hpiece)
  refine ⟨?_, hlines, List.splitOn_intercalate '\n' hlines⟩
  have hdecoded : decodeLossy ([0x0A].intercalate pieces) =
      ['\n'].intercalate (pieces.map decodeLossy) :=
    decodeLossy_intercalate (by decide : '\n'.toNat < 0x80) pieces
  rw [observe, hread]
  dsimp only
  rw [hdecoded]

/-- A character that is cut off before a line feed, and one in Latin-1 before the next. -/
theorem invalid_bytes_stay_on_line_before_line_feed :
    let pieces : List (List UInt8) :=
      [encode "EVENT_H(a) ".toList ++ [0xE2, 0x82], [0x63, 0xE9], encode "EVENT_C(a)".toList]
    let texts : List (List Char) :=
      ["EVENT_H(a) \uFFFD".toList, "c\uFFFD".toList, "EVENT_C(a)".toList]
    let tree : FileTree :=
      { top := .directory [(.ofString "a.c", .file ([0x0A].intercalate pieces))] }
    let file : SourceFile := .ofPath ⟨[]⟩ (.ofString "a.c")
    (∀ piece ∈ pieces, 0x0A ∉ piece) ∧
      tree.read file.path = .ok ([0x0A].intercalate pieces) ∧
      List.Forall₂ DecodesTo pieces texts ∧
      file.observe tree {} "" = .ok {
        file := "a.c"
        plugin := ""
        observations := Observation.ofSource {} (['\n'].intercalate texts) } ∧
      Observation.ofSource {} (['\n'].intercalate texts) =
        [{ line := 1, extraction := .declaration "a" none },
          { line := 3, extraction := .definition "a" }] := by
  intro pieces texts tree file
  have hpieces : ∀ piece ∈ pieces, 0x0A ∉ piece := by decide +kernel
  have hread : tree.read file.path = .ok ([0x0A].intercalate pieces) := by decide +kernel
  have htexts : List.Forall₂ DecodesTo pieces texts :=
    forall₂_decodesTo_iff.mpr (by decide +kernel)
  obtain ⟨-, hobserve⟩ := invalid_bytes_stay_on_line tree {} "" file pieces hpieces hread
  exact ⟨hpieces, hread, htexts, (hobserve texts htexts).1, by decide +kernel⟩

end SourceFile
end EventAudit
