import EventAudit.Pattern.Basic

/-! # Matching a text against a pattern

`isMatch` says what a match is. `test` decides it for all suffixes of the text at
once, from the last token back to the first, so that its cost is the product of the
two lengths and no choice is ever taken back. What matches is documented by the
library `glob`, which this module stands for; how it is decided is not taken from
there. -/

namespace EventAudit.Pattern

/-- A text and what is left of it after any number of its characters. -/
def suffixes : List Char → List (List Char)
  | [] => [[]]
  | c :: rest => (c :: rest) :: suffixes rest

/-- What follows each slash of a text. -/
def afterSlashes : List Char → List (List Char)
  | [] => []
  | c :: rest => if c = '/' then rest :: afterSlashes rest else afterSlashes rest

/-- Whether the whole text matches. Folders at the end of a pattern match whatever is left. -/
def isMatch : Pattern → List Char → Bool
  | [], text => text.isEmpty
  | .anyRun :: rest, text => (suffixes text).any (isMatch rest)
  | .anyFolders :: rest, text =>
      rest.isEmpty || (text :: afterSlashes text).any (isMatch rest)
  | token :: rest, c :: text => token.accepts c && isMatch rest text
  | _ :: _, [] => false

/-- For each verdict, whether it or a later one holds. -/
def orLater : List Bool → List Bool
  | [] => []
  | verdict :: verdicts =>
      let later := orLater verdicts
      (verdict || later.headD false) :: later

/-- For each suffix of the text, whether its first character is accepted and the verdict on the
next suffix holds. -/
def acceptThen (token : PatternToken) : List Char → List Bool → List Bool
  | c :: text, _ :: verdicts =>
      (token.accepts c && verdicts.headD false) :: acceptThen token text verdicts
  | _, _ => [false]

/-- For each suffix of the text, whether a verdict holds on what follows one of its slashes. -/
def slashThen : List Char → List Bool → List Bool
  | c :: text, _ :: verdicts =>
      let later := slashThen text verdicts
      (c == '/' && verdicts.headD false || later.headD false) :: later
  | _, _ => [false]

/-- Whether the pattern matches each suffix of the text, the longest first. -/
def verdicts : Pattern → List Char → List Bool
  | [], text => (suffixes text).map List.isEmpty
  | .anyRun :: rest, text => orLater (verdicts rest text)
  | .anyFolders :: rest, text =>
      let after := verdicts rest text
      List.zipWith (fun here later => rest.isEmpty || (here || later)) after (slashThen text after)
  | token :: rest, text => acceptThen token text (verdicts rest text)

/-- Decide whether the whole text matches. -/
def test (pattern : Pattern) (text : List Char) : Bool :=
  (verdicts pattern text).headD false

theorem headD_map_suffixes (f : List Char → Bool) (text : List Char) :
    ((suffixes text).map f).headD false = f text := by
  cases text <;> rfl

theorem orLater_map_suffixes (f : List Char → Bool) (text : List Char) :
    orLater ((suffixes text).map f) = (suffixes text).map fun text => (suffixes text).any f := by
  induction text with
  | nil => simp [suffixes, orLater]
  | cons c rest ih =>
      simp only [suffixes, List.map_cons, orLater, ih, List.any_cons]
      rw [headD_map_suffixes (fun text => (suffixes text).any f)]

theorem acceptThen_map_suffixes (token : PatternToken) (f : List Char → Bool)
    (text : List Char) :
    acceptThen token text ((suffixes text).map f) =
      (suffixes text).map fun
        | [] => false
        | c :: rest => token.accepts c && f rest := by
  induction text with
  | nil => simp [suffixes, acceptThen]
  | cons c rest ih => simp only [suffixes, List.map_cons, acceptThen, ih, headD_map_suffixes]

theorem slashThen_map_suffixes (f : List Char → Bool) (text : List Char) :
    slashThen text ((suffixes text).map f) =
      (suffixes text).map fun text => (afterSlashes text).any f := by
  induction text with
  | nil => simp [suffixes, slashThen, afterSlashes]
  | cons c rest ih =>
      simp only [suffixes, List.map_cons, slashThen, ih, headD_map_suffixes]
      by_cases h : c = '/' <;> simp [afterSlashes, h]

theorem verdicts_eq_map_isMatch (pattern : Pattern) (text : List Char) :
    verdicts pattern text = (suffixes text).map (isMatch pattern) := by
  induction pattern with
  | nil =>
      rw [verdicts]
      exact List.map_congr_left fun _ _ => by simp [isMatch]
  | cons token rest ih =>
      cases token with
      | anyRun =>
          rw [verdicts, ih, orLater_map_suffixes]
          exact List.map_congr_left fun _ _ => by simp [isMatch]
      | anyFolders =>
          simp only [verdicts, ih, slashThen_map_suffixes, List.zipWith_map, List.zipWith_self]
          exact List.map_congr_left fun _ _ => by simp [isMatch]
      | literal _ =>
          simp only [verdicts, ih, acceptThen_map_suffixes]
          exact List.map_congr_left fun text _ => by cases text <;> simp [isMatch]
      | anyChar =>
          simp only [verdicts, ih, acceptThen_map_suffixes]
          exact List.map_congr_left fun text _ => by cases text <;> simp [isMatch]
      | oneOf _ =>
          simp only [verdicts, ih, acceptThen_map_suffixes]
          exact List.map_congr_left fun text _ => by cases text <;> simp [isMatch]

theorem test_eq_isMatch (pattern : Pattern) (text : List Char) :
    test pattern text = isMatch pattern text := by
  rw [test, verdicts_eq_map_isMatch, headD_map_suffixes]

end EventAudit.Pattern
