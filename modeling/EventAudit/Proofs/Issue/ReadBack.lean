import EventAudit.Issue.Report
import EventAudit.Proofs.Text.Lines
import Mathlib.Data.List.Forall2

/-! # Reading the report of issues back

The report writes an issue on four or five lines. Nothing is escaped: an event may look like
the end of a header, a file may end like a place in it, and remarks are indented by the width
of all line numbers together. Nevertheless the report tells all that it shows. A header ends
with the name of the rule, which has no quotation mark; the rule fixes how many lines the issue
takes and whether its place ends with a line number; and a number has no colon. -/

namespace EventAudit

/-- A number is written with digits alone. -/
theorem Text.not_mem_toDigits {c : Char} (hc : c.isDigit = false) (number : Nat) :
    c ∉ Nat.toDigits 10 number := by
  intro hmem
  rw [Nat.isDigit_of_mem_toDigits (by decide) (by decide) hmem] at hc
  cases hc

theorem Text.not_mem_toString {c : Char} (hc : c.isDigit = false) (number : Nat) :
    c ∉ (toString number).toList := by
  rw [Nat.toString_eq_repr, Nat.toList_repr]
  exact not_mem_toDigits hc number

theorem Text.not_mem_append {c : Char} {text more : String} :
    c ∉ (text ++ more).toList ↔ c ∉ text.toList ∧ c ∉ more.toList := by
  rw [String.toList_append, List.mem_append, not_or]

theorem Text.toDigits_injective : Function.Injective (Nat.toDigits 10) := by
  intro number number' hdigits
  have hvalue := congrArg (Nat.ofDigitChars 10 · 0) hdigits
  simpa only [Nat.ofDigitChars_toDigits (by decide : 1 < 10) (by decide)] using hvalue

theorem Rule.label_injective : Function.Injective Rule.label := by
  intro rule rule' hlabel
  cases rule <;> cases rule' <;> first | rfl | exact absurd hlabel (by decide)

/-- The files that the reference names. -/
def ArityReference.files : ArityReference → List String
  | declaration file => [file]
  | ownSuffix => []
  | firstCall file _ => [file]

namespace Issue

/-- The event and the files that the issue names. -/
def names : Issue → List String
  | missingDeclaration event creationFile => [event, creationFile]
  | missingDefinition event declarationFile => [event, declarationFile]
  | uncreatedEvent event call => [event, call.file]
  | arityMismatch event call _ reference => event :: call.file :: reference.files
  | conflictingProvenance event conflict => [event, conflict.current, conflict.previous]

/-- Whether everything that the issue names is on one line. -/
def OnLines (issue : Issue) : Prop :=
  ∀ name ∈ issue.names, '\n' ∉ name.toList

instance (issue : Issue) : Decidable issue.OnLines :=
  inferInstanceAs (Decidable (∀ name ∈ issue.names, '\n' ∉ name.toList))

/-- Whether two issues are shown alike in a report. -/
structure ShownAlike (issue issue' : Issue) : Prop where
  rule : issue.rule = issue'.rule
  severity : issue.severity = issue'.severity
  event : issue.event = issue'.event
  file : issue.file = issue'.file
  line : issue.line = issue'.line
  details : issue.details = issue'.details
  hint : issue.hint = issue'.hint

variable {issue issue' : Issue}

theorem isSome_line_of_rule_eq (hrule : issue.rule = issue'.rule) :
    issue.line.isSome = issue'.line.isSome := by
  cases issue <;> cases issue' <;> first | rfl | cases hrule

theorem isSome_hint_of_rule_eq (hrule : issue.rule = issue'.rule) :
    issue.hint.isSome = issue'.hint.isSome := by
  cases issue <;> cases issue' <;> first | rfl | cases hrule

theorem event_mem_names (issue : Issue) : issue.event ∈ issue.names := by
  cases issue <;> exact List.mem_cons_self

theorem file_mem_names (issue : Issue) : issue.file ∈ issue.names := by
  cases issue <;> exact List.mem_cons_of_mem _ List.mem_cons_self

theorem OnLines.lineFeed_not_mem_details (hissue : issue.OnLines) :
    '\n' ∉ issue.details.toList := by
  have hnumber := @Text.not_mem_toString '\n' (by decide)
  cases issue with
  | missingDeclaration event creationFile =>
      rw [details]
      decide
  | missingDefinition event declarationFile =>
      rw [details]
      decide
  | uncreatedEvent event call =>
      rw [details]
      decide
  | arityMismatch event call expected reference =>
      have hreference : '\n' ∉ reference.text.toList := by
        cases reference with
        | ownSuffix => decide
        | declaration file =>
            have hfile := hissue file (by simp [names, ArityReference.files])
            exact Text.not_mem_append.mpr ⟨by decide, hfile⟩
        | firstCall file line =>
            have hfile := hissue file (by simp [names, ArityReference.files])
            change '\n' ∉ ("first fired at " ++ file ++ ":" ++ toString line).toList
            simp only [Text.not_mem_append]
            exact ⟨⟨⟨by decide, hfile⟩, by decide⟩, hnumber line⟩
      simp only [details, Text.not_mem_append]
      exact ⟨⟨⟨⟨⟨⟨by decide, hnumber _⟩, by decide⟩, hnumber _⟩, by decide⟩, hreference⟩,
        by decide⟩
  | conflictingProvenance event conflict =>
      have hprevious := hissue conflict.previous (by simp [names])
      have hkind : '\n' ∉ conflict.kind.name.toList := by cases conflict.kind <;> decide
      simp only [details, Text.not_mem_append]
      exact ⟨⟨hkind, by decide⟩, hprevious⟩

theorem lineFeed_not_mem_hint {hint : String} (hhint : hint ∈ issue.hint) :
    '\n' ∉ hint.toList := by
  cases issue with
  | conflictingProvenance event conflict =>
      obtain rfl := Option.some.inj hhint
      cases conflict.kind <;> decide
  | _ => cases hhint

end Issue

namespace Report

/-- The line with what is wrong. -/
def headLine (issue : Issue) : String :=
  issue.severity.name ++ ": \"" ++ issue.event ++ "\"  " ++ issue.rule.label

def placeLine (issue : Issue) : String :=
  "  --> " ++ location issue

def remarkLine (width : Nat) (label text : String) : String :=
  String.ofList (List.replicate width ' ') ++ " = " ++ label ++ " " ++ text

/-- The lines of an issue, the empty one after it included. -/
def issueLines (width : Nat) (issue : Issue) : List String :=
  headLine issue :: placeLine issue :: remarkLine width "note:" issue.details ::
    (issue.hint.toList.map (remarkLine width "hint:") ++ [""])

/-- The last line of a report, with the numbers of all problems, of errors and of warnings. -/
def tally (total errors warnings : Nat) : String :=
  failureMark ++ " " ++ toString total ++ " " ++ plural total "problem" ++ " ("
    ++ toString errors ++ " " ++ plural errors "error" ++ ", "
    ++ toString warnings ++ " " ++ plural warnings "warning" ++ ")"

/-- The lines of a report without colours. -/
def reportLines (issues : List Issue) : List String :=
  if issues.isEmpty then []
  else issues.flatMap (issueLines (lineWidth issues)) ++
    [tally issues.length (errorCount issues) (warningCount issues)]

section Lines

variable {issue issue' : Issue} {issues issues' : List Issue} {width width' : Nat}

theorem toList_issueText (width : Nat) (issue : Issue) :
    (issueText false width issue).toList =
      (issueLines width issue).flatMap fun line => line.toList ++ ['\n'] := by
  cases hhint : issue.hint <;>
    simp [issueText, issueLines, headLine, placeLine, remark, remarkLine, Text.paint, hhint]

theorem toList_summary (issues : List Issue) : (summary false issues).toList =
    (tally issues.length (errorCount issues) (warningCount issues)).toList ++ ['\n'] := by
  simp [summary, tally, Text.paint]

theorem toList_issuesText (issues : List Issue) :
    (issuesText false issues).toList =
      (reportLines issues).flatMap fun line => line.toList ++ ['\n'] := by
  rw [issuesText, reportLines]
  split
  · rfl
  · rw [String.toList_append, String.toList_join, toList_summary, List.flatMap_append,
      List.flatMap_singleton, List.flatMap_map, List.flatMap_assoc]
    simp only [toList_issueText]

/-- The lines that are written for an issue are lines, if what the issue names is. -/
theorem lineFeed_not_mem_of_mem_issueLines (hissue : issue.OnLines) :
    ∀ line ∈ issueLines width issue, '\n' ∉ line.toList := by
  have hevent := hissue _ issue.event_mem_names
  have hfile := hissue _ issue.file_mem_names
  have hhead : '\n' ∉ (headLine issue).toList := by
    have hseverity : '\n' ∉ issue.severity.name.toList := by
      cases issue.severity <;> decide
    have hrule : '\n' ∉ issue.rule.label.toList := by
      cases issue.rule <;> decide
    simp [headLine, hseverity, hevent, hrule]
  have hplace : '\n' ∉ (placeLine issue).toList := by
    have hnumber := @Text.not_mem_toDigits '\n' (by decide)
    cases hline : issue.line <;> simp [placeLine, location, hline, hfile, hnumber]
  have hremark : ∀ {label text : String}, '\n' ∉ label.toList → '\n' ∉ text.toList →
      '\n' ∉ (remarkLine width label text).toList := by
    intro label text hlabel htext
    simp [remarkLine, hlabel, htext]
  simp only [issueLines, List.forall_mem_cons, List.forall_mem_append, List.forall_mem_map,
    Option.mem_toList]
  refine ⟨hhead, hplace, hremark (by decide) hissue.lineFeed_not_mem_details, ?_, by decide, ?_⟩
  · exact fun hint hmem => hremark (by decide) (Issue.lineFeed_not_mem_hint hmem)
  · exact fun line hmem => absurd hmem List.not_mem_nil

/-- The header tells the rule and the event. -/
theorem eq_of_headLine_eq (hhead : headLine issue = headLine issue') :
    issue.rule = issue'.rule ∧ issue.event = issue'.event := by
  have hcut : ∀ issue : Issue, (headLine issue).toList =
      (issue.severity.name ++ ": \"" ++ issue.event).toList ++
        '"' :: ("  " ++ issue.rule.label).toList := by
    intro issue
    simp [headLine]
  have hlabel : ∀ rule : Rule, '"' ∉ ("  " ++ rule.label).toList := by
    intro rule
    cases rule <;> decide
  have htext := congrArg String.toList hhead
  rw [hcut, hcut] at htext
  obtain ⟨hbefore, hafter⟩ := Text.append_cons_inj_last (hlabel _) (hlabel _) htext
  rw [String.toList_inj] at hbefore hafter
  have hrule := Rule.label_injective ((String.append_right_inj _).mp hafter)
  rw [Issue.severity, Issue.severity, hrule, String.append_right_inj] at hbefore
  exact ⟨hrule, hbefore⟩

/-- The place tells the file and the line, if both have a line or both have none. -/
theorem eq_of_placeLine_eq (hline : issue.line.isSome = issue'.line.isSome)
    (hplace : placeLine issue = placeLine issue') :
    issue.file = issue'.file ∧ issue.line = issue'.line := by
  rw [placeLine, placeLine, String.append_right_inj, location, location] at hplace
  cases hsome : issue.line with
  | none =>
      rw [hsome, eq_comm, Option.isSome_none, Option.isSome_eq_false_iff,
        Option.isNone_iff_eq_none] at hline
      rw [hsome, hline] at hplace
      exact ⟨hplace, hline.symm⟩
  | some number =>
      rw [hsome, eq_comm, Option.isSome_some, Option.isSome_iff_exists] at hline
      obtain ⟨number', hsome'⟩ := hline
      rw [hsome, hsome'] at hplace
      have htext := congrArg String.toList hplace
      simp only [String.toList_append, List.append_assoc, Nat.toString_eq_repr,
        Nat.toList_repr] at htext
      have hcolon := @Text.not_mem_toDigits ':' (by decide)
      obtain ⟨hfile, hnumber⟩ :=
        Text.append_cons_inj_last (hcolon number) (hcolon number') htext
      rw [hsome', Text.toDigits_injective hnumber]
      exact ⟨String.toList_inj.mp hfile, rfl⟩

/-- A remark tells its text, whatever it is indented by. -/
theorem eq_of_remarkLine_eq {label text text' : String}
    (hremark : remarkLine width label text = remarkLine width' label text') : text = text' := by
  have hcut : ∀ (width : Nat) (text : String), (remarkLine width label text).toList =
      (List.replicate width ' ' ++ [' ']) ++ '=' :: (" " ++ label ++ " " ++ text).toList := by
    intro width text
    simp [remarkLine]
  have hpadding : ∀ width : Nat, '=' ∉ List.replicate width ' ' ++ [' '] := by
    simp
  have htext := congrArg String.toList hremark
  rw [hcut, hcut] at htext
  obtain ⟨-, hafter⟩ := Text.append_cons_inj (hpadding width) (hpadding width') htext
  rwa [String.toList_inj, String.append_right_inj] at hafter

/-- The lines of an issue, with whatever follows them, determine what is shown of it. -/
theorem shownAlike_of_issueLines_append_eq {rest rest' : List String}
    (hlines : issueLines width issue ++ rest = issueLines width' issue' ++ rest') :
    issue.ShownAlike issue' ∧ rest = rest' := by
  simp only [issueLines, List.cons_append, List.append_assoc, List.cons.injEq] at hlines
  obtain ⟨hhead, hplace, hdetails, hhint⟩ := hlines
  obtain ⟨hrule, hevent⟩ := eq_of_headLine_eq hhead
  obtain ⟨hfile, hline⟩ := eq_of_placeLine_eq (Issue.isSome_line_of_rule_eq hrule) hplace
  have hseverity : issue.severity = issue'.severity := congrArg Rule.severity hrule
  -- The rule fixes whether there is a hint, hence where the lines of the issue end.
  have hsome := Issue.isSome_hint_of_rule_eq hrule
  have hrest : issue.hint = issue'.hint ∧ rest = rest' := by
    cases hnone : issue.hint with
    | none =>
        rw [hnone, eq_comm, Option.isSome_none, Option.isSome_eq_false_iff,
          Option.isNone_iff_eq_none] at hsome
        rw [hnone, hsome] at hhint
        exact ⟨hsome.symm, (List.cons.inj hhint).2⟩
    | some hint =>
        rw [hnone, eq_comm, Option.isSome_some, Option.isSome_iff_exists] at hsome
        obtain ⟨hint', hsome⟩ := hsome
        rw [hnone, hsome] at hhint
        obtain ⟨hremark, hrest⟩ := List.cons.inj hhint
        exact ⟨by rw [hsome, eq_of_remarkLine_eq hremark], (List.cons.inj hrest).2⟩
  exact ⟨⟨hrule, hseverity, hevent, hfile, hline, eq_of_remarkLine_eq hdetails, hrest.1⟩,
    hrest.2⟩

theorem forall₂_shownAlike_of_flatMap_eq {last last' : String}
    (hlines : issues.flatMap (issueLines width) ++ [last] =
      issues'.flatMap (issueLines width') ++ [last']) :
    List.Forall₂ Issue.ShownAlike issues issues' := by
  induction issues generalizing issues' with
  | nil =>
      cases issues' with
      | nil => exact .nil
      | cons issue' rest' => simp [issueLines] at hlines
  | cons issue rest ih =>
      cases issues' with
      | nil => simp [issueLines] at hlines
      | cons issue' rest' =>
          rw [List.flatMap_cons, List.flatMap_cons, List.append_assoc, List.append_assoc]
            at hlines
          obtain ⟨halike, hrest⟩ := shownAlike_of_issueLines_append_eq hlines
          exact .cons halike (ih hrest)

theorem lineFeed_not_mem_tally (total errors warnings : Nat) :
    '\n' ∉ (tally total errors warnings).toList := by
  have hnumber := @Text.not_mem_toDigits '\n' (by decide)
  have hplural : ∀ (count : Nat) {noun : String}, '\n' ∉ noun.toList →
      '\n' ∉ (plural count noun).toList := by
    intro count noun hnoun
    rw [plural]
    split <;> simp [hnoun]
  simp [tally, hnumber, hplural, failureMark]

theorem lineFeed_not_mem_of_mem_reportLines (hissues : ∀ issue ∈ issues, issue.OnLines) :
    ∀ line ∈ reportLines issues, '\n' ∉ line.toList := by
  intro line hline
  rw [reportLines] at hline
  split at hline
  · cases hline
  · rcases List.mem_append.mp hline with hmem | hmem
    · obtain ⟨issue, hissue, hmem⟩ := List.mem_flatMap.mp hmem
      exact lineFeed_not_mem_of_mem_issueLines (hissues issue hissue) line hmem
    · rw [List.mem_singleton.mp hmem]
      exact lineFeed_not_mem_tally _ _ _

/-- The last line tells the numbers in it. -/
theorem tally_inj {total total' errors errors' warnings warnings' : Nat} :
    tally total errors warnings = tally total' errors' warnings' ↔
      total = total' ∧ errors = errors' ∧ warnings = warnings' := by
  constructor
  · intro htally
    have htext := congrArg String.toList htally
    have hcut : ∀ total errors warnings : Nat, (tally total errors warnings).toList =
        '✘' :: ' ' :: (Nat.toDigits 10 total ++ ' ' :: ((plural total "problem").toList ++
          ' ' :: '(' :: (Nat.toDigits 10 errors ++ ' ' :: ((plural errors "error").toList ++
            ',' :: ' ' :: (Nat.toDigits 10 warnings ++ ' ' ::
              ((plural warnings "warning").toList ++ [')'])))))) := by
      intro total errors warnings
      simp [tally, failureMark]
    have hblank := @Text.not_mem_toDigits ' ' (by decide)
    rw [hcut, hcut] at htext
    obtain ⟨htotal, htext⟩ := Text.append_cons_inj (hblank total) (hblank total')
      (List.cons.inj (List.cons.inj htext).2).2
    obtain rfl := Text.toDigits_injective htotal
    have htext := List.append_cancel_left htext
    obtain ⟨herrors, htext⟩ := Text.append_cons_inj (hblank errors) (hblank errors')
      (List.cons.inj (List.cons.inj htext).2).2
    obtain rfl := Text.toDigits_injective herrors
    have htext := List.append_cancel_left htext
    obtain ⟨hwarnings, -⟩ := Text.append_cons_inj (hblank warnings) (hblank warnings')
      (List.cons.inj (List.cons.inj htext).2).2
    exact ⟨rfl, rfl, Text.toDigits_injective hwarnings⟩
  · rintro ⟨rfl, rfl, rfl⟩
    rfl

theorem errorCount_eq_length_filter (issues : List Issue) :
    errorCount issues = (issues.filter fun issue => issue.severity = .error).length :=
  List.countP_eq_length_filter

/-- An issue that is no error is a warning. -/
theorem warningCount_eq_length_filter (issues : List Issue) :
    warningCount issues = (issues.filter fun issue => issue.severity = .warning).length := by
  have hwarning : ∀ issue : Issue,
      decide ¬(issue.severity == .error) = true ↔ decide (issue.severity = .warning) = true := by
    intro issue
    cases issue.severity <;> decide
  rw [warningCount, errorCount, List.length_eq_countP_add_countP fun issue : Issue =>
    issue.severity == .error, Nat.add_sub_cancel_left, ← List.countP_eq_length_filter]
  exact List.countP_congr fun issue _ => hwarning issue

theorem errorCount_add_warningCount (issues : List Issue) :
    errorCount issues + warningCount issues = issues.length :=
  Nat.add_sub_cancel' List.countP_le_length

theorem exists_toList_issueText (width : Nat) (issue : Issue) :
    ∃ before, (issueText false width issue).toList = before ++ ['\n'] := by
  rw [issueText, String.toList_append]
  exact ⟨_, rfl⟩

theorem dropReturn_tally (total errors warnings : Nat) :
    Text.dropReturn (tally total errors warnings).toList =
      (tally total errors warnings).toList := by
  rw [Text.dropReturn, if_neg]
  rw [tally, String.toList_append, List.getLast?_append_of_ne_nil _ (by decide)]
  decide

/-- The last line of the report of some issues counts them. -/
theorem getLast?_lines_issuesText (hissues : issues ≠ []) :
    (Text.lines (issuesText false issues).toList).getLast? =
      some (tally issues.length (errorCount issues) (warningCount issues)).toList := by
  have hbefore : ∃ before, (String.join (issues.map
      (issueText false (lineWidth issues)))).toList = before ++ ['\n'] := by
    obtain ⟨first, last, hlast⟩ := (List.eq_nil_or_concat issues).resolve_left hissues
    obtain ⟨before, hbefore⟩ := exists_toList_issueText (lineWidth issues) last
    rw [String.toList_join, List.flatMap_map]
    nth_rewrite 2 [hlast]
    rw [List.concat_eq_append, List.flatMap_append, List.flatMap_singleton, hbefore,
      ← List.append_assoc]
    exact ⟨_, rfl⟩
  obtain ⟨before, hbefore⟩ := hbefore
  rw [issuesText, if_neg (by rwa [List.isEmpty_iff]), String.toList_append, toList_summary,
    hbefore, List.append_assoc, List.singleton_append,
    Text.getLast?_lines_append before (lineFeed_not_mem_tally _ _ _), dropReturn_tally]

/-- Lists of issues that are printed alike are shown alike, issue by issue. -/
theorem forall₂_shownAlike_of_issuesText_eq (hissues : ∀ issue ∈ issues, issue.OnLines)
    (hissues' : ∀ issue ∈ issues', issue.OnLines)
    (htext : issuesText false issues = issuesText false issues') :
    List.Forall₂ Issue.ShownAlike issues issues' := by
  have hpieces := congrArg (List.splitOn '\n') (congrArg String.toList htext)
  rw [toList_issuesText, toList_issuesText,
    Text.splitOn_flatMap_line (lineFeed_not_mem_of_mem_reportLines hissues),
    Text.splitOn_flatMap_line (lineFeed_not_mem_of_mem_reportLines hissues')] at hpieces
  have hlines := List.map_injective_iff.mpr (fun _ _ => String.toList_injective)
    (List.append_cancel_right hpieces)
  rw [reportLines, reportLines] at hlines
  cases issues with
  | nil =>
      cases issues' with
      | nil => exact .nil
      | cons issue' rest' => simp at hlines
  | cons issue rest =>
      cases issues' with
      | nil => simp at hlines
      | cons issue' rest' => exact forall₂_shownAlike_of_flatMap_eq hlines

end Lines

/-- The report of issues can be read back. Lists of issues that name nothing with a line feed and
are printed alike are shown alike, issue by issue. The last line of the report of any issues
tells how many they are and how many are errors and warnings, and these two make up all. -/
theorem report_reads_back :
    (∀ issues issues' : List Issue, (∀ issue ∈ issues, issue.OnLines) →
      (∀ issue ∈ issues', issue.OnLines) →
      issuesText false issues = issuesText false issues' →
      issues.length = issues'.length ∧ List.Forall₂ Issue.ShownAlike issues issues') ∧
    ∀ issues : List Issue, issues ≠ [] →
      (∀ total errors warnings,
        (Text.lines (issuesText false issues).toList).getLast? =
            some (tally total errors warnings).toList ↔
          total = issues.length ∧
            errors = (issues.filter fun issue => issue.severity = .error).length ∧
            warnings = (issues.filter fun issue => issue.severity = .warning).length) ∧
      (issues.filter fun issue => issue.severity = .error).length +
        (issues.filter fun issue => issue.severity = .warning).length = issues.length := by
  constructor
  · intro issues issues' hissues hissues' htext
    have halike := forall₂_shownAlike_of_issuesText_eq hissues hissues' htext
    exact ⟨halike.length_eq, halike⟩
  · intro issues hissues
    rw [← errorCount_eq_length_filter, ← warningCount_eq_length_filter]
    refine ⟨fun total errors warnings => ?_, errorCount_add_warningCount issues⟩
    rw [getLast?_lines_issuesText hissues, Option.some.injEq, String.toList_inj, eq_comm,
      tally_inj]

/-- An event that goes on like a header and files that end like places do not mislead; what calls
pass is not shown. -/
theorem report_reads_back_with_misleading_names :
    let call (argument : String) : FireCall :=
      { file := "f.c:12", line := 103, arity := none, args := [argument] }
    let conflict : Conflict :=
      { kind := .declaration, previous := "g.h", current := "f.c:12:3" }
    let issues : List Issue :=
      [.uncreatedEvent "a\"  missing-declaration" (call "x"), .conflictingProvenance "b" conflict]
    let issues' : List Issue :=
      [.uncreatedEvent "a\"  missing-declaration" (call "y"), .conflictingProvenance "b" conflict]
    issuesText false issues =
        "error: \"a\"  missing-declaration\"  uncreated-event\n  --> f.c:12:103\n" ++
          "    = note: event is fired but never created\n\n" ++
          "warning: \"b\"  conflicting-provenance\n  --> f.c:12:3\n" ++
          "    = note: declaration also found in g.h\n" ++
          "    = hint: keep a single declaration per event\n\n" ++
          "✘ 2 problems (1 error, 1 warning)\n" ∧
      issuesText false issues = issuesText false issues' ∧
      (issues.length = issues'.length ∧ List.Forall₂ Issue.ShownAlike issues issues') ∧
      issues ≠ [] ∧
      (∀ total errors warnings,
        (Text.lines (issuesText false issues).toList).getLast? =
            some (tally total errors warnings).toList ↔
          total = issues.length ∧
            errors = (issues.filter fun issue => issue.severity = .error).length ∧
            warnings = (issues.filter fun issue => issue.severity = .warning).length) := by
  intro call conflict issues issues'
  have htext : issuesText false issues = issuesText false issues' := by decide +kernel
  have hissues : issues ≠ [] := List.cons_ne_nil _ _
  refine ⟨by decide +kernel, htext, ?_, hissues, (report_reads_back.2 issues hissues).1⟩
  exact report_reads_back.1 issues issues' (by decide +kernel) (by decide +kernel) htext

end Report
end EventAudit
