import EventAudit.Proofs.Text.Lines
import EventAudit.Source.Line
import Mathlib.Data.List.TakeWhile

/-! # Line classes against a scanner of characters

Lines are classified one at a time, by searching each line for comment tokens. Beside
that stands a scanner with two states that reads a whole text once, character by
character, and knows nothing of lines. Both agree on every line of every text:
tokens never reach over a line feed, and the carriage return of a line break is
part of no token. -/

namespace EventAudit

/-- One move of the scanner: the characters that it consumes together, and whether it is inside a
comment after them. -/
structure ScanMove where
  consumed : List Char
  inside : Bool
deriving DecidableEq, Repr

namespace ScanMove

/-- All moves over a text. Two characters are consumed together where they open or close a
comment, and every other character alone. -/
def scan : (inside : Bool) → List Char → List ScanMove
  | _, [] => []
  | false, '/' :: '*' :: rest => { consumed := ['/', '*'], inside := true } :: scan true rest
  | true, '*' :: '/' :: rest => { consumed := ['*', '/'], inside := false } :: scan false rest
  | inside, c :: rest => { consumed := [c], inside } :: scan inside rest

/-- The state after some moves from a given state. -/
def stateAfter (inside : Bool) (moves : List ScanMove) : Bool :=
  (moves.getLast?.map ScanMove.inside).getD inside

/-- Whether some of the moves enters a comment. -/
def opensComment (moves : List ScanMove) : Bool :=
  moves.any (·.consumed == ['/', '*'])

def isLineFeed (move : ScanMove) : Bool :=
  move.consumed == ['\n']

/-- The moves before a line, the lines being counted from zero: those up to and with so many line
feeds. -/
def beforeLine : (index : Nat) → List ScanMove → List ScanMove
  | 0, _ => []
  | _ + 1, [] => []
  | index + 1, move :: rest =>
      move :: beforeLine (if move.isLineFeed then index else index + 1) rest

/-- The moves on a line, without its line feed. -/
def onLine (index : Nat) (moves : List ScanMove) : List ScanMove :=
  (moves.drop (beforeLine index moves).length).takeWhile (!·.isLineFeed)

section States

variable (inside : Bool)

@[simp] theorem stateAfter_nil : stateAfter inside [] = inside := rfl

@[simp] theorem stateAfter_cons (move : ScanMove) (moves : List ScanMove) :
    stateAfter inside (move :: moves) = stateAfter move.inside moves := by
  rw [stateAfter, stateAfter, List.getLast?_cons, Option.map_some, Option.getD_some]
  cases moves.getLast? <;> rfl

@[simp] theorem stateAfter_append (first second : List ScanMove) :
    stateAfter inside (first ++ second) = stateAfter (stateAfter inside first) second := by
  induction first generalizing inside with
  | nil => rfl
  | cons move rest ih => simp only [List.cons_append, stateAfter_cons, ih]

end States

/-- The scanner consumes the text from the first to the last character. -/
theorem flatMap_consumed_scan (inside : Bool) (text : List Char) :
    (scan inside text).flatMap consumed = text := by
  fun_induction scan inside text with
  | case1 => rfl
  | case2 rest ih => simp [ih]
  | case3 rest ih => simp [ih]
  | case4 inside c rest hopen hclose ih => simp [ih]

theorem isLineFeed_eq_false_of_mem_scan {inside : Bool} {piece : List Char}
    (hpiece : '\n' ∉ piece) {move : ScanMove} (hmove : move ∈ scan inside piece) :
    move.isLineFeed = false := by
  rw [isLineFeed, beq_eq_false_iff_ne]
  intro hfeed
  apply hpiece
  rw [← flatMap_consumed_scan inside piece]
  exact List.mem_flatMap.mpr ⟨move, hmove, by simp [hfeed]⟩

/-- A character that is part of no token is consumed alone, whatever stands around it. -/
theorem scan_append_cons (inside : Bool) (text : List Char) {c : Char} (hslash : c ≠ '/')
    (hstar : c ≠ '*') (rest : List Char) :
    scan inside (text ++ c :: rest) = scan inside text ++
      { consumed := [c], inside := stateAfter inside (scan inside text) } ::
        scan (stateAfter inside (scan inside text)) rest := by
  fun_induction scan inside text with
  | case1 inside =>
      rw [List.nil_append, scan]
      · rfl
      · exact fun _ _ heq => absurd heq hslash
      · exact fun _ _ heq => absurd heq hstar
  | case2 later ih => simp only [List.cons_append, scan, ih, stateAfter_cons]
  | case3 later ih => simp only [List.cons_append, scan, ih, stateAfter_cons]
  | case4 inside d later hopen hclose ih =>
      -- The next character stays the same, or it is `c`, which completes no token.
      rw [List.cons_append, scan, ih, stateAfter_cons, List.cons_append]
      · intro tail hinside hd htail
        cases later with
        | nil => exact hstar (List.cons.inj htail).1
        | cons e later => exact hopen later hinside hd (by rw [(List.cons.inj htail).1])
      · intro tail hinside hd htail
        cases later with
        | nil => exact hslash (List.cons.inj htail).1
        | cons e later => exact hclose later hinside hd (by rw [(List.cons.inj htail).1])

/-- A run of characters that are consumed one by one. -/
def alone (inside : Bool) (text : List Char) : List ScanMove :=
  text.map fun c => { consumed := [c], inside }

@[simp] theorem stateAfter_alone (inside : Bool) (text : List Char) :
    stateAfter inside (alone inside text) = inside := by
  induction text with
  | nil => rfl
  | cons c rest ih => simpa only [alone, List.map_cons, stateAfter_cons] using ih

@[simp] theorem opensComment_alone (inside : Bool) (text : List Char) :
    opensComment (alone inside text) = false := by
  simp [opensComment, alone]

@[simp] theorem opensComment_append (first second : List ScanMove) :
    opensComment (first ++ second) = (opensComment first || opensComment second) :=
  List.any_append

open LineState

theorem scan_cons_of_not_isPrefixOf {inside : Bool} {c : Char} {rest : List Char}
    (htoken : ¬(nextToken inside).isPrefixOf (c :: rest)) :
    scan inside (c :: rest) = { consumed := [c], inside } :: scan inside rest := by
  rw [scan]
  · rintro tail rfl rfl rfl
    exact htoken rfl
  · rintro tail rfl rfl rfl
    exact htoken rfl

theorem scan_nextToken_append (inside : Bool) (rest : List Char) :
    scan inside (nextToken inside ++ rest) =
      { consumed := nextToken inside, inside := !inside } :: scan (!inside) rest := by
  cases inside <;> rfl

/-- Without the token that would change the state, the scanner moves one by one. -/
theorem scan_of_cutAt?_eq_none {inside : Bool} {line : List Char}
    (hcut : Text.cutAt? (nextToken inside) line = none) : scan inside line = alone inside line := by
  induction line with
  | nil => rfl
  | cons c rest ih =>
      rw [Text.cutAt?] at hcut
      split at hcut
      next => simp at hcut
      next htoken =>
        rw [scan_cons_of_not_isPrefixOf htoken, ih (Option.map_eq_none_iff.mp hcut)]
        rfl

/-- The first occurrence of the token is where the scanner changes its state. -/
theorem scan_of_cutAt?_eq_some {inside : Bool} {line before rest : List Char}
    (hcut : Text.cutAt? (nextToken inside) line = some (before, rest)) :
    scan inside line = alone inside before ++
      { consumed := nextToken inside, inside := !inside } :: scan (!inside) rest := by
  induction line generalizing before with
  | nil =>
      rw [Text.cutAt?, if_neg (by simp [nextToken_ne_nil])] at hcut
      simp at hcut
  | cons c later ih =>
      have hline := Text.eq_of_cutAt? hcut
      rw [Text.cutAt?] at hcut
      split at hcut
      next htoken =>
        simp only [Option.some.injEq, Prod.mk.injEq] at hcut
        obtain ⟨rfl, -⟩ := hcut
        rw [hline, List.nil_append, scan_nextToken_append]
        rfl
      next htoken =>
        obtain ⟨⟨before', rest'⟩, hlater, heq⟩ := Option.map_eq_some_iff.mp hcut
        simp only [Prod.mk.injEq] at heq
        obtain ⟨rfl, rfl⟩ := heq
        rw [scan_cons_of_not_isPrefixOf htoken, ih hlater]
        rfl

/-- Searching a line for tokens finds what the scanner finds. -/
theorem walkComments_eq_scan (inside : Bool) (line : List Char) :
    walkComments inside line =
      (opensComment (scan inside line), stateAfter inside (scan inside line)) := by
  fun_induction walkComments inside line with
  | case1 inside line hcut =>
      rw [scan_of_cutAt?_eq_none hcut, opensComment_alone, stateAfter_alone]
  | case2 inside line before rest hcut _ walk ih =>
      have hwalk : walk = (opensComment (scan (!inside) rest),
          stateAfter (!inside) (scan (!inside) rest)) := ih
      rw [hwalk, scan_of_cutAt?_eq_some hcut, opensComment_append, opensComment_alone,
        stateAfter_append, stateAfter_alone, stateAfter_cons]
      cases inside <;> rfl

/-- The carriage return of a line break neither opens nor closes a comment. -/
theorem walkComments_dropReturn (inside : Bool) (piece : List Char) :
    walkComments inside (Text.dropReturn piece) = walkComments inside piece := by
  rcases Text.eq_dropReturn_or piece with hpiece | hpiece
  · rw [← hpiece]
  · rw [walkComments_eq_scan inside piece, hpiece,
      scan_append_cons inside _ (by decide) (by decide), opensComment_append,
      stateAfter_append, stateAfter_cons, ← hpiece, walkComments_eq_scan]
    simp [opensComment, scan]

@[simp] theorem beforeLine_zero (moves : List ScanMove) : beforeLine 0 moves = [] := by
  rw [beforeLine]

section Lines

variable {moves : List ScanMove} (hmoves : ∀ move ∈ moves, move.isLineFeed = false)
include hmoves

theorem onLine_zero : onLine 0 moves = moves := by
  rw [onLine, beforeLine_zero, List.length_nil, List.drop_zero]
  apply List.takeWhile_eq_self_iff.mpr
  simpa using hmoves

variable {feed : ScanMove} (hfeed : feed.isLineFeed = true) (rest : List ScanMove)
include hfeed

theorem onLine_zero_append : onLine 0 (moves ++ feed :: rest) = moves := by
  rw [onLine, beforeLine_zero, List.length_nil, List.drop_zero, List.takeWhile_append_of_pos]
  · simp [hfeed]
  · simpa using hmoves

theorem beforeLine_succ_append (index : Nat) :
    beforeLine (index + 1) (moves ++ feed :: rest) = moves ++ feed :: beforeLine index rest := by
  induction moves with
  | nil => rw [List.nil_append, beforeLine, if_pos hfeed, List.nil_append]
  | cons move later ih =>
      have hmove : move.isLineFeed = false := hmoves move List.mem_cons_self
      have hlater := ih fun move hmem => hmoves move (List.mem_cons_of_mem _ hmem)
      simp only [List.cons_append, beforeLine, hmove, Bool.false_eq_true, if_false, hlater]

theorem onLine_succ_append (index : Nat) :
    onLine (index + 1) (moves ++ feed :: rest) = onLine index rest := by
  rw [onLine, onLine, beforeLine_succ_append hmoves hfeed]
  have hlength : (moves ++ feed :: beforeLine index rest).length =
      moves.length + ((beforeLine index rest).length + 1) := by
    rw [List.length_append, List.length_cons]
  rw [hlength, List.drop_length_add_append, List.drop_succ_cons]

end Lines

/-- Going through the lines of a text keeps step with the scanner: both are in the same state
before a line, and find the same on it. -/
theorem walkComments_line (source : List Char) (state : LineState) {index : Nat}
    {line : List Char} (hline : (Text.lines source)[index]? = some line) :
    let moves := scan state.inComment source
    let start := stateAfter state.inComment (beforeLine index moves)
    (state.after ((Text.lines source).take index)).inComment = start ∧
      walkComments start line =
        (opensComment (onLine index moves), stateAfter start (onLine index moves)) := by
  induction source using Text.line_induction generalizing state index with
  | last piece hpiece =>
      have hmoves : ∀ move ∈ scan state.inComment piece, move.isLineFeed = false :=
        fun move hmove => isLineFeed_eq_false_of_mem_scan hpiece hmove
      rw [Text.lines_of_not_mem hpiece] at hline
      split at hline
      next => simp at hline
      next =>
        rw [List.getElem?_singleton] at hline
        split at hline
        next hindex =>
          cases hline
          subst hindex
          dsimp only
          rw [onLine_zero hmoves, beforeLine_zero]
          exact ⟨rfl, walkComments_eq_scan _ _⟩
        next => simp at hline
  | line piece rest hpiece ih =>
      have hmoves : ∀ move ∈ scan state.inComment piece, move.isLineFeed = false :=
        fun move hmove => isLineFeed_eq_false_of_mem_scan hpiece hmove
      rw [Text.lines_append_cons hpiece] at hline ⊢
      rw [scan_append_cons _ _ (by decide) (by decide)]
      dsimp only
      cases index with
      | zero =>
          cases hline
          rw [onLine_zero_append hmoves rfl, beforeLine_zero, walkComments_dropReturn]
          exact ⟨rfl, walkComments_eq_scan _ _⟩
      | succ index =>
          -- The line break leaves the scanner in the state in which the next line starts.
          have hnext : (state.next (Text.dropReturn piece)).inComment =
              stateAfter state.inComment (scan state.inComment piece) := by
            rw [LineState.next, walkComments_dropReturn, walkComments_eq_scan]
          have hrest := ih (state.next (Text.dropReturn piece)) hline
          rw [hnext] at hrest
          rw [onLine_succ_append hmoves rfl, beforeLine_succ_append hmoves rfl,
            stateAfter_append, stateAfter_cons]
          exact hrest

end ScanMove

namespace LineState

theorem continued_after_succ (state : LineState) (lines : List (List Char)) {index : Nat}
    {line : List Char} (hline : lines[index]? = some line) :
    (state.after (lines.take (index + 1))).continued = continues line := by
  rw [List.take_add_one, hline, after, List.foldl_append]
  rfl

/-- The first character that is not blank. -/
def firstInk (line : List Char) : Option Char :=
  line.find? (!Text.isBlank ·)

/-- The last character that is not blank. -/
def lastInk (line : List Char) : Option Char :=
  line.reverse.find? (!Text.isBlank ·)

theorem startsDirective_iff (line : List Char) :
    startsDirective line = true ↔ firstInk line = some '#' := by
  rw [startsDirective, beq_iff_eq, Text.trimStart, firstInk, List.find?_not_eq_head?_dropWhile]

theorem continues_iff (line : List Char) :
    continues line = true ↔ lastInk line = some '\\' := by
  rw [continues, beq_iff_eq, Text.trimEnd, Text.dropWhileEnd, List.getLast?_reverse, lastInk,
    List.find?_not_eq_head?_dropWhile]

/-- Whether a line continues the line before depends on that line alone, whatever its class. -/
theorem continued_iff (lines : List (List Char)) {index : Nat} (hindex : index < lines.length) :
    (LineState.after {} (lines.take index)).continued = true ↔
      ∃ earlier previous, index = earlier + 1 ∧ lines[earlier]? = some previous ∧
        lastInk previous = some '\\' := by
  cases index with
  | zero => simp [after]
  | succ earlier =>
      have hprevious : lines[earlier]? = some lines[earlier] :=
        List.getElem?_eq_getElem (by omega)
      rw [continued_after_succ _ _ hprevious, continues_iff]
      constructor
      · intro hlast
        exact ⟨earlier, _, rfl, hprevious, hlast⟩
      · rintro ⟨earlier', previous, heq, hget, hlast⟩
        obtain rfl : earlier = earlier' := by omega
        rw [hprevious] at hget
        exact Option.some.inj hget ▸ hlast

theorem classify_iff {state : LineState} {line : List Char} {isComment isDirective : Prop}
    (hcomment : (state.inComment || (walkComments state.inComment line).1) = true ↔ isComment)
    (hdirective : (state.continued || continues line || startsDirective line) = true ↔
      isDirective) :
    (state.classify line = .comment ↔ isComment) ∧
      (state.classify line = .directive ↔ ¬isComment ∧ isDirective) ∧
      (state.classify line = .code ↔ ¬isComment ∧ ¬isDirective) := by
  rw [classify, ← hcomment, ← hdirective]
  split
  next h => simp [h]
  next h =>
    split
    next h' => simp [h, h']
    next h' => simp [h, h']

/-- The class of every line, said of the scanner and of the characters of the line. -/
theorem classify_agrees_with_scanner (source : List Char) (index : Nat) (line : List Char)
    (hline : (Text.lines source)[index]? = some line) :
    let moves := ScanMove.scan false source
    let before := ScanMove.beforeLine index moves
    let onLine := ScanMove.onLine index moves
    let state := LineState.after {} ((Text.lines source).take index)
    let isComment := ScanMove.stateAfter false before = true ∨ ScanMove.opensComment onLine = true
    let isDirective := firstInk line = some '#' ∨ lastInk line = some '\\' ∨
      ∃ earlier previous, index = earlier + 1 ∧ (Text.lines source)[earlier]? = some previous ∧
        lastInk previous = some '\\'
    (LineState.after {} ((Text.lines source).take (index + 1))).inComment =
        ScanMove.stateAfter false (before ++ onLine) ∧
      (state.classify line = .comment ↔ isComment) ∧
      (state.classify line = .directive ↔ ¬isComment ∧ isDirective) ∧
      (state.classify line = .code ↔ ¬isComment ∧ ¬isDirective) := by
  intro moves before onLine state isComment isDirective
  obtain ⟨hstate, hwalk⟩ := ScanMove.walkComments_line source {} hline
  have hnext : LineState.after {} ((Text.lines source).take (index + 1)) = state.next line := by
    rw [List.take_add_one, hline, after, List.foldl_append]
    rfl
  refine ⟨?_, classify_iff ?_ ?_⟩
  · rw [hnext, LineState.next, hstate, hwalk, ScanMove.stateAfter_append]
  · rw [hstate, hwalk, Bool.or_eq_true]
  · have hindex : index < (Text.lines source).length :=
      (List.getElem?_eq_some_iff.mp hline).1
    rw [Bool.or_eq_true, Bool.or_eq_true, continued_iff _ hindex, continues_iff,
      startsDirective_iff]
    exact or_comm.trans (or_congr_right or_comm)

/-- A line that opens a comment by overlapping tokens, one that closes it and ends in a
backslash, and the line after that, which is part of a directive. -/
theorem classify_after_overlapping_tokens :
    let source := "x /*/ y\n**/ z \\\r\nfire();\n".toList
    (Text.lines source)[2]? = some "fire();".toList ∧
      (LineState.after {} ((Text.lines source).take 3)).inComment = false ∧
      (LineState.after {} ((Text.lines source).take 2)).classify "fire();".toList =
        .directive := by
  intro source
  have hline : (Text.lines source)[2]? = some "fire();".toList := by decide
  obtain ⟨hstate, -, hdirective, -⟩ := classify_agrees_with_scanner source 2 _ hline
  refine ⟨hline, hstate.trans (by decide), hdirective.mpr ⟨by decide, ?_⟩⟩
  right
  right
  exact ⟨1, "**/ z \\".toList, rfl, by decide, by decide⟩

end LineState
end EventAudit
