import EventAudit.Proofs.Event.Takeover
import EventAudit.Proofs.Issue.Rules
import EventAudit.Proofs.Scan.Observed
import EventAudit.Proofs.Scan.Selection
import Mathlib.Data.Set.Card

/-! # The order in which a scan observes

A scan observes place after place: its files are in ascending order of their names, and
in each file at most one observation is made on a line. The records of its registry keep
this order. An attribution passes on from a smaller to a greater file only, so that every
file but one that has contributed a kind of site has left a conflict. The calls of an event
are listed in order as well, file after file. That no two of them have one place takes
files that have different names: of files that are displayed alike, the lines have to
ascend too. -/

namespace EventAudit

/-- A line of a file. -/
abbrev Place := String × Nat

/-- Whether a place comes before another one: files are taken in the order of the bytes of their
names, and in one file the lines from first to last. -/
def Place.Before (a b : Place) : Prop :=
  Text.Utf8.Precedes a.1 b.1 ∨ a.1 = b.1 ∧ a.2 < b.2

theorem Place.Before.ne {a b : Place} (hbefore : a.Before b) : a ≠ b := by
  rintro rfl
  rcases hbefore with hfile | ⟨-, hline⟩
  · exact lt_irrefl _ (Text.Utf8.precedes_iff_lt.mp hfile)
  · exact Nat.lt_irrefl _ hline

theorem Place.before_iff {a b : Place} (hle : a.1 ≤ b.1) :
    a.Before b ↔ (a.1 = b.1 → a.2 < b.2) := by
  rw [Before, Text.Utf8.precedes_iff_lt]
  constructor
  · rintro (hlt | ⟨-, hline⟩) hfile
    · exact absurd hfile hlt.ne
    · exact hline
  · intro hline
    rcases lt_or_eq_of_le hle with hlt | hfile
    · exact .inl hlt
    · exact .inr ⟨hfile, hline hfile⟩

def Sighting.place (sighting : Sighting) : Place :=
  (sighting.file, sighting.line)

def FireCall.place (call : FireCall) : Place :=
  (call.file, call.line)

theorem Sighting.place_of_fireCall? {sighting : Sighting} {call : FireCall}
    (hcall : sighting.fireCall? = some call) : call.place = sighting.place := by
  obtain ⟨file, plugin, line, extraction⟩ := sighting
  cases extraction <;> cases hcall
  rfl

namespace Observation

theorem line_of_mem_ofLine? {markers : Markers} {state : LineState} {number : Nat}
    {line : List Char} {observation : Observation}
    (hmem : observation ∈ ofLine? markers state number line) : observation.line = number := by
  rw [ofLine?, Option.mem_def] at hmem
  split at hmem
  next =>
    obtain ⟨extraction, -, rfl⟩ := Option.map_eq_some_iff.mp hmem
    rfl
  next => cases hmem

theorem le_line_of_mem_ofLines {markers : Markers} {state : LineState} {number : Nat}
    {lines : List (List Char)} {observation : Observation}
    (hmem : observation ∈ ofLines markers state number lines) : number ≤ observation.line := by
  induction lines generalizing state number with
  | nil => simp [ofLines] at hmem
  | cons line rest ih =>
      rw [ofLines, List.mem_append, Option.mem_toList] at hmem
      rcases hmem with hmem | hmem
      · exact (line_of_mem_ofLine? hmem).ge
      · exact Nat.le_of_succ_le (ih hmem)

/-- Every line gives at most one observation, and later lines have greater numbers. -/
theorem pairwise_ofLines (markers : Markers) (state : LineState) (number : Nat)
    (lines : List (List Char)) :
    (ofLines markers state number lines).Pairwise fun a b => a.line < b.line := by
  induction lines generalizing state number with
  | nil => exact List.Pairwise.nil
  | cons line rest ih =>
      rw [ofLines, List.pairwise_append]
      refine ⟨?_, ih _ _, ?_⟩
      · cases ofLine? markers state number line with
        | none => exact List.Pairwise.nil
        | some observation => exact List.pairwise_singleton _ _
      · intro first hfirst later hlater
        rw [line_of_mem_ofLine? (Option.mem_toList.mp hfirst)]
        exact le_line_of_mem_ofLines hlater

end Observation

namespace SourceFile

variable {tree : FileTree} {markers : Markers} {plugin : String} {file : SourceFile}

theorem file_of_mem_sightings {sighting : Sighting}
    (hmem : sighting ∈ file.sightings tree markers plugin) :
    sighting.file = file.displayPath := by
  rw [sightings] at hmem
  split at hmem
  next => cases hmem
  next =>
    obtain ⟨observation, -, rfl⟩ := List.mem_map.mp hmem
    rfl

theorem pairwise_sightings :
    (file.sightings tree markers plugin).Pairwise fun a b => a.place.Before b.place := by
  rw [sightings]
  split
  next => exact List.Pairwise.nil
  next content _ =>
    rw [List.pairwise_map, ← Observation.ofSource_eq_ofEligible]
    refine (Observation.pairwise_ofLines markers _ _ _).imp ?_
    intro a b hline
    exact .inr ⟨rfl, hline⟩

end SourceFile

/-- What the eligible lines of one of its files say. -/
def Scan.sightingsIn (tree : FileTree) (scan : Scan) (file : SourceFile) : History :=
  file.sightings tree scan.config.markers
    (scan.plugins.owner tree.isFile (.ofString file.displayPath))

/-- The calls of an event in one of its files. -/
def Scan.callsIn (tree : FileTree) (scan : Scan) (identifier : String) (file : SourceFile) :
    List FireCall :=
  ((scan.sightingsIn tree file).about identifier).filterMap Sighting.fireCall?

namespace Scan

variable {tree : FileTree} {options : ScanOptions} {scan : Scan} {file : SourceFile}
  {identifier : String}

theorem file_of_mem_callsIn {call : FireCall} (hcall : call ∈ scan.callsIn tree identifier file) :
    call.file = file.displayPath := by
  obtain ⟨sighting, hsighting, hsome⟩ := List.mem_filterMap.mp hcall
  rw [← SourceFile.file_of_mem_sightings (List.mem_of_mem_filter hsighting)]
  exact congrArg Prod.fst (Sighting.place_of_fireCall? hsome)

theorem pairwise_callsIn :
    (scan.callsIn tree identifier file).Pairwise fun a b => a.place.Before b.place := by
  refine (SourceFile.pairwise_sightings.filter _).filterMap _ ?_
  intro sighting sighting' hbefore call hcall call' hcall'
  rw [Sighting.place_of_fireCall? hcall, Sighting.place_of_fireCall? hcall']
  exact hbefore

theorem fireCalls_record_history (identifier : String) :
    ((scan.history tree).record identifier).fireCalls =
      scan.files.flatMap (scan.callsIn tree identifier) := by
  have hrecord : ((scan.history tree).record identifier).fireCalls =
      ((scan.history tree).about identifier).filterMap Sighting.fireCall? := rfl
  rw [hrecord, history, History.about, List.filter_flatMap, List.filterMap_flatMap]
  rfl

/-- Everything that a scan observes, it observes in the order of files. -/
theorem pairwise_history (hscan : (Scan.prepare tree options).2 = .ok scan) :
    (scan.history tree).Pairwise fun a b => a.file ≤ b.file := by
  rw [history, List.pairwise_flatMap]
  constructor
  · intro file _
    refine List.pairwise_of_forall_mem_list fun a ha b hb => ?_
    rw [SourceFile.file_of_mem_sightings ha, SourceFile.file_of_mem_sightings hb]
  · refine (Scan.pairwise_files hscan).imp ?_
    intro file file' hlt sighting hsighting sighting' hsighting'
    rw [SourceFile.file_of_mem_sightings hsighting, SourceFile.file_of_mem_sightings hsighting']
    exact SourceFile.displayPath_le_of_order_eq_lt hlt

/-- Of two calls, the one in the earlier file comes first, unless both files are displayed alike. -/
theorem place_before_iff {file' : SourceFile} (hlt : SourceFile.order file file' = .lt)
    {call call' : FireCall} (hcall : call ∈ scan.callsIn tree identifier file)
    (hcall' : call' ∈ scan.callsIn tree identifier file') :
    call.place.Before call'.place ↔
      (file.displayPath = file'.displayPath → call.line < call'.line) := by
  have hle := SourceFile.displayPath_le_of_order_eq_lt hlt
  rw [← file_of_mem_callsIn hcall, ← file_of_mem_callsIn hcall'] at hle ⊢
  exact Place.before_iff hle

/-- The calls of an event ascend exactly if those in files that are displayed alike do. -/
theorem pairwise_fireCalls_iff (hscan : (Scan.prepare tree options).2 = .ok scan)
    (identifier : String) :
    (((scan.history tree).record identifier).fireCalls.Pairwise
        fun a b => a.place.Before b.place) ↔
      scan.files.Pairwise fun file file' => file.displayPath = file'.displayPath →
        ∀ call ∈ scan.callsIn tree identifier file,
          ∀ call' ∈ scan.callsIn tree identifier file', call.line < call'.line := by
  have hfiles := Scan.pairwise_files hscan
  rw [fireCalls_record_history, List.pairwise_flatMap]
  constructor
  · rintro ⟨-, hcalls⟩
    refine (hfiles.and hcalls).imp fun ⟨hlt, hbefore⟩ hdisplay call hcall call' hcall' => ?_
    exact (place_before_iff hlt hcall hcall').mp (hbefore call hcall call' hcall') hdisplay
  · intro hlines
    refine ⟨fun _ _ => pairwise_callsIn, ?_⟩
    refine (hfiles.and hlines).imp fun ⟨hlt, hline⟩ call hcall call' hcall' => ?_
    exact (place_before_iff hlt hcall hcall').mpr fun hdisplay =>
      hline hdisplay call hcall call' hcall'

/-- Files that are displayed in UTF-8 are displayed differently. -/
theorem displayPath_lt_of_isUtf8 (hscan : (Scan.prepare tree options).2 = .ok scan)
    (hutf8 : ∀ file ∈ scan.files, (file.path.asSeenFrom scan.base).text.IsUtf8) :
    scan.files.Pairwise fun a b => a.displayPath < b.displayPath := by
  rw [SourceFile.pairwise_displayPath_iff (Scan.pairwise_files hscan)]
  intro a ha b hb hdisplay
  obtain ⟨hpath, hfile⟩ := Scan.grows_of_mem_files hscan ha
  obtain ⟨hpath', hfile'⟩ := Scan.grows_of_mem_files hscan hb
  rw [hfile, hfile'] at hdisplay
  exact SourceFile.components_eq_of_displayPath_eq hpath.seenFrom hpath'.seenFrom (hutf8 a ha)
    (hutf8 b hb) hdisplay

end Scan

namespace History

variable {history : History} (hhistory : history.Pairwise fun a b => a.file ≤ b.file)
  (identifier : String)

include hhistory

theorem pairwise_file_fireCalls :
    (history.record identifier).fireCalls.Pairwise fun a b => a.file ≤ b.file := by
  have hfile : ∀ {sighting : Sighting} {call : FireCall},
      sighting.fireCall? = some call → call.file = sighting.file :=
    fun hcall => congrArg Prod.fst (Sighting.place_of_fireCall? hcall)
  refine (hhistory.filter _).filterMap _ ?_
  intro sighting sighting' hle call hcall call' hcall'
  rwa [hfile hcall, hfile hcall']

theorem pairwise_filesOf_about (kind : SiteKind) :
    (filesOf kind (history.about identifier).sites).Pairwise (· ≤ ·) := by
  have hfile : ∀ {sighting : Sighting} {site : SiteKind × String},
      sighting.site? = some site → site.2 = sighting.file := by
    intro sighting site hsite
    obtain ⟨file, plugin, line, extraction⟩ := sighting
    cases extraction <;> cases hsite <;> rfl
  have hsites : (history.about identifier).sites.Pairwise fun a b => a.2 ≤ b.2 := by
    refine (hhistory.filter _).filterMap _ ?_
    intro sighting sighting' hle site hsite site' hsite'
    rwa [hfile hsite, hfile hsite']
  exact (hsites.filter _).map _ fun _ _ hle => hle

/-- When files are observed in ascending order, none of them comes back. -/
theorem holders_about_eq_dedup (kind : SiteKind) :
    holders kind (history.about identifier).sites =
      (filesOf kind (history.about identifier).sites).dedup :=
  (pairwise_filesOf_about hhistory identifier kind).destutter_eq_dedup

theorem pairwise_holders_about (kind : SiteKind) :
    (holders kind (history.about identifier).sites).Pairwise (· < ·) := by
  rw [holders_about_eq_dedup hhistory]
  have hle := (pairwise_filesOf_about hhistory identifier kind).sublist (List.dedup_sublist _)
  exact (hle.and (List.nodup_dedup _)).imp fun ⟨hle, hne⟩ => lt_of_le_of_ne hle hne

/-- Every file but one that has contributed a kind of site has left a conflict. -/
theorem length_filter_kind_conflicts_record (kind : SiteKind) :
    ((history.record identifier).conflicts.filter (·.kind = kind)).length =
      {file | ∃ sighting ∈ history, sighting.Contributes identifier kind ∧
        sighting.file = file}.ncard - 1 := by
  have hfiles : {file | ∃ sighting ∈ history, sighting.Contributes identifier kind ∧
      sighting.file = file} = (holders kind (history.about identifier).sites).toFinset := by
    ext file
    rw [Set.mem_ofPred_eq, Finset.mem_coe, List.mem_toFinset, mem_holders_about]
  have hnodup : (holders kind (history.about identifier).sites).Nodup :=
    (pairwise_holders_about hhistory identifier kind).imp fun hlt => hlt.ne
  rw [filter_kind_conflicts_record, Conflict.length_along, hfiles, Set.ncard_coe_finset,
    List.toFinset_card_of_nodup hnodup]

theorem precedes_of_mem_conflicts_record {conflict : Conflict}
    (hconflict : conflict ∈ (history.record identifier).conflicts) :
    Text.Utf8.Precedes conflict.previous conflict.current := by
  have hmem : conflict ∈ (history.record identifier).conflicts.filter (·.kind = conflict.kind) :=
    List.mem_filter.mpr ⟨hconflict, decide_eq_true rfl⟩
  rw [filter_kind_conflicts_record] at hmem
  apply Text.Utf8.precedes_iff_lt.mpr
  exact Conflict.rel_of_mem_along _ _
    (pairwise_holders_about hhistory identifier conflict.kind).isChain hmem

end History

namespace Event

/-- A reference to the first call is to a call of the event. -/
theorem head?_of_expectedArity?_eq_firstCall {event : Event} {call : FireCall} {expected : Nat}
    {file : String} {line : Nat}
    (hexpected : event.expectedArity? call = some (expected, .firstCall file line)) :
    ∃ first, event.fireCalls.head? = some first ∧ first.place = (file, line) := by
  cases expectedArity?_eq_some_iff.mp hexpected with
  | firstCall _ _ hfirst => exact ⟨_, hfirst, rfl⟩

variable {event : Event} (hcalls : event.fireCalls.Pairwise fun a b => a.place.Before b.place)

include hcalls

theorem nodup_places : (event.fireCalls.map FireCall.place).Nodup := by
  rw [List.Nodup, List.pairwise_map]
  exact hcalls.imp fun hbefore => hbefore.ne

/-- A reference to the first call is to the least one. -/
theorem place_eq_or_before {call : FireCall} {expected : Nat} {file : String} {line : Nat}
    (hexpected : event.expectedArity? call = some (expected, .firstCall file line))
    {other : FireCall} (hother : other ∈ event.fireCalls) :
    other.place = (file, line) ∨ Place.Before (file, line) other.place := by
  obtain ⟨first, hfirst, hplace⟩ := head?_of_expectedArity?_eq_firstCall hexpected
  obtain ⟨later, hlist⟩ := List.head?_eq_some_iff.mp hfirst
  rw [hlist] at hcalls hother
  rw [← hplace]
  rcases List.mem_cons.mp hother with rfl | hother
  · exact .inl rfl
  · exact .inr ((List.pairwise_cons.mp hcalls).1 other hother)

end Event

namespace Scan

/-- In the registry of a scan the calls of an event are listed file after file. They are in strictly
ascending order of their places exactly if those in files that are displayed alike are, as is so
wherever all files are displayed in UTF-8; no place is listed twice then, and a reference to the
first call is to the least one. Every conflict leads from a smaller to a greater file, and there is
one less of each kind than files that have contributed such a site. -/
theorem registry_keeps_order (tree : FileTree) (options : ScanOptions) (scan : Scan)
    (registry : Registry) (hscan : (Scan.prepare tree options).2 = .ok scan)
    (hregistry : scan.registry tree = .ok registry) (identifier : String) (event : Event)
    (hevent : registry.get? identifier = some event) :
    (event.fireCalls.Pairwise fun a b => Text.Utf8.Precedes a.file b.file ∨ a.file = b.file) ∧
      ((event.fireCalls.Pairwise fun a b => a.place.Before b.place) ↔
        scan.files.Pairwise fun file file' => file.displayPath = file'.displayPath →
          ∀ call ∈ scan.callsIn tree identifier file,
            ∀ call' ∈ scan.callsIn tree identifier file', call.line < call'.line) ∧
      ((∀ file ∈ scan.files, (file.path.asSeenFrom scan.base).text.IsUtf8) →
        event.fireCalls.Pairwise fun a b => a.place.Before b.place) ∧
      ((event.fireCalls.Pairwise fun a b => a.place.Before b.place) →
        (event.fireCalls.map FireCall.place).Nodup ∧
          ∀ call expected file line,
            event.expectedArity? call = some (expected, .firstCall file line) →
              ∀ other ∈ event.fireCalls,
                other.place = (file, line) ∨ Place.Before (file, line) other.place) ∧
      (∀ conflict ∈ event.conflicts,
        Text.Utf8.Precedes conflict.previous conflict.current) ∧
      ∀ kind, (event.conflicts.filter (·.kind = kind)).length =
        {file | ∃ sighting ∈ scan.history tree, sighting.Contributes identifier kind ∧
          sighting.file = file}.ncard - 1 := by
  have hhistory : (scan.history tree).Pairwise fun a b => a.file ≤ b.file :=
    Scan.pairwise_history hscan
  obtain rfl : (scan.history tree).record identifier = event := by
    rw [← History.getD_get?_registry, ← Scan.registry_eq_of_eq_ok hregistry, hevent]
    rfl
  refine ⟨?_, Scan.pairwise_fireCalls_iff hscan identifier, ?_, ?_, ?_, ?_⟩
  · exact (History.pairwise_file_fireCalls hhistory identifier).imp fun hle => by
      rw [Text.Utf8.precedes_iff_lt]
      exact lt_or_eq_of_le hle
  · intro hutf8
    rw [Scan.pairwise_fireCalls_iff hscan identifier]
    refine (Scan.displayPath_lt_of_isUtf8 hscan hutf8).imp fun hlt hdisplay => ?_
    exact absurd hdisplay hlt.ne
  · intro hcalls
    exact ⟨Event.nodup_places hcalls, fun _ _ _ _ hexpected _ hother =>
      Event.place_eq_or_before hcalls hexpected hother⟩
  · intro conflict hconflict
    exact History.precedes_of_mem_conflicts_record hhistory identifier hconflict
  · intro kind
    exact History.length_filter_kind_conflicts_record hhistory identifier kind

/-- Two roots that overlap and name one file by different paths: every call is listed once, in
order, and two declaring files leave one conflict. -/
theorem registry_keeps_order_of_overlapping_roots :
    let tree : FileTree :=
      { top := .directory [(.ofString "util", .directory
          [(.ofString "a.h", .file "EVENT_H(evt)\nEVENT_FIRE(evt)\n".toUTF8.toList),
            (.ofString "b.h",
              .file "EVENT_FIRE(evt)\nEVENT_H(evt)\nEVENT_FIRE(evt)\n".toUTF8.toList)])] }
    let options : ScanOptions := { roots := ["util", "./util/b.h"] }
    ∃ scan registry event,
      (Scan.prepare tree options).2 = .ok scan ∧ scan.registry tree = .ok registry ∧
        registry.get? "evt" = some event ∧
        event.fireCalls.map FireCall.place = [("util/a.h", 2), ("util/b.h", 1), ("util/b.h", 3)] ∧
        (event.fireCalls.Pairwise fun a b => a.place.Before b.place) ∧
        event.conflicts =
          [{ kind := .declaration, previous := "util/a.h", current := "util/b.h" }] ∧
        {file | ∃ sighting ∈ scan.history tree, sighting.Contributes "evt" .declaration ∧
          sighting.file = file}.ncard = 2 := by
  intro tree options
  let found : List SourceFile :=
    [{ displayPath := "util/a.h", path := .ofString "./util/a.h" },
      { displayPath := "util/b.h", path := .ofString "./util/b.h" },
      { displayPath := "util/b.h", path := .ofString "././util/b.h" }]
  let scan : Scan :=
    { config := { roots := ["util", "./util/b.h"] }
      base := .ofString "."
      files := found.take 2
      skipped := 0 }
  have hload : Config.load tree (.ofString ".") = .ok { config := {}, fromFile := false } := by
    decide +kernel
  have hfound : (scan.config.roots.map (Collection.ofRoot tree scan.base
      scan.config.extensions)).flatMap Collection.files = found := by
    decide +kernel
  have hscan : (Scan.prepare tree options).2 = .ok scan := by
    have hadjust : Config.adjust {} options = scan.config := by decide +kernel
    rw [prepare_eq_ok_of_pairwise hload (by decide +kernel) (hadjust ▸ hfound) (by decide +kernel)]
    decide +kernel
  have hregistry : scan.registry tree = .ok (scan.history tree).registry :=
    registry_eq_ok_of_isOk (by decide +kernel)
  have hevent : (scan.history tree).registry.get? "evt" =
      some ((scan.history tree).record "evt") := by
    rw [History.get?_registry, if_neg]
    decide +kernel
  have hconflicts : ((scan.history tree).record "evt").conflicts =
      [{ kind := .declaration, previous := "util/a.h", current := "util/b.h" }] := by
    decide +kernel
  obtain ⟨-, -, hcalls, -, -, hcount⟩ :=
    registry_keeps_order tree options scan _ hscan hregistry "evt" _ hevent
  have hdeclarations := hcount .declaration
  rw [hconflicts] at hdeclarations
  refine ⟨scan, _, _, hscan, hregistry, hevent, by decide +kernel, hcalls (by decide +kernel),
    hconflicts, ?_⟩
  change 1 = _ at hdeclarations
  omega

/-- The same call on the first line of two files whose names differ in a byte that is no character:
its place is listed twice. -/
theorem place_twice_below_names_without_text :
    let name (byte : UInt8) : RawText := RawText.ofString "a" ++ byte :: RawText.ofString ".c"
    let tree : FileTree :=
      { top := .directory [(.ofString "util", .directory
          [(name 0xFE, .file "EVENT_FIRE(evt);\n".toUTF8.toList),
            (name 0xFF, .file "EVENT_FIRE(evt);\n".toUTF8.toList)])] }
    ∃ scan registry event,
      (Scan.prepare tree { roots := ["util"] }).2 = .ok scan ∧
        scan.registry tree = .ok registry ∧ registry.get? "evt" = some event ∧
        event.fireCalls.map FireCall.place = [("util/a\uFFFD.c", 1), ("util/a\uFFFD.c", 1)] ∧
        ¬event.fireCalls.Pairwise fun a b => a.place.Before b.place := by
  intro name tree
  let found : List SourceFile :=
    [0xFE, 0xFF].map fun byte =>
      { displayPath := "util/a\uFFFD.c", path := ⟨RawText.ofString "./util/" ++ name byte⟩ }
  let scan : Scan :=
    { config := { roots := ["util"] }, base := .ofString ".", files := found, skipped := 0 }
  have hload : Config.load tree (.ofString ".") = .ok { config := {}, fromFile := false } := by
    decide +kernel
  have hfound : (scan.config.roots.map (Collection.ofRoot tree scan.base
      scan.config.extensions)).flatMap Collection.files = found := by
    decide +kernel
  have hscan : (Scan.prepare tree { roots := ["util"] }).2 = .ok scan := by
    have hadjust : Config.adjust {} { roots := ["util"] } = scan.config := by decide +kernel
    rw [prepare_eq_ok_of_pairwise hload (by decide +kernel) (hadjust ▸ hfound) (by decide +kernel)]
    decide +kernel
  have hregistry : scan.registry tree = .ok (scan.history tree).registry :=
    registry_eq_ok_of_isOk (by decide +kernel)
  have hevent : (scan.history tree).registry.get? "evt" =
      some ((scan.history tree).record "evt") := by
    rw [History.get?_registry, if_neg]
    decide +kernel
  have hplaces : ((scan.history tree).record "evt").fireCalls.map FireCall.place =
      [("util/a\uFFFD.c", 1), ("util/a\uFFFD.c", 1)] := by
    decide +kernel
  refine ⟨scan, _, _, hscan, hregistry, hevent, hplaces, fun hcalls => ?_⟩
  have hnodup := Event.nodup_places hcalls
  rw [hplaces] at hnodup
  simp at hnodup

end Scan
end EventAudit
