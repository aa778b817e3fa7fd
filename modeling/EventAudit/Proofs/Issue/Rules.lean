import EventAudit.Issue.Audit
import EventAudit.Proofs.Event.Evidence

/-! # When the rules are silent

For each rule, the condition on a record under which it reports nothing, and where
the expected number of arguments of a fire call comes from. -/

namespace EventAudit

/-- Whether a call passes another number of arguments than its own suffix says. -/
def FireCall.BreaksSuffix (call : FireCall) : Prop :=
  ∃ suffix ∈ call.arity, call.args.length ≠ suffix

instance (call : FireCall) : Decidable call.BreaksSuffix :=
  inferInstanceAs (Decidable (∃ suffix ∈ call.arity, call.args.length ≠ suffix))

namespace Event

/-- What a call of an event is measured by, and what the number of its arguments should be: its
own suffix if it breaks that, else the declaration if that announces an arity, else the first
call. -/
inductive Measures (event : Event) (call : FireCall) : Nat → ArityReference → Prop
  | ownSuffix {suffix : Nat} (hsuffix : call.arity = some suffix)
      (hbroken : call.args.length ≠ suffix) : Measures event call suffix .ownSuffix
  | declaration {declared : Nat} (hkept : ¬call.BreaksSuffix)
      (hdeclared : event.declaredArity = some declared) :
      Measures event call declared (.declaration (event.declarationFile.getD ""))
  | firstCall {first : FireCall} (hkept : ¬call.BreaksSuffix)
      (hdeclared : event.declaredArity = none) (hfirst : event.fireCalls.head? = some first) :
      Measures event call first.args.length (.firstCall first.file first.line)

theorem expectedArity?_eq_some_iff {event : Event} {call : FireCall} {expected : Nat}
    {reference : ArityReference} :
    event.expectedArity? call = some (expected, reference) ↔
      event.Measures call expected reference := by
  constructor
  · intro hexpected
    rw [expectedArity?] at hexpected
    split at hexpected
    next suffix hsuffix =>
      cases hexpected
      obtain ⟨harity, hne⟩ := Option.filter_eq_some_iff.mp hsuffix
      exact .ownSuffix harity (Ne.symm (by simpa using hne))
    next hkept =>
      have hkept : ¬call.BreaksSuffix := by
        rintro ⟨suffix, hsuffix, hne⟩
        exact (Option.filter_eq_none_iff.mp hkept) suffix hsuffix (by simpa using hne.symm)
      split at hexpected
      next declared hdeclared =>
        cases hexpected
        exact .declaration hkept hdeclared
      next hdeclared =>
        obtain ⟨first, hfirst, heq⟩ := Option.map_eq_some_iff.mp hexpected
        cases heq
        exact .firstCall hkept hdeclared hfirst
  · intro hmeasures
    have hfilter : ¬call.BreaksSuffix → call.arity.filter (· ≠ call.args.length) = none := by
      intro hkept
      rw [Option.filter_eq_none_iff]
      intro suffix hsuffix hne
      exact hkept ⟨suffix, hsuffix, Ne.symm (by simpa using hne)⟩
    cases hmeasures with
    | ownSuffix hsuffix hbroken =>
        have hkeep : call.arity.filter (· ≠ call.args.length) = some expected :=
          Option.filter_eq_some_iff.mpr ⟨hsuffix, by simpa using hbroken.symm⟩
        rw [expectedArity?, hkeep]
    | declaration hkept hdeclared => rw [expectedArity?, hfilter hkept, hdeclared]
    | firstCall hkept hdeclared hfirst =>
        rw [expectedArity?, hfilter hkept, hdeclared, hfirst]
        rfl

variable (event : Event) (identifier : String)

theorem missingDeclaration_eq_nil_iff :
    event.missingDeclaration identifier = [] ↔
      (event.creationFile.isSome = true → event.declaration.isSome = true) := by
  rw [missingDeclaration]
  cases event.declaration <;> cases event.creationFile <;> simp

theorem missingDefinition_eq_nil_iff :
    event.missingDefinition identifier = [] ↔
      (event.declarationFile.isSome = true → event.definition.isSome = true) := by
  rw [missingDefinition]
  cases event.definition <;> cases event.declarationFile <;> simp

theorem uncreated_eq_nil_iff :
    event.uncreated identifier = [] ↔
      (event.fireCalls ≠ [] → event.creationFile.isSome = true) := by
  rw [uncreated]
  cases event.creationFile <;> simp

theorem conflictingProvenance_eq_nil_iff :
    event.conflictingProvenance identifier = [] ↔ event.conflicts = [] :=
  List.map_eq_nil_iff

/-- The number of arguments that all calls have in common: the announced one, or else that of the
first call. -/
def commonArity? : Option Nat :=
  event.declaredArity.or (event.fireCalls.head?.map (·.args.length))

/-- A suffix that disagrees with its own call is held against it; a call without one is
measured by what all calls have in common. -/
theorem map_fst_expectedArity? (call : FireCall) :
    (event.expectedArity? call).map (·.1) =
      (call.arity.filter (· ≠ call.args.length)).or event.commonArity? := by
  rw [expectedArity?, commonArity?]
  cases call.arity.filter (· ≠ call.args.length) with
  | some arity => rfl
  | none =>
      cases event.declaredArity with
      | some arity => rfl
      | none => cases event.fireCalls.head? <;> rfl

theorem arityMismatch?_eq_none_iff (call : FireCall) :
    event.arityMismatch? identifier call = none ↔
      ∀ expected ∈ (event.expectedArity? call).map (·.1), call.args.length = expected := by
  rw [arityMismatch?]
  cases event.expectedArity? call with
  | none => simp
  | some expected => simp

theorem arityMismatch?_eq_none_iff_agrees (call : FireCall) :
    event.arityMismatch? identifier call = none ↔
      (∀ suffix ∈ call.arity, suffix = call.args.length) ∧
        ∀ common ∈ event.commonArity?, call.args.length = common := by
  rw [arityMismatch?_eq_none_iff, map_fst_expectedArity?]
  cases harity : call.arity with
  | none => simp
  | some suffix =>
      by_cases heq : suffix = call.args.length
      · simp [Option.filter, heq]
      · simp [Option.filter, heq, Ne.symm heq]

theorem arityMismatches_eq_nil_iff :
    event.arityMismatches identifier = [] ↔
      ∃ count, (∀ call ∈ event.fireCalls,
          call.args.length = count ∧ ∀ suffix ∈ call.arity, suffix = count) ∧
        ∀ arity ∈ event.declaredArity, arity = count := by
  rw [arityMismatches, List.filterMap_eq_nil_iff]
  simp only [arityMismatch?_eq_none_iff_agrees]
  constructor
  · intro hsilent
    cases hcommon : event.commonArity? with
    | none =>
        -- Nothing is announced and nothing fired, so any count will do.
        rw [commonArity?, Option.or_eq_none_iff, Option.map_eq_none_iff,
          List.head?_eq_none_iff] at hcommon
        refine ⟨0, ?_, ?_⟩ <;> simp [hcommon]
    | some common =>
        refine ⟨common, ?_, ?_⟩
        · intro call hcall
          obtain ⟨hsuffix, hcount⟩ := hsilent call hcall
          have hlength := hcount common hcommon
          refine ⟨hlength, ?_⟩
          intro suffix hmem
          rw [hsuffix suffix hmem, hlength]
        · intro arity harity
          rw [commonArity?, harity, Option.some_or, Option.some.injEq] at hcommon
          exact hcommon
  · rintro ⟨count, hcalls, hdeclared⟩ call hcall
    obtain ⟨hlength, hsuffix⟩ := hcalls call hcall
    refine ⟨fun suffix hmem => (hsuffix suffix hmem).trans hlength.symm, ?_⟩
    intro common hcommon
    rw [hlength]
    rw [commonArity?, Option.mem_def, Option.or_eq_some_iff] at hcommon
    rcases hcommon with hdeclaration | ⟨-, hfirst⟩
    · exact (hdeclared common hdeclaration).symm
    · obtain ⟨first, hhead, rfl⟩ := Option.map_eq_some_iff.mp hfirst
      exact (hcalls first (List.mem_of_head? hhead)).1.symm

end Event

namespace Rule

/-- What a rule can report about an event, and what it has seen in the record to do so. -/
inductive Reports (identifier : String) (event : Event) : Rule → Issue → Prop
  | missingDeclaration {file : String} (hdeclaration : event.declaration = none)
      (hfile : event.creationFile = some file) :
      Reports identifier event .missingDeclaration (.missingDeclaration identifier file)
  | missingDefinition {file : String} (hdefinition : event.definition = none)
      (hfile : event.declarationFile = some file) :
      Reports identifier event .missingDefinition (.missingDefinition identifier file)
  | uncreatedEvent {call : FireCall} (hcreation : event.creationFile = none)
      (hcall : call ∈ event.fireCalls) :
      Reports identifier event .uncreatedEvent (.uncreatedEvent identifier call)
  | arityMismatch {call : FireCall} {expected : Nat} {reference : ArityReference}
      (hcall : call ∈ event.fireCalls)
      (hexpected : event.expectedArity? call = some (expected, reference))
      (hne : call.args.length ≠ expected) :
      Reports identifier event .arityMismatch (.arityMismatch identifier call expected reference)
  | conflictingProvenance {conflict : Conflict} (hconflict : conflict ∈ event.conflicts) :
      Reports identifier event .conflictingProvenance (.conflictingProvenance identifier conflict)

theorem mem_check_iff {rule : Rule} {identifier : String} {event : Event} {issue : Issue} :
    issue ∈ rule.check identifier event ↔ Reports identifier event rule issue := by
  constructor
  · intro hissue
    cases rule with
    | missingDeclaration =>
        rw [check, Event.missingDeclaration] at hissue
        split at hissue
        next file hdeclaration hfile =>
          obtain rfl := List.mem_singleton.mp hissue
          exact .missingDeclaration hdeclaration hfile
        next => simp at hissue
    | missingDefinition =>
        rw [check, Event.missingDefinition] at hissue
        split at hissue
        next file hdefinition hfile =>
          obtain rfl := List.mem_singleton.mp hissue
          exact .missingDefinition hdefinition hfile
        next => simp at hissue
    | uncreatedEvent =>
        rw [check, Event.uncreated] at hissue
        split at hissue
        next hcreation =>
          obtain ⟨call, hcall, rfl⟩ := List.mem_map.mp hissue
          exact .uncreatedEvent hcreation hcall
        next => simp at hissue
    | arityMismatch =>
        obtain ⟨call, hcall, hissue⟩ := List.mem_filterMap.mp hissue
        rw [Event.arityMismatch?] at hissue
        split at hissue
        next expected reference hexpected =>
          split at hissue
          next hne =>
            cases hissue
            exact .arityMismatch hcall hexpected hne
          next => simp at hissue
        next => simp at hissue
    | conflictingProvenance =>
        obtain ⟨conflict, hconflict, rfl⟩ := List.mem_map.mp hissue
        exact .conflictingProvenance hconflict
  · intro hreports
    cases hreports with
    | missingDeclaration hdeclaration hfile =>
        rw [check, Event.missingDeclaration, hdeclaration, hfile]
        exact List.mem_singleton_self _
    | missingDefinition hdefinition hfile =>
        rw [check, Event.missingDefinition, hdefinition, hfile]
        exact List.mem_singleton_self _
    | uncreatedEvent hcreation hcall =>
        rw [check, Event.uncreated, hcreation]
        exact List.mem_map_of_mem hcall
    | arityMismatch hcall hexpected hne =>
        refine List.mem_filterMap.mpr ⟨_, hcall, ?_⟩
        rw [Event.arityMismatch?, hexpected]
        exact if_pos hne
    | conflictingProvenance hconflict => exact List.mem_map_of_mem hconflict

/-- What a rule reports about a record names the rule and the event. -/
theorem Reports.rule_event {rule : Rule} {identifier : String} {event : Event} {issue : Issue}
    (hreports : Reports identifier event rule issue) :
    issue.rule = rule ∧ issue.event = identifier := by
  cases hreports <;> exact ⟨rfl, rfl⟩

end Rule

theorem Registry.mem_audit_iff {registry : Registry} {rules : List Rule} {issue : Issue} :
    issue ∈ registry.audit rules ↔ ∃ rule ∈ rules, ∃ identifier event,
      registry.get? identifier = some event ∧ issue ∈ rule.check identifier event := by
  simp only [Registry.audit, List.mem_flatMap, Prod.exists, Registry.mem_entries_iff]

/-- The rules are silent about a record that nothing has been observed of. -/
theorem Rule.check_default (rule : Rule) (identifier : String) : rule.check identifier {} = [] := by
  cases rule <;> rfl

theorem History.audit_registry_eq_nil_iff (history : History) (rules : List Rule) :
    history.registry.audit rules = [] ↔
      ∀ identifier, ∀ rule ∈ rules, rule.check identifier (history.record identifier) = [] := by
  rw [Registry.audit, List.flatMap_eq_nil_iff]
  simp only [List.flatMap_eq_nil_iff]
  constructor
  · intro hsilent identifier rule hrule
    -- An event that was never spoken of has an empty record.
    by_cases hmem : identifier ∈ history.identifiers
    · exact hsilent rule hrule _ (List.mem_map.mpr ⟨identifier, hmem, rfl⟩)
    · rw [History.record, History.about_eq_nil_iff.mpr hmem]
      exact rule.check_default identifier
  · intro hsilent rule hrule entry hentry
    obtain ⟨identifier, -, rfl⟩ := List.mem_map.mp hentry
    exact hsilent identifier rule hrule

end EventAudit
