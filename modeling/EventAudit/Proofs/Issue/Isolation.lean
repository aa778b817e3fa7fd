import EventAudit.Proofs.Issue.Rules

/-! # What is said about one event

A record is built from the observations of its own event, and a rule that looks at a
record speaks of its event only. So the issues about one event are those that are found
when nothing else has been observed. -/

namespace EventAudit

namespace Rule

/-- The issues of a rule about one event come from the entries of that event. -/
theorem filter_event_flatMap_check (rule : Rule) (entries : List (String × Event))
    (identifier : String) :
    (entries.flatMap fun entry => rule.check entry.1 entry.2).filter (·.event = identifier) =
      (entries.filter (·.1 = identifier)).flatMap fun entry => rule.check entry.1 entry.2 := by
  induction entries with
  | nil => rfl
  | cons entry rest ih =>
      have hevent : ∀ issue ∈ rule.check entry.1 entry.2, issue.event = entry.1 :=
        fun issue hissue => (mem_check_iff.mp hissue).rule_event.2
      rw [List.flatMap_cons, List.filter_append, ih]
      by_cases heq : entry.1 = identifier
      · have hall : (rule.check entry.1 entry.2).filter (·.event = identifier) =
            rule.check entry.1 entry.2 := by
          rw [List.filter_eq_self]
          intro issue hissue
          exact decide_eq_true ((hevent issue hissue).trans heq)
        rw [hall, List.filter_cons_of_pos (by simpa using heq), List.flatMap_cons]
      · have hnone : (rule.check entry.1 entry.2).filter (·.event = identifier) = [] := by
          rw [List.filter_eq_nil_iff]
          intro issue hissue
          rw [hevent issue hissue]
          simpa using heq
        rw [hnone, List.filter_cons_of_neg (by simpa using heq), List.nil_append]

end Rule

/-- The issues about one event are what the rules say about its record. -/
theorem Registry.filter_event_audit (registry : Registry) (rules : List Rule)
    (identifier : String) :
    (registry.audit rules).filter (·.event = identifier) =
      rules.flatMap fun rule => rule.check identifier ((registry.get? identifier).getD {}) := by
  rw [audit, List.filter_flatMap]
  apply List.flatMap_congr
  intro rule _
  rw [rule.filter_event_flatMap_check, Keyed.filter_key_eq registry.ordered, ← get?]
  cases registry.get? identifier with
  | none => exact (rule.check_default identifier).symm
  | some event => exact List.append_nil _

namespace History

theorem about_about (history : History) (identifier : String) :
    (history.about identifier).about identifier = history.about identifier := by
  rw [about, about, List.filter_filter]
  simp only [Bool.and_self]

/-- When one event alone has been observed, nothing is said about others. -/
theorem event_of_mem_audit_about {history : History} {identifier : String} {rules : List Rule}
    {issue : Issue} (hissue : issue ∈ (history.about identifier).registry.audit rules) :
    issue.event = identifier := by
  obtain ⟨rule, -, name, event, hevent, hissue⟩ := Registry.mem_audit_iff.mp hissue
  rw [(Rule.mem_check_iff.mp hissue).rule_event.2]
  have hname : (history.about identifier).about name ≠ [] := by
    intro hnone
    rw [get?_registry, if_pos hnone] at hevent
    cases hevent
  obtain ⟨sighting, hsighting⟩ := List.exists_mem_of_ne_nil _ hname
  obtain ⟨hmem, hidentifier⟩ := (mem_about _ _).mp hsighting
  have hown : sighting.identifier? = some identifier := ((mem_about _ _).mp hmem).2
  exact Option.some.inj (hidentifier.symm.trans hown)

/-- The issues about one event are the issues of what was observed of it. -/
theorem filter_event_audit_registry (history : History) (rules : List Rule)
    (identifier : String) :
    (history.registry.audit rules).filter (·.event = identifier) =
      (history.about identifier).registry.audit rules := by
  have hown : ((history.about identifier).registry.audit rules).filter (·.event = identifier) =
      (history.about identifier).registry.audit rules := by
    rw [List.filter_eq_self]
    intro issue hissue
    exact decide_eq_true (event_of_mem_audit_about hissue)
  rw [← hown, Registry.filter_event_audit, Registry.filter_event_audit, getD_get?_registry,
    getD_get?_registry, record, record, about_about]

end History

/-- What a file says about one event. -/
def FileObservations.about (seen : FileObservations) (identifier : String) : FileObservations :=
  { seen with
    observations := seen.observations.filter (·.extraction.identifier? = some identifier) }

namespace Registry

/-- What an operation tells about one event; single observations of others are left out. -/
def Operation.about (identifier : String) : Operation → List Operation
  | .apply file plugin observation =>
      if observation.extraction.identifier? = some identifier then
        [.apply file plugin observation]
      else []
  | .merge seen => [.merge (seen.about identifier)]

theorem Operation.flatMap_sightings_about (operation : Operation) (identifier : String) :
    (operation.about identifier).flatMap sightings =
      History.about operation.sightings identifier := by
  cases operation with
  | apply file plugin observation =>
      rw [about, sightings, History.about, List.filter_singleton]
      by_cases hown : observation.extraction.identifier? = some identifier
      · simp [hown, sightings, Sighting.identifier?, Sighting.ofObservation]
      · simp [hown, Sighting.identifier?, Sighting.ofObservation]
  | merge seen =>
      rw [about, List.flatMap_singleton, sightings, sightings, FileObservations.sightings,
        FileObservations.sightings, History.about, List.filter_map]
      rfl

/-- The issues about one event, in their order, are the issues that are found when only the
observations of this event are folded into the registry. -/
theorem audit_is_isolated (operations : List Operation) (identifier : String)
    (rules : List Rule) :
    ((run operations).audit rules).filter (·.event = identifier) =
      (run (operations.flatMap (·.about identifier))).audit rules := by
  have hhistory : (operations.flatMap (·.about identifier)).flatMap Operation.sightings =
      History.about (operations.flatMap Operation.sightings) identifier := by
    rw [History.about, List.filter_flatMap, List.flatMap_assoc]
    apply List.flatMap_congr
    intro operation _
    exact operation.flatMap_sightings_about identifier
  rw [run_eq_registry, run_eq_registry, hhistory, History.filter_event_audit_registry]

end Registry
end EventAudit
