import GoldenFixtures.Replay.Document

/-!
# Findings on documents

`Finding.IsOfDocument` lists the findings that a document can have, each with the
words that it is told in.  The check of a document has no others
(`isOfDocument_of_mem_findings?`), so what holds of all findings on documents is
shown by one case for each kind.  None is about loading
(`Finding.IsOfDocument.severity_ne_load`).
-/

namespace GoldenFixtures.Replay

open Yaml (Value)

/-- A finding on a document that was loaded.  Where it names the type of a value, a
value of the type is there. -/
inductive Finding.IsOfDocument : Finding → Prop where
  | rootNotMapping (value : Value) : IsOfDocument (.rootNotMapping value.typeName)
  | unsupportedMode (mode : String) : IsOfDocument (.unsupportedMode mode)
  | unsupportedModeType (value : Value) : IsOfDocument (.unsupportedModeType value.typeName)
  | missingText {field : String} :
    field = "scenario" ∨ field = "source" → IsOfDocument (.missingText field)
  | noEvents : IsOfDocument .noEvents
  | eventNotMapping (index : Nat) (value : Value) :
    IsOfDocument (.eventNotMapping index value.typeName)
  | missingId (index : Nat) : IsOfDocument (.missingId index)
  | duplicateId (id : String) (index first : Nat) : IsOfDocument (.duplicateId id index first)
  | missingTime (label : String) : IsOfDocument (.missingTime label)
  | timeNotInteger (label : String) (value : Value) :
    IsOfDocument (.timeNotInteger label value.typeName)
  | malformedDependencies (label : String) (value : Value) :
    IsOfDocument (.malformedDependencies label value.typeName)
  | malformedDependency (label : String) (item : Value) :
    IsOfDocument (.malformedDependencies label (item.typeName ++ " item"))
  | unseenDependencies (label : String) (missing : List String) :
    IsOfDocument (.unseenDependencies label missing)
  | timeDecreases (label : String) (time previous : Int) :
    IsOfDocument (.timeDecreases label time previous)

/-- No finding on a document is about loading it. -/
theorem Finding.IsOfDocument.severity_ne_load {finding : Finding} (h : finding.IsOfDocument) :
    finding.severity ≠ .load := by
  cases h <;> exact Severity.noConfusion

section

variable {entries : Entries} {finding : Finding}

open Finding (IsOfDocument)

/-! ## The fields of a document -/

theorem isOfDocument_of_mode (h : (Mode.ofEntries entries).finding? = some finding) :
    finding.IsOfDocument := by
  unfold Mode.ofEntries Mode.finding? at h
  split at h
  · exact nomatch h
  · split at h
    · exact nomatch h
    · cases h
      exact .unsupportedMode _
  · rename_i found hmode
    split at hmode
    · exact nomatch hmode
    · exact nomatch hmode
    · exact nomatch hmode
    · cases hmode
      cases h
      exact .unsupportedModeType _

theorem isOfDocument_of_text {field : String} (hfield : field = "scenario" ∨ field = "source")
    (h : textFinding? entries field = some finding) : finding.IsOfDocument := by
  unfold textFinding? at h
  split at h
  · exact nomatch h
  · cases h
    exact .missingText hfield

theorem isOfDocument_of_mem_headFindings (h : finding ∈ headFindings entries) :
    finding.IsOfDocument := by
  unfold headFindings at h
  simp only [List.mem_append, Option.mem_toList] at h
  rcases h with (hmode | hscenario) | hsource
  · exact isOfDocument_of_mode hmode
  · exact isOfDocument_of_text (Or.inl rfl) hscenario
  · exact isOfDocument_of_text (Or.inr rfl) hsource

/-! ## Events -/

section

variable {event : Event} {index : Nat}

theorem isOfDocument_of_id {seen : Seen} (h : event.idFinding? index seen = some finding) :
    finding.IsOfDocument := by
  unfold Event.idFinding? at h
  split at h
  · cases h
    exact .missingId index
  · obtain ⟨first, -, hfinding⟩ := Option.map_eq_some_iff.mp h
    rw [← hfinding]
    exact .duplicateId _ index first

theorem isOfDocument_of_time {label : String}
    (h : (Time.ofEntries entries).finding? label = some finding) : finding.IsOfDocument := by
  unfold Time.ofEntries Time.finding? at h
  split at h
  · cases h
    exact .missingTime label
  · exact nomatch h
  · rename_i found htime
    cases h
    split at htime
    · exact nomatch htime
    · exact nomatch htime
    · cases htime
      exact .timeNotInteger label _

/-- Items that are not all strings are told by the type of the first other one. -/
theorem exists_of_strings_error {items : List Value} {found : String}
    (h : strings items = .error found) : ∃ item : Value, found = item.typeName ++ " item" := by
  induction items with
  | nil => exact nomatch h
  | cons item items ih =>
    rw [strings] at h
    split at h
    · cases h
      exact ⟨item, rfl⟩
    · cases hstrings : strings items with
      | ok texts =>
        rw [hstrings] at h
        exact nomatch h
      | error word =>
        rw [hstrings] at h
        cases h
        exact ih hstrings

theorem isOfDocument_of_dependencies_error {label found : String}
    (h : dependencies entries = .error found) :
    (Finding.malformedDependencies label found).IsOfDocument := by
  unfold dependencies at h
  split at h
  · exact nomatch h
  · exact nomatch h
  · obtain ⟨item, hfound⟩ := exists_of_strings_error h
    rw [hfound]
    exact .malformedDependency label item
  · cases h
    exact .malformedDependencies label _

theorem isOfDocument_of_dependency {seen : Seen}
    (h : (Event.ofEntries entries).dependencyFinding? index seen = some finding) :
    finding.IsOfDocument := by
  unfold Event.dependencyFinding? at h
  split at h
  · unfold Seen.finding? at h
    split at h
    · exact nomatch h
    · cases h
      exact .unseenDependencies _ _
  · rename_i found herror
    cases h
    exact isOfDocument_of_dependencies_error herror

theorem isOfDocument_of_clock {clock : Clock} (h : event.clockFinding? index clock = some finding) :
    finding.IsOfDocument := by
  obtain ⟨time, -, hclock⟩ := Option.bind_eq_some_iff.mp h
  unfold Clock.finding? at hclock
  split at hclock
  · exact nomatch hclock
  · split at hclock
    · cases hclock
      exact .timeDecreases _ _ _
    · exact nomatch hclock

theorem isOfDocument_of_mem_findings {progress : Progress}
    (h : finding ∈ (Event.ofEntries entries).findings index progress) : finding.IsOfDocument := by
  unfold Event.findings at h
  simp only [List.mem_append, Option.mem_toList] at h
  rcases h with ((hid | htime) | hdependency) | hclock
  · exact isOfDocument_of_id hid
  · exact isOfDocument_of_time htime
  · exact isOfDocument_of_dependency hdependency
  · exact isOfDocument_of_clock hclock

theorem isOfDocument_of_mem_eventFindings {progress : Progress} {values : List Value}
    (h : finding ∈ eventFindings progress index values) : finding.IsOfDocument := by
  induction values generalizing progress index with
  | nil => exact nomatch h
  | cons value values ih =>
    rw [eventFindings] at h
    split at h
    · rcases List.mem_cons.mp h with hfirst | hrest
      · rw [hfirst]
        exact .eventNotMapping index value
      · exact ih hrest
    · rcases List.mem_append.mp h with hfirst | hrest
      · exact isOfDocument_of_mem_findings hfirst
      · exact ih hrest

end

/-! ## Documents -/

theorem isOfDocument_of_mem_findings? {document : Value} {findings : List Finding}
    (h : findings? document = some findings) (hmem : finding ∈ findings) :
    finding.IsOfDocument := by
  unfold findings? at h
  split at h
  · cases h
    rw [List.mem_singleton.mp hmem]
    exact .rootNotMapping document
  · split at h
    · exact nomatch h
    · cases h
      rcases List.mem_append.mp hmem with hhead | hevents
      · exact isOfDocument_of_mem_headFindings hhead
      · split at hevents
        · exact isOfDocument_of_mem_eventFindings hevents
        · rw [List.mem_singleton.mp hevents]
          exact .noEvents

end

end GoldenFixtures.Replay
