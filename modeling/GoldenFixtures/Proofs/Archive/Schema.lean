import GoldenFixtures.Proofs.Archive.Ratio
import GoldenFixtures.Proofs.Archive.Roster
import GoldenFixtures.Proofs.Checks
import GoldenFixtures.Proofs.Json.Number
import GoldenFixtures.Proofs.Json.ReadShape

/-!
# The schema of archive records

A record is sanitized if nothing is wrong with it, and else the error is that of
the first check that fails, whatever comes after it.

There are five groups.

* The fields.  `integerAt?` and `doubleAt?` say which number stands at a key,
  `FieldType.Holds` and `Bound.Holds` what a type and a range ask for.
* The checks.  `checksOf` lists all checks on a record in their order, each by
  what it asks of the record alone.
* Acceptable records.  `IsAcceptable` says what a record has to be, and
  `IsWritten` what is written for one, a ratio as `IsRoundedTo` says.
* The readers.  Each reader follows its checks, from a field (`follows_field`)
  to a record (`follows_sanitize`).
* The record.  All checks pass for the acceptable records and no others
  (`checksOf_pass_iff`); `sanitize_by_schema` puts this together.
-/

namespace GoldenFixtures.Archive

open Binary64 (Magnitude)
open Json (Value Members)

/-! ## Fields -/

/-- The fields of a scenario. -/
def Scenario.fields : Scenario → List Field
  | fuzz => [.operation, .requestCount, .budgetBytes, .overflowExpected]
  | throughput => [.windowSeconds, .requests, .averageLatency, .saturationRatio]

/-- The type of a field. -/
def Field.type : Field → FieldType
  | operation => .string
  | overflowExpected => .boolean
  | saturationRatio => .number
  | requestCount | budgetBytes | windowSeconds | requests | averageLatency => .integer

/-- The value has a type. -/
def FieldType.Holds : FieldType → Value → Prop
  | string, value => ∃ text, value = .string text
  | integer, value => ∃ integer, value.integer? = some integer
  | boolean, value => ∃ flag, value = .bool flag
  | number, value => ∃ double, value.double? = some double

/-- The 64-bit integer at a key. -/
def integerAt? (value : Value) (key : String) : Option Int := (value.get? key).bind Value.integer?

/-- The binary number nearest to the one at a key. -/
def doubleAt? (value : Value) (key : String) : Option ℚ := (value.get? key).bind Value.double?

/-- The number that a field holds. -/
def Field.number? (name : Field) (value : Value) : Option ℚ :=
  match name.type with
  | .integer => (integerAt? value name.key).map fun integer : Int => (integer : ℚ)
  | _ => doubleAt? value name.key

/-- The number lies in a range. -/
def Bound.Holds : Bound → ℚ → Prop
  | nonNegative, number => 0 ≤ number
  | positive, number => 0 < number
  | ratio, number => 0 ≤ number ∧ number ≤ 3 / 2

/-! ## Checks -/

/-- What an unsupported scenario is called: a string as it is, another value by
its text, and `null` if there is none. -/
def scenarioText (value : Value) : String :=
  match value.get? "scenario" with
  | some (.string word) => word
  | some other => other.toCompact
  | none => "null"

/-- The word for an operation. -/
def operationText (value : Value) : String :=
  match value.get? Field.operation.key with
  | some (.string word) => word
  | _ => ""

/-- The record is an object. -/
def objectCheck (value : Value) : Check Problem :=
  ⟨∃ members, value = .object members, .notAnObject⟩

/-- The scenario is a supported one. -/
def scenarioCheck (value : Value) : Check Problem :=
  ⟨∃ scenario : Scenario, value.get? "scenario" = some (.string scenario.name),
    .unsupportedScenario (scenarioText value)⟩

/-- The tenant is a string and not empty. -/
def tenantCheck (value : Value) : Check Problem :=
  ⟨∃ tenant, value.get? "tenant" = some (.string tenant) ∧ tenant ≠ "", .invalidTenant⟩

/-- A field is there. -/
def presenceCheck (value : Value) (name : Field) : Check Problem :=
  ⟨∃ found, value.get? name.key = some found, .missingField name⟩

/-- A field has its type. -/
def typeCheck (value : Value) (name : Field) : Check Problem :=
  ⟨∃ found, value.get? name.key = some found ∧ name.type.Holds found, .wrongType name name.type⟩

/-- A field lies in a range. -/
def rangeCheck (value : Value) (name : Field) (bound : Bound) : Check Problem :=
  ⟨∃ number, name.number? value = some number ∧ bound.Holds number, .outOfRange name bound⟩

/-- The operation is a supported one. -/
def operationCheck (value : Value) : Check Problem :=
  ⟨∃ operation : Operation, value.get? Field.operation.key = some (.string operation.name),
    .unsupportedOperation (operationText value)⟩

/-- The checks on the presence and the type of a field. -/
def readChecks (value : Value) (name : Field) : List (Check Problem) :=
  [presenceCheck value name, typeCheck value name]

/-- The checks on presence and type of a scenario's fields, in order. -/
def fieldChecks (value : Value) (scenario : Scenario) : List (Check Problem) :=
  scenario.fields.flatMap (readChecks value)

/-- The checks on what a scenario's fields hold, in order. -/
def rangeChecks (value : Value) : Scenario → List (Check Problem)
  | .fuzz =>
    [rangeCheck value .requestCount .nonNegative, rangeCheck value .budgetBytes .nonNegative,
      operationCheck value]
  | .throughput =>
    [rangeCheck value .windowSeconds .positive, rangeCheck value .requests .nonNegative,
      rangeCheck value .averageLatency .nonNegative, rangeCheck value .saturationRatio .ratio]

/-- The scenario of a value, if it is a supported one. -/
def scenario? (value : Value) : Option Scenario :=
  match value.get? "scenario" with
  | some (.string word) => Scenario.ofName? word
  | _ => none

/-- All checks on a record, in order. -/
def checksOf (value : Value) : List (Check Problem) :=
  objectCheck value :: scenarioCheck value :: tenantCheck value ::
    match scenario? value with
    | some scenario => fieldChecks value scenario ++ rangeChecks value scenario
    | none => []

/-! ## Acceptable records -/

/-- The words for the operations. -/
def operationWords : List String := ["ingest", "plan", "commit", "audit", "prune"]

/-- The fields of a fuzz record are there, with the right types and ranges. -/
structure IsFuzz (value : Value) : Prop where
  operation : ∃ word ∈ operationWords, value.get? "operation" = some (.string word)
  requestCount : ∃ count, integerAt? value "request_count" = some count ∧ 0 ≤ count
  budgetBytes : ∃ bytes, integerAt? value "budget_bytes" = some bytes ∧ 0 ≤ bytes
  overflowExpected : ∃ flag, value.get? "overflow_expected" = some (.bool flag)

/-- The fields of a throughput record are there, with the right types and
ranges. -/
structure IsThroughput (value : Value) : Prop where
  windowSeconds : ∃ seconds, integerAt? value "window_seconds" = some seconds ∧ 0 < seconds
  requests : ∃ count, integerAt? value "requests" = some count ∧ 0 ≤ count
  averageLatency : ∃ latency, integerAt? value "average_latency_ms" = some latency ∧ 0 ≤ latency
  saturationRatio : ∃ number, doubleAt? value "saturation_ratio" = some number ∧
    0 ≤ number ∧ number ≤ 3 / 2

/-- A record that is acceptable in every respect. -/
structure IsAcceptable (value : Value) : Prop where
  object : ∃ members, value = .object members
  tenant : ∃ tenant, value.get? "tenant" = some (.string tenant) ∧ tenant ≠ ""
  scenario : (value.get? "scenario" = some (.string "fuzz") ∧ IsFuzz value) ∨
    (value.get? "scenario" = some (.string "quota-throughput") ∧ IsThroughput value)

/-- What is written for a record: the keys of its scenario, with the words,
integers and booleans that the record holds, and a ratio rounded to three decimals. -/
inductive IsWritten (value : Value) (tenantAlias : String) : Members → Prop where
  | fuzz {operation : String} {requestCount budgetBytes : Int} {overflowExpected : Bool} :
      value.get? "scenario" = some (.string "fuzz") →
      value.get? "operation" = some (.string operation) →
      integerAt? value "request_count" = some requestCount →
      integerAt? value "budget_bytes" = some budgetBytes →
      value.get? "overflow_expected" = some (.bool overflowExpected) →
      IsWritten value tenantAlias
        [("scenario", .string "fuzz"), ("tenant_alias", .string tenantAlias),
          ("operation", .string operation), ("request_count", .number (.ofInt requestCount)),
          ("budget_bytes", .number (.ofInt budgetBytes)),
          ("overflow_expected", .bool overflowExpected)]
  | throughput {windowSeconds requests averageLatency : Int} {saturation : ℚ}
      {saturationRatio : Json.Number} :
      value.get? "scenario" = some (.string "quota-throughput") →
      integerAt? value "window_seconds" = some windowSeconds →
      integerAt? value "requests" = some requests →
      integerAt? value "average_latency_ms" = some averageLatency →
      doubleAt? value "saturation_ratio" = some saturation →
      IsRoundedTo saturationRatio saturation →
      IsWritten value tenantAlias
        [("scenario", .string "quota-throughput"), ("tenant_alias", .string tenantAlias),
          ("window_seconds", .number (.ofInt windowSeconds)),
          ("requests", .number (.ofInt requests)),
          ("average_latency_ms", .number (.ofInt averageLatency)),
          ("saturation_ratio", .number saturationRatio)]

/-! ## One field -/

section

variable {members : Members} {name : Field} {found : Value}

theorem field_eq_ok_iff :
    field members name = .ok found ↔ Members.get? members name.key = some found := by
  unfold field
  split <;> simp_all

theorem follows_field (members : Members) (name : Field) :
    Follows [presenceCheck (.object members) name] (field members name) := by
  apply Follows.single
  unfold field
  cases hget : Members.get? members name.key with
  | some found => exact Or.inl ⟨⟨found, hget⟩, found, rfl⟩
  | none => exact Or.inr ⟨fun ⟨_, hfound⟩ => (nomatch hget.symm.trans hfound), rfl⟩

/-- A field is read as its type says: what has the type is taken, and anything
else has the wrong type. -/
theorem follows_typed {α : Type} {read : Value → Except Problem α}
    (h : ∀ found, (name.type.Holds found ∧ ∃ a, read found = .ok a) ∨
      (¬ name.type.Holds found ∧ read found = .error (.wrongType name name.type))) :
    Follows (readChecks (.object members) name) (field members name >>= read) := by
  show Follows ([presenceCheck (.object members) name] ++ [typeCheck (.object members) name]) _
  refine (follows_field members name).bind ?_
  intro found hfound
  have hget : (Value.object members).get? name.key = some found := field_eq_ok_iff.mp hfound
  have hpasses : (typeCheck (.object members) name).passes ↔ name.type.Holds found := by
    simp [typeCheck, hget]
  apply Follows.single
  rw [hpasses]
  exact h found

theorem follows_stringField (members : Members) (htype : name.type = .string) :
    Follows (readChecks (.object members) name) (stringField members name) := by
  apply follows_typed
  rw [htype]
  intro found
  cases found with
  | string text => exact Or.inl ⟨⟨text, rfl⟩, text, rfl⟩
  | _ => exact Or.inr ⟨by simp [FieldType.Holds], rfl⟩

theorem follows_booleanField (members : Members) (htype : name.type = .boolean) :
    Follows (readChecks (.object members) name) (booleanField members name) := by
  apply follows_typed
  rw [htype]
  intro found
  cases found with
  | bool flag => exact Or.inl ⟨⟨flag, rfl⟩, flag, rfl⟩
  | _ => exact Or.inr ⟨by simp [FieldType.Holds], rfl⟩

theorem follows_integerField (members : Members) (htype : name.type = .integer) :
    Follows (readChecks (.object members) name) (integerField members name) := by
  apply follows_typed
  rw [htype]
  intro found
  cases found with
  | number n =>
    simp only [FieldType.Holds, Value.integer?, ← n.toInt64?_eq]
    cases n.toInt64? with
    | some integer => exact Or.inl ⟨⟨integer, rfl⟩, integer, rfl⟩
    | none => exact Or.inr ⟨by simp, rfl⟩
  | _ => exact Or.inr ⟨by simp [FieldType.Holds, Value.integer?], rfl⟩

theorem follows_numberField (members : Members) (htype : name.type = .number) :
    Follows (readChecks (.object members) name) (numberField members name) := by
  apply follows_typed
  rw [htype]
  intro found
  cases found with
  | number n =>
    simp only [FieldType.Holds, Value.double?, Json.Number.toRat?]
    cases n.magnitude? with
    | some magnitude => exact Or.inl ⟨by simp, _, rfl⟩
    | none => exact Or.inr ⟨by simp, rfl⟩
  | _ => exact Or.inr ⟨by simp [FieldType.Holds, Value.double?], rfl⟩

theorem get?_of_stringField {text : String} (h : stringField members name = .ok text) :
    Members.get? members name.key = some (.string text) := by
  obtain ⟨found, hfound, hread⟩ := Json.bind_eq_ok.mp h
  rw [field_eq_ok_iff] at hfound
  cases found with
  | string word =>
    cases hread
    exact hfound
  | _ => exact nomatch hread

theorem get?_of_booleanField {flag : Bool} (h : booleanField members name = .ok flag) :
    Members.get? members name.key = some (.bool flag) := by
  obtain ⟨found, hfound, hread⟩ := Json.bind_eq_ok.mp h
  rw [field_eq_ok_iff] at hfound
  cases found with
  | bool other =>
    cases hread
    exact hfound
  | _ => exact nomatch hread

theorem integerAt?_of_integerField {integer : Int} (h : integerField members name = .ok integer) :
    integerAt? (.object members) name.key = some integer := by
  obtain ⟨found, hfound, hread⟩ := Json.bind_eq_ok.mp h
  rw [field_eq_ok_iff] at hfound
  have hget : (Value.object members).get? name.key = some found := hfound
  unfold integerAt?
  rw [hget, Option.bind_some]
  cases found with
  | number n =>
    rw [Value.integer?, ← n.toInt64?_eq]
    simp only at hread
    split at hread
    · rename_i hinteger
      cases hread
      exact hinteger
    · exact nomatch hread
  | _ => exact nomatch hread

theorem doubleAt?_of_numberField {negative : Bool} {magnitude : Magnitude}
    (h : numberField members name = .ok (negative, magnitude)) :
    doubleAt? (.object members) name.key = some (magnitude.signedRat negative) := by
  obtain ⟨found, hfound, hread⟩ := Json.bind_eq_ok.mp h
  rw [field_eq_ok_iff] at hfound
  have hget : (Value.object members).get? name.key = some found := hfound
  unfold doubleAt?
  rw [hget, Option.bind_some]
  cases found with
  | number n =>
    simp only at hread
    split at hread
    · rename_i hmagnitude
      cases hread
      rw [Value.double?, Json.Number.toRat?, hmagnitude, Option.map_some]
    · exact nomatch hread
  | _ => exact nomatch hread

/-! ## One range -/

/-- A range is checked by what is known of the field's number. -/
theorem follows_range {α : Type} {value : Value} {number : ℚ} {bound : Bound}
    {result : Except Problem α} (hnumber : name.number? value = some number)
    (h : (bound.Holds number ∧ ∃ a, result = .ok a) ∨
      (¬ bound.Holds number ∧ result = .error (.outOfRange name bound))) :
    Follows [rangeCheck value name bound] result := by
  have hpasses : (rangeCheck value name bound).passes ↔ bound.Holds number := by
    simp [rangeCheck, hnumber]
  apply Follows.single
  rw [hpasses]
  exact h

theorem number?_of_integer {value : Value} {integer : Int} (htype : name.type = .integer)
    (h : integerAt? value name.key = some integer) : name.number? value = some (integer : ℚ) := by
  unfold Field.number?
  rw [htype, h]
  rfl

theorem follows_checkNonNegative {value : Value} {integer : Int} (htype : name.type = .integer)
    (h : integerAt? value name.key = some integer) :
    Follows [rangeCheck value name .nonNegative] (checkNonNegative name integer) := by
  apply follows_range (number?_of_integer htype h)
  unfold checkNonNegative
  by_cases hneg : integer < 0
  · rw [if_pos hneg]
    exact Or.inr ⟨not_le.mpr (Int.cast_lt_zero.mpr hneg), rfl⟩
  · rw [if_neg hneg]
    exact Or.inl ⟨Int.cast_nonneg (not_lt.mp hneg), (), rfl⟩

/-- A number is from zero to one and a half exactly if `ratio` does not refuse
it for its sign or its size.  A zero is in range, also one with a sign. -/
theorem Bound.ratio_holds_iff (negative : Bool) (magnitude : Magnitude) :
    Bound.ratio.Holds (magnitude.signedRat negative) ↔
      ((negative && magnitude.significand != 0) || !magnitude.atMost 3 2) = false := by
  have hatMost : magnitude.atMost 3 2 = true ↔ magnitude.toRat ≤ 3 / 2 := by
    exact_mod_cast Magnitude.atMost_eq_true_iff (by decide : 0 < 2)
  rw [Bool.or_eq_false_iff, ← Magnitude.signedRat_nonneg_iff, Bool.not_eq_false', hatMost]
  refine and_congr_right fun hnonneg => ?_
  rw [Magnitude.signedRat_of_nonneg hnonneg]

/-- A number in range has a thousandfold, and so is never refused for want of
one. -/
theorem follows_ratio {value : Value} {negative : Bool} {magnitude : Magnitude}
    (h : doubleAt? value Field.saturationRatio.key = some (magnitude.signedRat negative)) :
    Follows [rangeCheck value .saturationRatio .ratio] (ratio negative magnitude) := by
  have hnumber : Field.saturationRatio.number? value = some (magnitude.signedRat negative) := h
  apply follows_range hnumber
  rw [Bound.ratio_holds_iff]
  unfold ratio
  cases hrefused : (negative && magnitude.significand != 0) || !magnitude.atMost 3 2 with
  | true => exact Or.inr ⟨Bool.noConfusion, rfl⟩
  | false =>
    have hatMost : magnitude.atMost 3 2 = true := by
      simpa using (Bool.or_eq_false_iff.mp hrefused).2
    obtain ⟨scaled, hscaled⟩ := Magnitude.exists_scaleBy hatMost
    rw [hscaled]
    exact Or.inl ⟨rfl, _, rfl⟩

/-! ## The fields of a scenario -/

/-- A word is an operation's exactly if the operation is found under it. -/
theorem Operation.ofName?_eq_some_iff {word : String} {operation : Operation} :
    Operation.ofName? word = some operation ↔ word = operation.name := by
  constructor
  · intro h
    have hname := List.find?_some h
    exact (beq_iff_eq.mp hname).symm
  · rintro rfl
    cases operation <;> rfl

theorem Scenario.ofName?_eq_some_iff {word : String} {scenario : Scenario} :
    Scenario.ofName? word = some scenario ↔ word = scenario.name := by
  constructor
  · intro h
    unfold Scenario.ofName? at h
    split at h
    · cases h
      assumption
    · split at h
      · cases h
        assumption
      · exact nomatch h
  · rintro rfl
    cases scenario <;> rfl

theorem follows_operation {members : Members} {word : String}
    (hword : Members.get? members Field.operation.key = some (.string word))
    (build : Operation → Body) :
    Follows [operationCheck (.object members)]
      (match Operation.ofName? word with
        | some operation => return build operation
        | none => .error (.unsupportedOperation word)) := by
  have hget : (Value.object members).get? Field.operation.key = some (.string word) := hword
  apply Follows.single
  cases hoperation : Operation.ofName? word with
  | some operation =>
    rw [Operation.ofName?_eq_some_iff] at hoperation
    exact Or.inl ⟨⟨operation, hoperation ▸ hget⟩, _, rfl⟩
  | none =>
    refine Or.inr ⟨?_, ?_⟩
    · rintro ⟨operation, hfound⟩
      have hname : word = operation.name := by simpa [hget] using hfound
      rw [Operation.ofName?_eq_some_iff.mpr hname] at hoperation
      exact nomatch hoperation
    · simp [operationCheck, operationText, hget]

theorem follows_fuzzBody (members : Members) :
    Follows (fieldChecks (.object members) .fuzz ++ rangeChecks (.object members) .fuzz)
      (fuzzBody members) := by
  refine (follows_stringField members rfl).bind fun word hword => ?_
  refine (follows_integerField members rfl).bind fun requestCount hrequests => ?_
  refine (follows_integerField members rfl).bind fun budgetBytes hbudget => ?_
  refine (follows_booleanField members rfl).bind fun overflowExpected _ => ?_
  refine (follows_checkNonNegative rfl (integerAt?_of_integerField hrequests)).bind fun _ _ => ?_
  refine (follows_checkNonNegative rfl (integerAt?_of_integerField hbudget)).bind fun _ _ => ?_
  exact follows_operation (get?_of_stringField hword) _

theorem follows_throughputBody (members : Members) :
    Follows (fieldChecks (.object members) .throughput ++
      rangeChecks (.object members) .throughput) (throughputBody members) := by
  refine (follows_integerField members rfl).bind fun windowSeconds hwindow => ?_
  refine (follows_integerField members rfl).bind fun requests hrequests => ?_
  refine (follows_integerField members rfl).bind fun averageLatency hlatency => ?_
  refine (follows_numberField members rfl).bind ?_
  rintro ⟨negative, magnitude⟩ hratio
  have hnumber := number?_of_integer rfl (integerAt?_of_integerField hwindow)
  refine Follows.guard ?_ ?_
  · simp [rangeCheck, hnumber, Bound.Holds]
  refine (follows_checkNonNegative rfl (integerAt?_of_integerField hrequests)).bind fun _ _ => ?_
  refine (follows_checkNonNegative rfl (integerAt?_of_integerField hlatency)).bind fun _ _ => ?_
  exact (follows_ratio (doubleAt?_of_numberField hratio)).map _

theorem follows_body (scenario : Scenario) (members : Members) :
    Follows (fieldChecks (.object members) scenario ++ rangeChecks (.object members) scenario)
      (scenario.body members) := by
  cases scenario with
  | fuzz => exact follows_fuzzBody members
  | throughput => exact follows_throughputBody members

/-! ## Records -/

theorem readScenario_eq_error {problem : Problem} (h : readScenario members = .error problem) :
    problem = .unsupportedScenario (scenarioText (.object members)) := by
  unfold readScenario at h
  unfold scenarioText
  rw [Value.get?]
  cases hget : Members.get? members "scenario" with
  | none =>
    rw [hget] at h
    exact (Except.error.inj h).symm
  | some value =>
    rw [hget] at h
    cases value with
    | string word =>
      simp only at h
      split at h
      · exact nomatch h
      · exact (Except.error.inj h).symm
    | _ => exact (Except.error.inj h).symm

theorem follows_readScenario (members : Members) :
    Follows [scenarioCheck (.object members)] (readScenario members) := by
  apply Follows.single
  cases hread : readScenario members with
  | ok scenario => exact Or.inl ⟨⟨scenario, readScenario_ok hread⟩, scenario, rfl⟩
  | error problem =>
    refine Or.inr ⟨?_, congrArg Except.error (readScenario_eq_error hread)⟩
    rintro ⟨scenario, hscenario⟩
    have hsupported : scenario.name = "fuzz" ∨ scenario.name = "quota-throughput" := by
      cases scenario <;> decide
    exact (readScenario_error hread).2 _ hscenario hsupported

theorem follows_readTenant (members : Members) :
    Follows [tenantCheck (.object members)] (readTenant members) := by
  apply Follows.single
  cases hread : readTenant members with
  | ok tenant => exact Or.inl ⟨⟨tenant, readTenant_ok hread⟩, tenant, rfl⟩
  | error problem =>
    refine Or.inr ⟨?_, ?_⟩
    · rintro ⟨tenant, htenant, hne⟩
      exact hne ((readTenant_error hread).2 tenant htenant)
    · unfold readTenant at hread
      split at hread
      · split at hread
        · exact hread.symm
        · exact nomatch hread
      · exact hread.symm

theorem scenario?_of_readScenario {scenario : Scenario} (h : readScenario members = .ok scenario) :
    scenario? (.object members) = some scenario := by
  have hget : (Value.object members).get? "scenario" = some (.string scenario.name) :=
    readScenario_ok h
  rw [scenario?, hget]
  exact Scenario.ofName?_eq_some_iff.mpr rfl

/-- An object's scenario, tenant and fields are read one after the other. -/
theorem sanitize_object (roster : Roster) (members : Members) :
    (roster.sanitize (.object members)).1 =
      (do
        let scenario ← readScenario members
        let tenant ← readTenant members
        (scenario.body members).map fun body => ⟨roster.aliasFor tenant, body⟩) := by
  simp only [Roster.sanitize, readHead]
  cases readScenario members with
  | error problem => rfl
  | ok scenario => cases readTenant members <;> rfl

theorem follows_sanitize (roster : Roster) (value : Value) :
    Follows (checksOf value) (roster.sanitize value).1 := by
  cases value with
  | object members =>
    rw [sanitize_object]
    refine .pass ⟨members, rfl⟩ ?_
    refine (follows_readScenario members).bind fun scenario hscenario => ?_
    refine (follows_readTenant members).bind fun tenant _ => ?_
    rw [scenario?_of_readScenario hscenario]
    exact (follows_body scenario members).map _
  | _ => exact .fail (by simp [objectCheck])

end

/-! ## Checks that pass -/

section

variable {value : Value} {name : Field} {bound : Bound}

/-- A field that has its type is there. -/
theorem fieldChecks_pass_iff {scenario : Scenario} :
    (∀ check ∈ fieldChecks value scenario, check.passes) ↔
      ∀ name ∈ scenario.fields, (typeCheck value name).passes := by
  simp only [fieldChecks, readChecks, List.mem_flatMap, List.mem_cons, List.not_mem_nil, or_false]
  constructor
  · intro h name hname
    exact h _ ⟨name, hname, Or.inr rfl⟩
  · rintro h check ⟨name, hname, rfl | rfl⟩
    · obtain ⟨found, hfound, -⟩ := h name hname
      exact ⟨found, hfound⟩
    · exact h name hname

theorem rangeCheck_integer_iff (htype : name.type = .integer) :
    (rangeCheck value name bound).passes ↔
      ∃ integer : Int, integerAt? value name.key = some integer ∧ bound.Holds integer := by
  simp [rangeCheck, Field.number?, htype]

theorem rangeCheck_nonNegative_iff (htype : name.type = .integer) :
    (rangeCheck value name .nonNegative).passes ↔
      ∃ integer, integerAt? value name.key = some integer ∧ 0 ≤ integer := by
  simp [rangeCheck_integer_iff htype, Bound.Holds]

theorem rangeCheck_positive_iff (htype : name.type = .integer) :
    (rangeCheck value name .positive).passes ↔
      ∃ integer, integerAt? value name.key = some integer ∧ 0 < integer := by
  simp [rangeCheck_integer_iff htype, Bound.Holds]

/-- An integer in a range has the type of its field. -/
theorem typeCheck_of_rangeCheck (htype : name.type = .integer)
    (h : (rangeCheck value name bound).passes) : (typeCheck value name).passes := by
  obtain ⟨integer, hinteger, -⟩ := (rangeCheck_integer_iff htype).mp h
  obtain ⟨found, hfound, hread⟩ := Option.bind_eq_some_iff.mp hinteger
  exact ⟨found, hfound, htype ▸ ⟨integer, hread⟩⟩

theorem typeCheck_of_doubleAt? {double : ℚ} (htype : name.type = .number)
    (h : doubleAt? value name.key = some double) : (typeCheck value name).passes := by
  obtain ⟨found, hfound, hdouble⟩ := Option.bind_eq_some_iff.mp h
  exact ⟨found, hfound, htype ▸ ⟨double, hdouble⟩⟩

end

theorem operationCheck_passes_iff (value : Value) :
    (operationCheck value).passes ↔
      ∃ word ∈ operationWords, value.get? "operation" = some (.string word) := by
  constructor
  · rintro ⟨operation, h⟩
    exact ⟨operation.name, by cases operation <;> decide, h⟩
  · rintro ⟨word, hword, h⟩
    have hnames : operationWords = Operation.all.map Operation.name := rfl
    rw [hnames, List.mem_map] at hword
    obtain ⟨operation, -, rfl⟩ := hword
    exact ⟨operation, h⟩

theorem typeCheck_of_operationCheck {value : Value} (h : (operationCheck value).passes) :
    (typeCheck value .operation).passes := by
  obtain ⟨operation, hoperation⟩ := h
  exact ⟨_, hoperation, operation.name, rfl⟩

theorem isFuzz_iff (value : Value) :
    (∀ check ∈ fieldChecks value .fuzz ++ rangeChecks value .fuzz, check.passes) ↔
      IsFuzz value := by
  rw [List.forall_mem_append, fieldChecks_pass_iff]
  simp only [Scenario.fields, rangeChecks, List.forall_mem_cons]
  constructor
  · rintro ⟨⟨-, -, -, ⟨_, hflag, flag, rfl⟩, -⟩, hrequests, hbudget, hoperation, -⟩
    exact ⟨(operationCheck_passes_iff value).mp hoperation,
      (rangeCheck_nonNegative_iff rfl).mp hrequests, (rangeCheck_nonNegative_iff rfl).mp hbudget,
      flag, hflag⟩
  · intro h
    have hoperation := (operationCheck_passes_iff value).mpr h.operation
    have hrequests : (rangeCheck value .requestCount .nonNegative).passes :=
      (rangeCheck_nonNegative_iff rfl).mpr h.requestCount
    have hbudget : (rangeCheck value .budgetBytes .nonNegative).passes :=
      (rangeCheck_nonNegative_iff rfl).mpr h.budgetBytes
    obtain ⟨flag, hflag⟩ := h.overflowExpected
    exact ⟨⟨typeCheck_of_operationCheck hoperation, typeCheck_of_rangeCheck rfl hrequests,
      typeCheck_of_rangeCheck rfl hbudget, ⟨_, hflag, flag, rfl⟩, nofun⟩,
      hrequests, hbudget, hoperation, nofun⟩

theorem isThroughput_iff (value : Value) :
    (∀ check ∈ fieldChecks value .throughput ++ rangeChecks value .throughput, check.passes) ↔
      IsThroughput value := by
  rw [List.forall_mem_append, fieldChecks_pass_iff]
  simp only [Scenario.fields, rangeChecks, List.forall_mem_cons]
  constructor
  · rintro ⟨-, hwindow, hrequests, hlatency, hratio, -⟩
    exact ⟨(rangeCheck_positive_iff rfl).mp hwindow, (rangeCheck_nonNegative_iff rfl).mp hrequests,
      (rangeCheck_nonNegative_iff rfl).mp hlatency, hratio⟩
  · intro h
    have hwindow : (rangeCheck value .windowSeconds .positive).passes :=
      (rangeCheck_positive_iff rfl).mpr h.windowSeconds
    have hrequests : (rangeCheck value .requests .nonNegative).passes :=
      (rangeCheck_nonNegative_iff rfl).mpr h.requests
    have hlatency : (rangeCheck value .averageLatency .nonNegative).passes :=
      (rangeCheck_nonNegative_iff rfl).mpr h.averageLatency
    obtain ⟨double, hdouble, hratio⟩ := h.saturationRatio
    exact ⟨⟨typeCheck_of_rangeCheck rfl hwindow, typeCheck_of_rangeCheck rfl hrequests,
      typeCheck_of_rangeCheck rfl hlatency, typeCheck_of_doubleAt? rfl hdouble, nofun⟩,
      hwindow, hrequests, hlatency, ⟨double, hdouble, hratio⟩, nofun⟩

theorem scenario?_eq_some_iff {value : Value} {scenario : Scenario} :
    scenario? value = some scenario ↔ value.get? "scenario" = some (.string scenario.name) := by
  unfold scenario?
  split
  · rename_i word hword
    rw [Scenario.ofName?_eq_some_iff, hword]
    simp
  · rename_i hother
    constructor
    · intro h
      exact nomatch h
    · intro h
      exact absurd h (hother _)

/-- The checks pass exactly if the record is acceptable. -/
theorem checksOf_pass_iff (value : Value) :
    (∀ check ∈ checksOf value, check.passes) ↔ IsAcceptable value := by
  simp only [checksOf, List.forall_mem_cons]
  constructor
  · rintro ⟨hobject, ⟨scenario, hscenario⟩, htenant, hfields⟩
    rw [scenario?_eq_some_iff.mpr hscenario] at hfields
    refine ⟨hobject, htenant, ?_⟩
    cases scenario with
    | fuzz => exact Or.inl ⟨hscenario, (isFuzz_iff value).mp hfields⟩
    | throughput => exact Or.inr ⟨hscenario, (isThroughput_iff value).mp hfields⟩
  · rintro ⟨hobject, htenant, ⟨hscenario, hfields⟩ | ⟨hscenario, hfields⟩⟩
    · refine ⟨hobject, ⟨.fuzz, hscenario⟩, htenant, ?_⟩
      have hfound : scenario? value = some .fuzz := scenario?_eq_some_iff.mpr hscenario
      rw [hfound]
      exact (isFuzz_iff value).mpr hfields
    · refine ⟨hobject, ⟨.throughput, hscenario⟩, htenant, ?_⟩
      have hfound : scenario? value = some .throughput := scenario?_eq_some_iff.mpr hscenario
      rw [hfound]
      exact (isThroughput_iff value).mpr hfields

/-! ## What is written -/

theorem isWritten_fuzzBody {members : Members} {body : Body} {tenantAlias : String}
    (hscenario : Members.get? members "scenario" = some (.string "fuzz"))
    (h : fuzzBody members = .ok body) :
    ∃ written, Record.toValue ⟨tenantAlias, body⟩ = .object written ∧
      IsWritten (.object members) tenantAlias written := by
  obtain ⟨word, hword, h⟩ := Json.bind_eq_ok.mp h
  obtain ⟨requestCount, hrequests, h⟩ := Json.bind_eq_ok.mp h
  obtain ⟨budgetBytes, hbudget, h⟩ := Json.bind_eq_ok.mp h
  obtain ⟨overflowExpected, hflag, h⟩ := Json.bind_eq_ok.mp h
  obtain ⟨_, _, h⟩ := Json.bind_eq_ok.mp h
  obtain ⟨_, _, h⟩ := Json.bind_eq_ok.mp h
  split at h
  · rename_i operation hoperation
    cases h
    rw [Operation.ofName?_eq_some_iff] at hoperation
    exact ⟨_, rfl, .fuzz hscenario (hoperation ▸ get?_of_stringField hword)
      (integerAt?_of_integerField hrequests) (integerAt?_of_integerField hbudget)
      (get?_of_booleanField hflag)⟩
  · exact nomatch h

theorem isWritten_throughputBody {members : Members} {body : Body} {tenantAlias : String}
    (hscenario : Members.get? members "scenario" = some (.string "quota-throughput"))
    (h : throughputBody members = .ok body) :
    ∃ written, Record.toValue ⟨tenantAlias, body⟩ = .object written ∧
      IsWritten (.object members) tenantAlias written := by
  obtain ⟨windowSeconds, hwindow, h⟩ := Json.bind_eq_ok.mp h
  obtain ⟨requests, hrequests, h⟩ := Json.bind_eq_ok.mp h
  obtain ⟨averageLatency, hlatency, h⟩ := Json.bind_eq_ok.mp h
  obtain ⟨⟨negative, magnitude⟩, hnumber, h⟩ := Json.bind_eq_ok.mp h
  simp only at h
  split at h
  · exact nomatch h
  · obtain ⟨_, _, h⟩ := Json.bind_eq_ok.mp h
    obtain ⟨_, _, h⟩ := Json.bind_eq_ok.mp h
    obtain ⟨saturationRatio, hratio, h⟩ := Json.bind_eq_ok.mp h
    cases h
    exact ⟨_, rfl, .throughput hscenario (integerAt?_of_integerField hwindow)
      (integerAt?_of_integerField hrequests) (integerAt?_of_integerField hlatency)
      (doubleAt?_of_numberField hnumber) (isRoundedTo_of_ratio hratio)⟩

theorem isWritten_of_sanitize {roster : Roster} {value : Value} {record : Record}
    (h : (roster.sanitize value).1 = .ok record) :
    ∃ written, record.toValue = .object written ∧
      IsWritten value record.tenantAlias written := by
  cases value with
  | object members =>
    rw [sanitize_object] at h
    obtain ⟨scenario, hscenario, h⟩ := Json.bind_eq_ok.mp h
    obtain ⟨tenant, _, h⟩ := Json.bind_eq_ok.mp h
    obtain ⟨body, hbody, rfl⟩ := Json.map_eq_ok.mp h
    have hget := readScenario_ok hscenario
    cases scenario with
    | fuzz => exact isWritten_fuzzBody hget hbody
    | throughput => exact isWritten_throughputBody hget hbody
  | _ => exact nomatch h

/-- Sanitizing a record succeeds exactly if the record is acceptable.  Then the
keys of its scenario are written, with what the record holds and its ratio to three
decimals, and else the error is that of the first check that fails. -/
theorem sanitize_by_schema (roster : Roster) (value : Value) :
    ((∃ record, (roster.sanitize value).1 = .ok record) ↔ IsAcceptable value) ∧
      (∀ record, (roster.sanitize value).1 = .ok record →
        ∃ written, record.toValue = .object written ∧
          IsWritten value record.tenantAlias written) ∧
      ∀ problem, (roster.sanitize value).1 = .error problem ↔
        FirstFailure (checksOf value) problem := by
  have hfollows := follows_sanitize roster value
  refine ⟨?_, fun record => isWritten_of_sanitize, fun problem => hfollows.eq_error_iff⟩
  rw [← checksOf_pass_iff]
  exact hfollows.exists_ok_iff

end GoldenFixtures.Archive
