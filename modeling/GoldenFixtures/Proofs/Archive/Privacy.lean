import Mathlib
import GoldenFixtures.Proofs.Archive.Schema
import GoldenFixtures.Proofs.Archive.Stream

/-!
# What a sanitized stream keeps to itself

Sanitizing a stream shows neither the tenants' names nor the fields that do not
belong to a record's scenario, be it in what is written or in the error that
stops it.  Two streams that differ in nothing else give the same result.

There are four groups.

* The streams.  `ObjectsAlike`, `LinesAlike` and `StreamsAlike` say in what two
  objects, lines and streams may differ.
* Two rosters.  Their tenants may have different names, but the same aliases
  stand in the same places (`Roster.Alike`); `Roster.Alike.meet` is the step.
* Two records and two lines.  What is shown of them is the same, and the rosters
  stay alike (`sanitize_alike`, `sanitizeLine_alike`).
* Two runs.  `sanitizeLines_alike` carries this over the lines, and
  `sanitize_of_alike` starts it.
-/

namespace GoldenFixtures.Archive

open Json (Value Members)
open Text (byteLines decode? encode terminated)

/-! ## Streams that show the same -/

/-- The fields of the scenario that an object names, if it is supported. -/
def fieldsOf (members : Members) : List Field :=
  match Members.get? members "scenario" with
  | some (.string word) => ((Scenario.ofName? word).map Scenario.fields).getD []
  | _ => []

/-- The tenant of an object, if it is a string and not empty. -/
def tenantOf? (members : Members) : Option String :=
  match Members.get? members "tenant" with
  | some (.string tenant) => if tenant = "" then none else some tenant
  | _ => none

/-- Two objects have values with the same compact text at a key, or both have
none. -/
def AgreeAt (key : String) (members others : Members) : Prop :=
  (Members.get? members key).map Value.toCompact = (Members.get? others key).map Value.toCompact
  deriving Decidable

/-- Two objects agree on the scenario and on its fields, and if one of them has a
tenant, so has the other.  The tenants' names and all other members may differ,
and so may the order of the members. -/
structure ObjectsAlike (members others : Members) : Prop where
  scenario : AgreeAt "scenario" members others
  fields : ∀ name ∈ fieldsOf members, AgreeAt name.key members others
  tenant : (tenantOf? members).isSome = (tenantOf? others).isSome

instance (members others : Members) : Decidable (ObjectsAlike members others) :=
  decidable_of_iff (AgreeAt "scenario" members others ∧
      (∀ name ∈ fieldsOf members, AgreeAt name.key members others) ∧
      (tenantOf? members).isSome = (tenantOf? others).isSome)
    ⟨fun h => ⟨h.1, h.2.1, h.2.2⟩, fun h => ⟨h.scenario, h.fields, h.tenant⟩⟩

/-- The object that a line holds. -/
def objectIn? (line : List UInt8) : Option Members :=
  match (decode? line).map fun text => Value.read (Text.trim text) with
  | some (.ok (.object members)) => some members
  | _ => none

/-- Both lines are blank, or both hold objects that are alike. -/
inductive LinesAlike (line other : List UInt8) : Prop where
  | blank : isBlankLine line = true → isBlankLine other = true → LinesAlike line other
  | objects {members others : Members} : objectIn? line = some members →
      objectIn? other = some others → ObjectsAlike members others → LinesAlike line other

/-- The tenant in a line. -/
def tenantIn? (line : List UInt8) : Option String := (objectIn? line).bind tenantOf?

/-- The tenant in the line at an index of a stream. -/
def tenantAt? (bytes : List UInt8) (index : Nat) : Option String :=
  (byteLines bytes)[index]?.bind tenantIn?

/-- Two streams are alike line by line, and two lines have the same tenant in one
of them if and only if they have the same tenant in the other. -/
structure StreamsAlike (bytes others : List UInt8) : Prop where
  lines : List.Forall₂ LinesAlike (byteLines bytes) (byteLines others)
  tenants : ∀ i j, (tenantAt? bytes i).isSome → (tenantAt? bytes j).isSome →
    (tenantAt? bytes i = tenantAt? bytes j ↔ tenantAt? others i = tenantAt? others j)

/-! ## Two rosters -/

/-- Two rosters with the same aliases, given to tenants that correspond to each
other. -/
def Roster.Alike (link : String → String → Prop) (roster other : Roster) : Prop :=
  List.Forall₂ (fun entry counterpart => link entry.1 counterpart.1 ∧ entry.2 = counterpart.2)
    roster.aliases other.aliases

namespace Roster.Alike

variable {link : String → String → Prop} {roster other : Roster} {tenant counterpart : String}

theorem start : Roster.Alike link {} {} :=
  .nil

/-- Names that correspond to each other one to one are found in the same places
of two tables. -/
theorem lookup_eq_of_forall₂ (hlink : Relator.BiUnique link)
    {entries counterparts : List (String × String)}
    (h : List.Forall₂ (fun entry counterpart => link entry.1 counterpart.1 ∧
      entry.2 = counterpart.2) entries counterparts)
    (htenant : link tenant counterpart) :
    entries.lookup tenant = counterparts.lookup counterpart := by
  induction h with
  | nil => rfl
  | @cons entry entry' _ _ hentry _ ih =>
    obtain ⟨name, text⟩ := entry
    obtain ⟨name', text'⟩ := entry'
    obtain ⟨hname, rfl⟩ : link name name' ∧ text = text' := hentry
    have hiff : tenant = name ↔ counterpart = name' := Relator.rel_eq hlink htenant hname
    rw [List.lookup_cons, List.lookup_cons, ih]
    by_cases heq : tenant = name
    · simp [heq, hiff.mp heq]
    · have hne : counterpart ≠ name' := fun h => heq (hiff.mpr h)
      rw [beq_false_of_ne heq, beq_false_of_ne hne]

/-- Tenants that correspond to each other have the same alias or none. -/
theorem given?_eq (h : roster.Alike link other) (hlink : Relator.BiUnique link)
    (htenant : link tenant counterpart) : roster.given? tenant = other.given? counterpart :=
  lookup_eq_of_forall₂ hlink h htenant

theorem nextAlias_eq (h : roster.Alike link other) : roster.nextAlias = other.nextAlias := by
  unfold Roster.nextAlias
  rw [List.Forall₂.length_eq h]

theorem aliasFor_eq (h : roster.Alike link other) (hlink : Relator.BiUnique link)
    (htenant : link tenant counterpart) : roster.aliasFor tenant = other.aliasFor counterpart := by
  unfold Roster.aliasFor
  rw [h.given?_eq hlink htenant, h.nextAlias_eq]

/-- Rosters stay alike when tenants that correspond to each other are met. -/
theorem meet (h : roster.Alike link other) (hlink : Relator.BiUnique link)
    (htenant : link tenant counterpart) :
    (roster.meet tenant).Alike link (other.meet counterpart) := by
  unfold Roster.meet
  rw [h.given?_eq hlink htenant]
  cases other.given? counterpart with
  | some text => exact h
  | none =>
    have hnew : link tenant counterpart ∧ roster.nextAlias = other.nextAlias :=
      ⟨htenant, h.nextAlias_eq⟩
    exact List.rel_append h (.cons hnew .nil)

end Roster.Alike

/-! ## Two records -/

section

variable {members others : Members} {roster other : Roster} {scenario : Scenario}

/-- A value is determined by its compact text. -/
theorem AgreeAt.get?_eq {key : String} (h : AgreeAt key members others) :
    Members.get? members key = Members.get? others key :=
  Option.map_injective Json.Value.toCompact_injective h

theorem field_eq_of_agreeAt {name : Field} (h : AgreeAt name.key members others) :
    field members name = field others name := by
  unfold field
  rw [h.get?_eq]

/-- What a scenario keeps of a record depends on its fields only. -/
theorem body_eq_of_fields
    (h : ∀ name ∈ scenario.fields, field members name = field others name) :
    scenario.body members = scenario.body others := by
  cases scenario with
  | fuzz =>
    have hoperation := h .operation (by decide)
    have hrequestCount := h .requestCount (by decide)
    have hbudgetBytes := h .budgetBytes (by decide)
    have hoverflowExpected := h .overflowExpected (by decide)
    simp only [Scenario.body, fuzzBody, stringField, integerField, booleanField, hoperation,
      hrequestCount, hbudgetBytes, hoverflowExpected]
  | throughput =>
    have hwindowSeconds := h .windowSeconds (by decide)
    have hrequests := h .requests (by decide)
    have haverageLatency := h .averageLatency (by decide)
    have hsaturationRatio := h .saturationRatio (by decide)
    simp only [Scenario.body, throughputBody, integerField, numberField, hwindowSeconds,
      hrequests, haverageLatency, hsaturationRatio]

theorem readScenario_eq_of_agreeAt (h : AgreeAt "scenario" members others) :
    readScenario members = readScenario others := by
  unfold readScenario
  rw [h.get?_eq]

theorem fieldsOf_of_readScenario (h : readScenario members = .ok scenario) :
    fieldsOf members = scenario.fields := by
  unfold fieldsOf
  rw [readScenario_ok h]
  cases scenario with
  | fuzz => rfl
  | throughput => rfl

theorem readTenant_eq (members : Members) :
    readTenant members =
      match tenantOf? members with
      | some tenant => .ok tenant
      | none => .error .invalidTenant := by
  unfold readTenant
  split
  · rename_i tenant hget
    by_cases hempty : tenant = ""
    · simp [tenantOf?, hget, hempty]
    · simp [tenantOf?, hget, hempty]
  · rename_i hother
    have hnone : tenantOf? members = none := by
      unfold tenantOf?
      split
      · rename_i tenant hget
        exact absurd hget (hother tenant)
      · rfl
    rw [hnone]

theorem sanitize_of_scenario_error {problem : Problem}
    (h : readScenario members = .error problem) :
    roster.sanitize (.object members) = (.error problem, roster) := by
  simp only [Roster.sanitize, readHead, h, bind, Except.bind]

theorem sanitize_of_no_tenant (hscenario : readScenario members = .ok scenario)
    (htenant : tenantOf? members = none) :
    roster.sanitize (.object members) = (.error .invalidTenant, roster) := by
  simp only [Roster.sanitize, readHead, hscenario, readTenant_eq, htenant, bind, Except.bind]

theorem sanitize_of_tenant {tenant : String} (hscenario : readScenario members = .ok scenario)
    (htenant : tenantOf? members = some tenant) :
    roster.sanitize (.object members) =
      ((scenario.body members).map fun body => ⟨roster.aliasFor tenant, body⟩,
        roster.meet tenant) := by
  simp only [Roster.sanitize, readHead, hscenario, readTenant_eq, htenant, bind, Except.bind,
    pure, Except.pure]

variable {link : String → String → Prop}

/-- Objects that are alike are sanitized alike, whether they have a record or
not, and leave the rosters alike. -/
theorem sanitize_alike (hlink : Relator.BiUnique link) (hroster : roster.Alike link other)
    (h : ObjectsAlike members others)
    (htenants : ∀ tenant counterpart, tenantOf? members = some tenant →
      tenantOf? others = some counterpart → link tenant counterpart) :
    (roster.sanitize (.object members)).1 = (other.sanitize (.object others)).1 ∧
      (roster.sanitize (.object members)).2.Alike link (other.sanitize (.object others)).2 := by
  have hsame : readScenario members = readScenario others :=
    readScenario_eq_of_agreeAt h.scenario
  cases hscenario : readScenario members with
  | error problem =>
    rw [sanitize_of_scenario_error hscenario,
      sanitize_of_scenario_error (hsame.symm.trans hscenario)]
    exact ⟨rfl, hroster⟩
  | ok scenario =>
    have hscenario' : readScenario others = .ok scenario := hsame.symm.trans hscenario
    have hsome := h.tenant
    cases htenant : tenantOf? members with
    | none =>
      rw [htenant] at hsome
      have htenant' : tenantOf? others = none := Option.isSome_eq_false_iff.mp hsome.symm |>
        Option.isNone_iff_eq_none.mp
      rw [sanitize_of_no_tenant hscenario htenant, sanitize_of_no_tenant hscenario' htenant']
      exact ⟨rfl, hroster⟩
    | some tenant =>
      rw [htenant] at hsome
      obtain ⟨counterpart, htenant'⟩ := Option.isSome_iff_exists.mp hsome.symm
      have hpair : link tenant counterpart := htenants tenant counterpart htenant htenant'
      have hbody : scenario.body members = scenario.body others := by
        apply body_eq_of_fields
        rw [← fieldsOf_of_readScenario hscenario]
        intro name hname
        exact field_eq_of_agreeAt (h.fields name hname)
      rw [sanitize_of_tenant hscenario htenant, sanitize_of_tenant hscenario' htenant', hbody,
        hroster.aliasFor_eq hlink hpair]
      exact ⟨rfl, hroster.meet hlink hpair⟩

end

/-! ## Two lines -/

section

variable {line other : List UInt8} {members : Members}

theorem exists_of_objectIn? (h : objectIn? line = some members) :
    ∃ text, decode? line = some text ∧ Value.read (Text.trim text) = .ok (.object members) := by
  unfold objectIn? at h
  split at h
  · rename_i found hfound
    obtain ⟨text, hdecode, hread⟩ := Option.map_eq_some_iff.mp hfound
    cases h
    exact ⟨text, hdecode, hread⟩
  · exact nomatch h

/-- A line that holds an object is sanitized as that object. -/
theorem sanitizeLine_of_object {text : List Char} (roster : Roster)
    (h : Value.read (Text.trim text) = .ok (.object members)) :
    roster.sanitizeLine text =
      ((roster.sanitize (.object members)).1.map some, (roster.sanitize (.object members)).2) := by
  have hempty : (Text.trim text).isEmpty = false := by
    cases htrim : Text.trim text with
    | nil =>
      rw [htrim] at h
      exact nomatch h
    | cons c rest => rfl
  simp only [Roster.sanitizeLine, hempty, h, Bool.false_eq_true, if_false]

theorem exists_of_isBlankLine (h : isBlankLine line = true) :
    ∃ text, decode? line = some text ∧ ∀ roster : Roster,
      roster.sanitizeLine text = (.ok none, roster) := by
  cases hdecode : decode? line with
  | none =>
    rw [isBlankLine, hdecode] at h
    exact nomatch h
  | some text =>
    rw [isBlankLine_of_decode hdecode] at h
    refine ⟨text, rfl, ?_⟩
    intro roster
    simp only [Roster.sanitizeLine, h, if_true]

variable {link : String → String → Prop} {roster rival : Roster}

/-- Lines that are alike are text, are sanitized alike and leave the rosters
alike. -/
theorem sanitizeLine_alike (hlink : Relator.BiUnique link) (hroster : roster.Alike link rival)
    (h : LinesAlike line other)
    (htenants : ∀ tenant counterpart, tenantIn? line = some tenant →
      tenantIn? other = some counterpart → link tenant counterpart) :
    ∃ text text', decode? line = some text ∧ decode? other = some text' ∧
      (roster.sanitizeLine text).1 = (rival.sanitizeLine text').1 ∧
      (roster.sanitizeLine text).2.Alike link (rival.sanitizeLine text').2 := by
  cases h with
  | blank hline hother =>
    obtain ⟨text, hdecode, hblank⟩ := exists_of_isBlankLine hline
    obtain ⟨text', hdecode', hblank'⟩ := exists_of_isBlankLine hother
    refine ⟨text, text', hdecode, hdecode', ?_, ?_⟩
    · rw [hblank, hblank']
    · rw [hblank, hblank']
      exact hroster
  | @objects members others hline hother halike =>
    obtain ⟨text, hdecode, hread⟩ := exists_of_objectIn? hline
    obtain ⟨text', hdecode', hread'⟩ := exists_of_objectIn? hother
    have hpairs : ∀ tenant counterpart, tenantOf? members = some tenant →
        tenantOf? others = some counterpart → link tenant counterpart := by
      intro tenant counterpart htenant hcounterpart
      apply htenants
      · rw [tenantIn?, hline]
        exact htenant
      · rw [tenantIn?, hother]
        exact hcounterpart
    obtain ⟨hresult, hnext⟩ := sanitize_alike hlink hroster halike hpairs
    refine ⟨text, text', hdecode, hdecode', ?_, ?_⟩
    · rw [sanitizeLine_of_object roster hread, sanitizeLine_of_object rival hread', hresult]
    · rw [sanitizeLine_of_object roster hread, sanitizeLine_of_object rival hread']
      exact hnext

end

/-! ## Two runs -/

section

variable {link : String → String → Prop}

/-- Two lines that are alike, and whose tenants correspond to each other. -/
def LinesLinked (link : String → String → Prop) (line other : List UInt8) : Prop :=
  LinesAlike line other ∧ ∀ tenant counterpart, tenantIn? line = some tenant →
    tenantIn? other = some counterpart → link tenant counterpart

theorem sanitizeLines_alike (hlink : Relator.BiUnique link) {roster rival : Roster} {number : Nat}
    {lines others : List (List UInt8)} (hroster : roster.Alike link rival)
    (h : List.Forall₂ (LinesLinked link) lines others) :
    sanitizeLines roster number lines = sanitizeLines rival number others := by
  induction h generalizing roster rival number with
  | nil => rfl
  | cons hlines _ ih =>
    obtain ⟨text, text', hdecode, hdecode', hresult, hnext⟩ :=
      sanitizeLine_alike hlink hroster hlines.1 hlines.2
    cases hline : (roster.sanitizeLine text).1 with
    | error problem =>
      have hother : (rival.sanitizeLine text').1 = .error problem := hresult.symm.trans hline
      rw [sanitizeLines_cons_of_fails (.problem hdecode hline),
        sanitizeLines_cons_of_fails (.problem hdecode' hother)]
    | ok record =>
      have hother : (rival.sanitizeLine text').1 = .ok record := hresult.symm.trans hline
      rw [sanitizeLines_cons_of_ok hdecode hline, sanitizeLines_cons_of_ok hdecode' hother,
        ih hnext]

end

/-- Two tenants stand in the same line, one in each stream. -/
def Correspond (bytes others : List UInt8) (tenant counterpart : String) : Prop :=
  ∃ i, tenantAt? bytes i = some tenant ∧ tenantAt? others i = some counterpart

namespace StreamsAlike

variable {bytes others : List UInt8}

/-- In streams that are alike, tenants correspond to each other one to one. -/
theorem biUnique (h : StreamsAlike bytes others) : Relator.BiUnique (Correspond bytes others) := by
  constructor
  · rintro tenant tenant' counterpart ⟨i, hi, hi'⟩ ⟨j, hj, hj'⟩
    have hsame : tenantAt? bytes i = tenantAt? bytes j := by
      apply (h.tenants i j (by simp [hi]) (by simp [hj])).mpr
      rw [hi', hj']
    rw [hi, hj] at hsame
    exact Option.some.inj hsame
  · rintro tenant counterpart counterpart' ⟨i, hi, hi'⟩ ⟨j, hj, hj'⟩
    have hsame : tenantAt? others i = tenantAt? others j := by
      apply (h.tenants i j (by simp [hi]) (by simp [hj])).mp
      rw [hi, hj]
    rw [hi', hj'] at hsame
    exact Option.some.inj hsame

theorem linked (h : StreamsAlike bytes others) :
    List.Forall₂ (LinesLinked (Correspond bytes others)) (byteLines bytes) (byteLines others) := by
  rw [List.forall₂_iff_get]
  refine ⟨h.lines.length_eq, ?_⟩
  intro i hi hi'
  refine ⟨h.lines.get hi hi', ?_⟩
  intro tenant counterpart htenant hcounterpart
  refine ⟨i, ?_, ?_⟩
  · rw [tenantAt?, List.getElem?_eq_getElem hi]
    exact htenant
  · rw [tenantAt?, List.getElem?_eq_getElem hi']
    exact hcounterpart

end StreamsAlike

/-- Streams that differ in tenants' names and in fields of no account, in the
order of members, in escapes and in white space only are sanitized to the same
output, with the same number of records or the same error. -/
theorem sanitize_of_alike {bytes others : List UInt8} (h : StreamsAlike bytes others) :
    (sanitize bytes).output = (sanitize others).output ∧
      (sanitize bytes).result = (sanitize others).result := by
  have hrun : sanitize bytes = sanitize others :=
    sanitizeLines_alike h.biUnique Roster.Alike.start h.linked
  rw [hrun]
  exact ⟨rfl, rfl⟩

/-- A stream of lines of text. -/
def streamOf (texts : List String) : List UInt8 :=
  terminated (texts.map fun text => encode text.toList)

theorem byteLines_streamOf {texts : List String} (h : ∀ text ∈ texts, '\n' ∉ text.toList) :
    byteLines (streamOf texts) = texts.map fun text => encode text.toList := by
  have hlines : ∀ line ∈ texts.map fun text => encode text.toList, 10 ∉ line := by
    rw [List.forall_mem_map]
    intro text htext
    rw [Text.mem_encode_newline_iff]
    exact h text htext
  have hbytes := Text.byteLines_terminated_append hlines []
  rw [List.append_nil] at hbytes
  rw [streamOf, hbytes]
  exact List.append_nil _

theorem tenantAt?_streamOf {texts : List String} {objects : List (Option Members)}
    (h : ∀ text ∈ texts, '\n' ∉ text.toList)
    (hobjects : (texts.map fun text => objectIn? (encode text.toList)) = objects) (index : Nat) :
    tenantAt? (streamOf texts) index = objects[index]?.join.bind tenantOf? := by
  rw [tenantAt?, byteLines_streamOf h, ← hobjects, List.getElem?_map, List.getElem?_map]
  cases texts[index]? with
  | none => rfl
  | some text => rfl

/-- A fuzz record, a blank line and a throughput record that lacks its fields. -/
def plainTexts : List String :=
  ["\x7b\"scenario\":\"fuzz\",\"tenant\":\"alpha\",\"operation\":\"plan\",\"request_count\":3,"
      ++ "\"budget_bytes\":64,\"overflow_expected\":false\x7d",
    "",
    "\x7b\"scenario\":\"quota-throughput\",\"tenant\":\"beta\"\x7d"]

/-- The same with other tenants, the members in another order, an escape, white
space and a field that no scenario has. -/
def disguisedTexts : List String :=
  [" \x7b\"tenant\":\"gamma\",\"note\":[1],\"operation\":\"\\u0070lan\",\"request_count\":3,"
      ++ "\"budget_bytes\": 64,\"overflow_expected\":false,\"scenario\":\"fuzz\"\x7d",
    " ",
    "\x7b\"tenant\":\"delta\",\"scenario\":\"quota-throughput\"\x7d"]

/-- The members of the two fuzz records. -/
def alphaMembers : Members :=
  [("scenario", .string "fuzz"), ("tenant", .string "alpha"), ("operation", .string "plan"),
    ("request_count", .number (.ofNat 3)), ("budget_bytes", .number (.ofNat 64)),
    ("overflow_expected", .bool false)]

@[inherit_doc alphaMembers]
def gammaMembers : Members :=
  [("tenant", .string "gamma"), ("note", .array [.number (.ofNat 1)]),
    ("operation", .string "plan"), ("request_count", .number (.ofNat 3)),
    ("budget_bytes", .number (.ofNat 64)), ("overflow_expected", .bool false),
    ("scenario", .string "fuzz")]

/-- The members of the two throughput records. -/
def betaMembers : Members :=
  [("scenario", .string "quota-throughput"), ("tenant", .string "beta")]

@[inherit_doc betaMembers]
def deltaMembers : Members :=
  [("tenant", .string "delta"), ("scenario", .string "quota-throughput")]

theorem objectIn?_plain : (plainTexts.map fun text => objectIn? (encode text.toList)) =
    [some alphaMembers, none, some betaMembers] := by
  simp only [plainTexts, List.map_cons, List.map_nil, objectIn?, Text.decode?_encode,
    Option.map_some]
  cbv

theorem objectIn?_disguised : (disguisedTexts.map fun text => objectIn? (encode text.toList)) =
    [some gammaMembers, none, some deltaMembers] := by
  simp only [disguisedTexts, List.map_cons, List.map_nil, objectIn?, Text.decode?_encode,
    Option.map_some]
  cbv

theorem isBlankLine_blank : isBlankLine (encode []) = true ∧ isBlankLine (encode [' ']) = true := by
  rw [isBlankLine_of_decode (Text.decode?_encode _), isBlankLine_of_decode (Text.decode?_encode _)]
  decide

theorem streamsAlike_disguised : StreamsAlike (streamOf plainTexts) (streamOf disguisedTexts) := by
  have hplain : ∀ text ∈ plainTexts, '\n' ∉ text.toList := by decide +kernel
  have hdisguised : ∀ text ∈ disguisedTexts, '\n' ∉ text.toList := by decide +kernel
  constructor
  · have hobjects := objectIn?_plain
    have hobjects' := objectIn?_disguised
    rw [byteLines_streamOf hplain, byteLines_streamOf hdisguised]
    simp only [plainTexts, disguisedTexts, List.map_cons, List.map_nil, List.cons.injEq,
      and_true] at hobjects hobjects'
    exact .cons (.objects hobjects.1 hobjects'.1 (by decide +kernel))
      (.cons (.blank isBlankLine_blank.1 isBlankLine_blank.2)
        (.cons (.objects hobjects.2.2 hobjects'.2.2 (by decide +kernel)) .nil))
  · have halpha : tenantOf? alphaMembers = some "alpha" := by decide +kernel
    have hgamma : tenantOf? gammaMembers = some "gamma" := by decide +kernel
    have hbeta : tenantOf? betaMembers = some "beta" := by decide +kernel
    have hdelta : tenantOf? deltaMembers = some "delta" := by decide +kernel
    intro i j
    simp only [tenantAt?_streamOf hplain objectIn?_plain,
      tenantAt?_streamOf hdisguised objectIn?_disguised]
    rcases i with _ | _ | _ | i <;> rcases j with _ | _ | _ | j <;>
      simp [halpha, hgamma, hbeta, hdelta]

theorem sanitize_disguised :
    (sanitize (streamOf plainTexts)).output = (sanitize (streamOf disguisedTexts)).output ∧
      (sanitize (streamOf plainTexts)).result = (sanitize (streamOf disguisedTexts)).result :=
  sanitize_of_alike streamsAlike_disguised

end GoldenFixtures.Archive
