import Mathlib.Data.List.Nodup
import GoldenFixtures.Archive.Record
import GoldenFixtures.Proofs.Decimal.Digits

/-!
# The aliases of a run

A roster may be asked for the alias of a tenant, and to sanitize a line or a
record.  Whatever it is asked, its aliases are those of the tenants that were
presented, numbered in the order of their first appearance.

There are four groups.

* The requests.  `Request.tenant?` says which tenant a request presents, without
  the roster.
* One request.  `sanitize_cases` lists what can become of a record, and
  `answersTo` what can become of a request.
* The invariant.  `Roster.Lists` ties the aliases to the tenants presented so
  far; `Roster.Lists.answer` is its step.  An alias that was given stays
  (`Roster.given?_after_of_given`).
* The run.  `aliases_of_requests` puts these together.
-/

namespace GoldenFixtures.Archive

open Json (Value Members)

/-! ## Requests -/

/-- What a roster is asked.  The numbers of lines, which only label errors, are
left out. -/
inductive Request where
  | tenant (name : String)
  | line (text : List Char)
  | record (value : Value)

/-- What a roster answers: an alias, or what became of a record.  A blank line
has no record. -/
inductive Answer where
  | named (text : String)
  | sanitized (result : Except Problem (Option Record))

/-- The answer to a request, and the roster after it. -/
def Roster.answer (roster : Roster) : Request → Answer × Roster
  | .tenant name => (.named (roster.aliasFor name), roster.meet name)
  | .line text => (.sanitized (roster.sanitizeLine text).1, (roster.sanitizeLine text).2)
  | .record value => (.sanitized ((roster.sanitize value).1.map some), (roster.sanitize value).2)

/-- The roster after requests. -/
def Roster.after (roster : Roster) (requests : List Request) : Roster :=
  requests.foldl (fun roster request => (roster.answer request).2) roster

/-- The tenant that a value presents: it is an object with a supported scenario
and a tenant that is a string and not empty. -/
def presented? : Value → Option String
  | .object members =>
    match Members.get? members "scenario", Members.get? members "tenant" with
    | some (.string scenario), some (.string tenant) =>
      if (scenario = "fuzz" ∨ scenario = "quota-throughput") ∧ tenant ≠ "" then some tenant
      else none
    | _, _ => none
  | _ => none

/-- The tenant that a line presents: it is not blank, and the value that it
holds presents one. -/
def presentedByLine? (text : List Char) : Option String :=
  if Text.trim text = [] then none
  else
    match Value.read (Text.trim text) with
    | .ok value => presented? value
    | .error _ => none

/-- The tenant that a request presents, whatever is wrong with the rest of it. -/
def Request.tenant? : Request → Option String
  | .tenant name => some name
  | .line text => presentedByLine? text
  | .record value => presented? value

/-- The alias that an answer carries. -/
def Answer.carried? : Answer → Option String
  | .named text => some text
  | .sanitized (.ok (some written)) => some written.tenantAlias
  | _ => none

/-- The problems of records that present no tenant. -/
def Problem.IsNameless : Problem → Prop
  | .invalidJson _ | .notAnObject | .unsupportedScenario _ | .invalidTenant => True
  | _ => False

/-- The answers to requests that present no tenant: the line is blank, or there
is a problem with what comes before the tenant. -/
def Answer.IsNameless : Answer → Prop
  | .sanitized (.ok none) => True
  | .sanitized (.error problem) => problem.IsNameless
  | _ => False

/-! ## One record -/

/-- Whatever fails here, it is not for want of a tenant. -/
def FailsNamed {α : Type} (result : Except Problem α) : Prop :=
  ∀ problem, result = .error problem → ¬ problem.IsNameless

section

variable {α β : Type}

theorem FailsNamed.ok (a : α) : FailsNamed (.ok a) := by
  intro problem h
  exact nomatch h

theorem FailsNamed.error {problem : Problem} (h : ¬ problem.IsNameless) :
    FailsNamed (.error problem : Except Problem α) := by
  intro other hother
  cases hother
  exact h

theorem FailsNamed.bind {result : Except Problem α} {next : α → Except Problem β}
    (h : FailsNamed result) (hnext : ∀ a, FailsNamed (next a)) : FailsNamed (result >>= next) := by
  cases result with
  | error problem => exact .error (h problem rfl)
  | ok a => exact hnext a

variable (members : Members) (name : Field)

theorem failsNamed_field : FailsNamed (field members name) := by
  unfold field
  split
  · exact .ok _
  · exact .error id

theorem failsNamed_stringField : FailsNamed (stringField members name) := by
  refine (failsNamed_field members name).bind ?_
  intro value
  split
  · exact .ok _
  · exact .error id

theorem failsNamed_integerField : FailsNamed (integerField members name) := by
  refine (failsNamed_field members name).bind ?_
  intro value
  split
  · split
    · exact .ok _
    · exact .error id
  · exact .error id

theorem failsNamed_booleanField : FailsNamed (booleanField members name) := by
  refine (failsNamed_field members name).bind ?_
  intro value
  split
  · exact .ok _
  · exact .error id

theorem failsNamed_numberField : FailsNamed (numberField members name) := by
  refine (failsNamed_field members name).bind ?_
  intro value
  split
  · split
    · exact .ok _
    · exact .error id
  · exact .error id

theorem failsNamed_checkNonNegative (value : Int) : FailsNamed (checkNonNegative name value) := by
  unfold checkNonNegative
  split
  · exact .error id
  · exact .ok _

theorem failsNamed_ratio (negative : Bool) (magnitude : Binary64.Magnitude) :
    FailsNamed (ratio negative magnitude) := by
  unfold ratio
  split
  · exact .error id
  · split
    · exact .ok _
    · exact .error id

theorem failsNamed_fuzzBody : FailsNamed (fuzzBody members) := by
  refine (failsNamed_stringField members .operation).bind ?_
  intro word
  refine (failsNamed_integerField members .requestCount).bind ?_
  intro requestCount
  refine (failsNamed_integerField members .budgetBytes).bind ?_
  intro budgetBytes
  refine (failsNamed_booleanField members .overflowExpected).bind ?_
  intro overflowExpected
  refine (failsNamed_checkNonNegative .requestCount requestCount).bind ?_
  intro _
  refine (failsNamed_checkNonNegative .budgetBytes budgetBytes).bind ?_
  intro _
  split
  · exact .ok _
  · exact .error id

theorem failsNamed_throughputBody : FailsNamed (throughputBody members) := by
  refine (failsNamed_integerField members .windowSeconds).bind ?_
  intro windowSeconds
  refine (failsNamed_integerField members .requests).bind ?_
  intro requests
  refine (failsNamed_integerField members .averageLatency).bind ?_
  intro averageLatency
  refine (failsNamed_numberField members .saturationRatio).bind ?_
  rintro ⟨negative, magnitude⟩
  simp only
  split
  · exact .error id
  refine (failsNamed_checkNonNegative .requests requests).bind ?_
  intro _
  refine (failsNamed_checkNonNegative .averageLatency averageLatency).bind ?_
  intro _
  refine (failsNamed_ratio negative magnitude).bind ?_
  intro saturationRatio
  exact .ok _

/-- What is wrong with the fields of a scenario is never that a record presents
no tenant. -/
theorem failsNamed_body (scenario : Scenario) : FailsNamed (scenario.body members) := by
  cases scenario with
  | fuzz => exact failsNamed_fuzzBody members
  | throughput => exact failsNamed_throughputBody members

end

section

variable {members : Members} {problem : Problem}

theorem presented?_eq_some_iff {tenant : String} :
    presented? (.object members) = some tenant ↔
      (∃ word, Members.get? members "scenario" = some (.string word) ∧
        (word = "fuzz" ∨ word = "quota-throughput")) ∧
      Members.get? members "tenant" = some (.string tenant) ∧ tenant ≠ "" := by
  rw [presented?]
  split
  · rename_i word found hscenario htenant
    rw [hscenario, htenant]
    constructor
    · intro h
      obtain ⟨⟨hword, hne⟩, heq⟩ := Option.ite_none_right_eq_some.mp h
      cases heq
      exact ⟨⟨word, rfl, hword⟩, rfl, hne⟩
    · rintro ⟨⟨other, hother, hword⟩, hfound, hne⟩
      cases hother
      cases hfound
      exact if_pos ⟨hword, hne⟩
  · rename_i hother
    constructor
    · intro h
      exact nomatch h
    · rintro ⟨⟨word, hscenario, _⟩, htenant, _⟩
      exact absurd htenant (hother word tenant hscenario)

theorem readScenario_ok {scenario : Scenario} (h : readScenario members = .ok scenario) :
    Members.get? members "scenario" = some (.string scenario.name) := by
  unfold readScenario at h
  split at h
  · rename_i word hword
    unfold Scenario.ofName? at h
    by_cases hfuzz : word = "fuzz"
    · simp only [hfuzz, if_true] at h
      cases h
      rw [hword, hfuzz]
      rfl
    · by_cases hthroughput : word = "quota-throughput"
      · simp only [hthroughput, if_true] at h
        cases h
        rw [hword, hthroughput]
        rfl
      · simp only [hfuzz, hthroughput, if_false] at h
        exact nomatch h
  · exact nomatch h
  · exact nomatch h

theorem readScenario_error (h : readScenario members = .error problem) :
    problem.IsNameless ∧ ∀ word, Members.get? members "scenario" = some (.string word) →
      ¬ (word = "fuzz" ∨ word = "quota-throughput") := by
  unfold readScenario at h
  split at h
  · rename_i word hword
    unfold Scenario.ofName? at h
    by_cases hfuzz : word = "fuzz"
    · simp [hfuzz] at h
    · by_cases hthroughput : word = "quota-throughput"
      · simp [hthroughput] at h
      · simp only [hfuzz, hthroughput, if_false] at h
        cases h
        refine ⟨trivial, ?_⟩
        intro other hother
        rw [hword] at hother
        cases hother
        exact not_or.mpr ⟨hfuzz, hthroughput⟩
  · rename_i value hother hvalue
    cases h
    refine ⟨trivial, ?_⟩
    intro word hword
    rw [hvalue] at hword
    exact absurd (Option.some.inj hword) (hother word)
  · rename_i hnone
    cases h
    refine ⟨trivial, ?_⟩
    intro word hword
    rw [hnone] at hword
    exact nomatch hword

theorem readTenant_ok {tenant : String} (h : readTenant members = .ok tenant) :
    Members.get? members "tenant" = some (.string tenant) ∧ tenant ≠ "" := by
  unfold readTenant at h
  split at h
  · rename_i found hfound
    split at h
    · exact nomatch h
    · rename_i hne
      cases h
      exact ⟨hfound, hne⟩
  · exact nomatch h

theorem readTenant_error (h : readTenant members = .error problem) :
    problem.IsNameless ∧
      ∀ tenant, Members.get? members "tenant" = some (.string tenant) → tenant = "" := by
  unfold readTenant at h
  split at h
  · rename_i found hfound
    split at h
    · rename_i hempty
      cases h
      refine ⟨trivial, ?_⟩
      intro tenant htenant
      rw [hfound] at htenant
      cases htenant
      exact hempty
    · exact nomatch h
  · rename_i hother
    cases h
    refine ⟨trivial, ?_⟩
    intro tenant htenant
    exact absurd htenant (hother tenant)

end

theorem scenario_name_supported (scenario : Scenario) :
    scenario.name = "fuzz" ∨ scenario.name = "quota-throughput" := by
  cases scenario with
  | fuzz => exact Or.inl rfl
  | throughput => exact Or.inr rfl

/-- The head of a record is read exactly if the record presents a tenant. -/
theorem readHead_cases (value : Value) :
    (∃ scenario tenant members, readHead value = .ok (scenario, tenant, members) ∧
        presented? value = some tenant) ∨
      ∃ problem, readHead value = .error problem ∧ presented? value = none ∧
        problem.IsNameless := by
  cases value with
  | object members =>
    cases hscenario : readScenario members with
    | error problem =>
      obtain ⟨hnameless, hword⟩ := readScenario_error hscenario
      have hnone : presented? (.object members) = none := by
        rw [Option.eq_none_iff_forall_ne_some]
        intro tenant h
        obtain ⟨⟨word, hget, hsupported⟩, _⟩ := presented?_eq_some_iff.mp h
        exact hword word hget hsupported
      exact Or.inr ⟨problem, by simp [readHead, hscenario, bind, Except.bind], hnone, hnameless⟩
    | ok scenario =>
      cases htenant : readTenant members with
      | error problem =>
        obtain ⟨hnameless, hempty⟩ := readTenant_error htenant
        have hnone : presented? (.object members) = none := by
          rw [Option.eq_none_iff_forall_ne_some]
          intro tenant h
          obtain ⟨_, hget, hne⟩ := presented?_eq_some_iff.mp h
          exact hne (hempty tenant hget)
        exact Or.inr ⟨problem, by simp [readHead, hscenario, htenant, bind, Except.bind], hnone,
          hnameless⟩
      | ok tenant =>
        have hsome : presented? (.object members) = some tenant :=
          presented?_eq_some_iff.mpr ⟨⟨scenario.name, readScenario_ok hscenario,
            scenario_name_supported scenario⟩, readTenant_ok htenant⟩
        exact Or.inl ⟨scenario, tenant, members,
          by simp [readHead, hscenario, htenant, bind, Except.bind, pure, Except.pure], hsome⟩
  | _ => exact Or.inr ⟨.notAnObject, rfl, rfl, trivial⟩

/-! ## The answer to one request -/

/-- A value that presents a tenant puts it into the roster, and a record of it
carries the tenant's alias; another value leaves the roster as it is. -/
theorem sanitize_cases (roster : Roster) (value : Value) :
    (∃ tenant, presented? value = some tenant ∧ (roster.sanitize value).2 = roster.meet tenant ∧
        (∀ problem, (roster.sanitize value).1 = .error problem → ¬ problem.IsNameless) ∧
        ∀ written, (roster.sanitize value).1 = .ok written →
          written.tenantAlias = roster.aliasFor tenant) ∨
      (presented? value = none ∧ (roster.sanitize value).2 = roster ∧
        ∃ problem, (roster.sanitize value).1 = .error problem ∧ problem.IsNameless) := by
  rcases readHead_cases value with
    ⟨scenario, tenant, members, hhead, hpresented⟩ | ⟨problem, hhead, hpresented, hnameless⟩
  · left
    have hanswer : roster.sanitize value =
        ((scenario.body members).map fun body => ⟨roster.aliasFor tenant, body⟩,
          roster.meet tenant) := by
      unfold Roster.sanitize
      rw [hhead]
    rw [hanswer]
    refine ⟨tenant, hpresented, rfl, ?_, ?_⟩
    · intro problem h
      cases hbody : scenario.body members with
      | error other =>
        rw [hbody] at h
        cases h
        exact failsNamed_body members scenario _ hbody
      | ok body =>
        rw [hbody] at h
        exact nomatch h
    · intro written h
      cases hbody : scenario.body members with
      | error other =>
        rw [hbody] at h
        exact nomatch h
      | ok body =>
        rw [hbody] at h
        cases h
        rfl
  · right
    have hanswer : roster.sanitize value = (.error problem, roster) := by
      unfold Roster.sanitize
      rw [hhead]
    rw [hanswer]
    exact ⟨hpresented, rfl, problem, rfl, hnameless⟩

theorem Answer.IsNameless.carried?_eq_none {answer : Answer} (h : answer.IsNameless) :
    answer.carried? = none := by
  unfold IsNameless at h
  split at h
  · rfl
  · rfl
  · exact h.elim

/-- What can become of a request.  Either it presents a tenant, who is in the
roster from then on and whose alias the answer may carry, or the answer says
that there is none and the roster stays as it is. -/
def AnswersTo (roster : Roster) (request : Request) : Prop :=
  (∃ tenant, request.tenant? = some tenant ∧ (roster.answer request).2 = roster.meet tenant ∧
      ¬ (roster.answer request).1.IsNameless ∧
      ∀ text, (roster.answer request).1.carried? = some text → text = roster.aliasFor tenant) ∨
    (request.tenant? = none ∧ (roster.answer request).2 = roster ∧
      (roster.answer request).1.IsNameless)

theorem answersTo_record (roster : Roster) (value : Value) :
    AnswersTo roster (.record value) := by
  rcases sanitize_cases roster value with
    ⟨tenant, hpresented, hroster, herror, hwritten⟩ | ⟨hpresented, hroster, problem, herror, hname⟩
  · refine Or.inl ⟨tenant, hpresented, hroster, ?_, ?_⟩
    · intro h
      cases hresult : (roster.sanitize value).1 with
      | error problem =>
        simp only [Roster.answer, hresult] at h
        exact herror problem hresult h
      | ok written =>
        simp only [Roster.answer, hresult] at h
        exact h
    · intro text h
      cases hresult : (roster.sanitize value).1 with
      | error problem =>
        simp only [Roster.answer, hresult] at h
        exact nomatch h
      | ok written =>
        simp only [Roster.answer, hresult] at h
        rw [← Option.some.inj h]
        exact hwritten written hresult
  · refine Or.inr ⟨hpresented, hroster, ?_⟩
    simp only [Roster.answer, herror]
    exact hname

/-- A line is answered as the value that it holds. -/
theorem answer_line_of_read {roster : Roster} {text : List Char} {value : Value}
    (hblank : Text.trim text ≠ []) (hread : Value.read (Text.trim text) = .ok value) :
    roster.answer (.line text) = roster.answer (.record value) := by
  have hempty : (Text.trim text).isEmpty = false := List.isEmpty_eq_false_iff.mpr hblank
  simp only [Roster.answer, Roster.sanitizeLine, hempty, hread, Bool.false_eq_true, if_false]

theorem answersTo_line (roster : Roster) (text : List Char) : AnswersTo roster (.line text) := by
  by_cases hblank : Text.trim text = []
  · refine Or.inr ⟨if_pos hblank, ?_, ?_⟩
    · simp [Roster.answer, Roster.sanitizeLine, hblank]
    · simp [Roster.answer, Roster.sanitizeLine, hblank, Answer.IsNameless]
  · have hempty : (Text.trim text).isEmpty = false := List.isEmpty_eq_false_iff.mpr hblank
    have htenant : (Request.line text).tenant? =
        match Value.read (Text.trim text) with
        | .ok value => presented? value
        | .error _ => none := if_neg hblank
    cases hread : Value.read (Text.trim text) with
    | error error =>
      rw [hread] at htenant
      refine Or.inr ⟨htenant, ?_, ?_⟩
      · simp [Roster.answer, Roster.sanitizeLine, hempty, hread]
      · simp [Roster.answer, Roster.sanitizeLine, hempty, hread, Answer.IsNameless,
          Problem.IsNameless]
    | ok value =>
      rw [hread] at htenant
      have hrecord := answersTo_record roster value
      unfold AnswersTo at hrecord ⊢
      rw [answer_line_of_read hblank hread, htenant]
      exact hrecord

theorem answersTo (roster : Roster) (request : Request) : AnswersTo roster request := by
  cases request with
  | tenant name =>
    refine Or.inl ⟨name, rfl, rfl, id, ?_⟩
    intro text h
    exact (Option.some.inj h).symm
  | line text => exact answersTo_line roster text
  | record value => exact answersTo_record roster value

/-! ## Numbered aliases -/

/-- The alias with a number is `tenant-` and the number, in decimal with at
least three digits. -/
theorem aliasOf_eq (number : Nat) :
    aliasOf number = "tenant-" ++ String.ofList ((toString number).toList.leftpad 3 '0') := by
  rw [aliasOf, Digits.padded_eq_leftpad]

/-- No two numbers have the same alias, however many digits they have. -/
theorem aliasOf_injective : Function.Injective aliasOf := by
  intro m n h
  have hlist : (aliasOf m).toList = (aliasOf n).toList := by rw [h]
  unfold aliasOf at hlist
  simp only [String.toList_append, String.toList_ofList] at hlist
  exact Digits.padded_injective 3 (List.append_cancel_left hlist)

/-- Tenants, each with the alias of its place, counted from one. -/
def numbered (tenants : List String) : List (String × String) :=
  (tenants.zipIdx 1).map fun entry => (entry.1, aliasOf entry.2)

theorem map_fst_numbered (tenants : List String) : (numbered tenants).map Prod.fst = tenants := by
  unfold numbered
  rw [List.map_map]
  exact List.zipIdx_map_fst 1 tenants

theorem length_numbered (tenants : List String) : (numbered tenants).length = tenants.length := by
  rw [← List.length_map (f := Prod.fst), map_fst_numbered]

theorem numbered_append_singleton (tenants : List String) (tenant : String) :
    numbered (tenants ++ [tenant]) =
      numbered tenants ++ [(tenant, aliasOf (tenants.length + 1))] := by
  unfold numbered
  rw [List.zipIdx_append, List.map_append, Nat.add_comm 1]
  rfl

theorem nodup_map_snd_numbered (tenants : List String) :
    ((numbered tenants).map Prod.snd).Nodup := by
  have hsnd : (numbered tenants).map Prod.snd = (List.range' 1 tenants.length).map aliasOf := by
    rw [← List.zipIdx_map_snd 1 tenants, numbered, List.map_map, List.map_map]
    rfl
  have hrange : (List.range' 1 tenants.length).Nodup := List.nodup_range'
  rw [hsnd]
  exact hrange.map aliasOf_injective

/-! ## The invariant -/

/-- The aliases in a roster are those of the tenants presented so far, numbered
in the order of their first appearance. -/
def Roster.Lists (roster : Roster) (presented : List String) : Prop :=
  roster.aliases = numbered presented.eraseDups

namespace Roster.Lists

variable {roster : Roster} {presented : List String} {tenant : String}

theorem start : Roster.Lists {} [] :=
  rfl

theorem given?_eq_none_iff (h : roster.Lists presented) :
    roster.given? tenant = none ↔ tenant ∉ presented := by
  have htenants : roster.aliases.map Prod.fst = presented.eraseDups := by
    rw [h, map_fst_numbered]
  rw [← List.mem_eraseDups, ← htenants]
  unfold Roster.given?
  rw [List.lookup_eq_none_iff]
  simp only [bne_iff_ne, ne_eq, List.mem_map, not_exists, not_and]
  constructor
  · intro hne entry hentry heq
    exact hne entry hentry heq.symm
  · intro hne entry hentry heq
    exact hne entry hentry heq.symm

theorem eraseDups_append_singleton (presented : List String) (tenant : String) :
    (presented ++ [tenant]).eraseDups =
      if tenant ∈ presented then presented.eraseDups else presented.eraseDups ++ [tenant] := by
  rw [List.eraseDups_append]
  by_cases hmem : tenant ∈ presented
  · simp [List.removeAll, hmem]
  · simp [List.removeAll, hmem, List.eraseDups_cons]

/-- A tenant that is met is listed: in its place if it was presented before, and
else at the end with the next number. -/
theorem meet (h : roster.Lists presented) (tenant : String) :
    (roster.meet tenant).Lists (presented ++ [tenant]) := by
  unfold Roster.Lists Roster.meet
  rw [eraseDups_append_singleton]
  cases hgiven : roster.given? tenant with
  | none =>
    have hnew : tenant ∉ presented := h.given?_eq_none_iff.mp hgiven
    have hlength : roster.aliases.length = presented.eraseDups.length := by
      rw [h, length_numbered]
    rw [if_neg hnew, numbered_append_singleton, ← hlength, ← h]
    rfl
  | some text =>
    have hknown : tenant ∈ presented := by
      by_contra hnew
      rw [h.given?_eq_none_iff.mpr hnew] at hgiven
      exact nomatch hgiven
    rw [if_pos hknown]
    exact h

/-- One request keeps the invariant, with the tenant that it presents. -/
theorem answer (h : roster.Lists presented) (request : Request) :
    (roster.answer request).2.Lists (presented ++ request.tenant?.toList) := by
  rcases answersTo roster request with ⟨tenant, htenant, hroster, -⟩ | ⟨htenant, hroster, -⟩
  · rw [htenant, hroster]
    exact h.meet tenant
  · rw [htenant, hroster, Option.toList_none, List.append_nil]
    exact h

end Roster.Lists

theorem Roster.after_cons (roster : Roster) (request : Request) (requests : List Request) :
    roster.after (request :: requests) = (roster.answer request).2.after requests :=
  rfl

theorem Roster.after_append (roster : Roster) (earlier later : List Request) :
    roster.after (earlier ++ later) = (roster.after earlier).after later :=
  List.foldl_append

/-- The tenants that requests present, in order. -/
def presentedBy (requests : List Request) : List String := requests.filterMap Request.tenant?

theorem Roster.Lists.after {roster : Roster} {presented : List String}
    (h : roster.Lists presented) (requests : List Request) :
    (roster.after requests).Lists (presented ++ presentedBy requests) := by
  induction requests generalizing roster presented with
  | nil =>
    rw [presentedBy, List.filterMap_nil, List.append_nil]
    exact h
  | cons request requests ih =>
    have hsplit : presented ++ presentedBy (request :: requests) =
        (presented ++ request.tenant?.toList) ++ presentedBy requests := by
      unfold presentedBy
      cases htenant : request.tenant? with
      | none => simp [htenant]
      | some tenant => simp [htenant]
    rw [Roster.after_cons, hsplit]
    exact ih (h.answer request)

/-! ## Aliases that stay -/

section

variable {roster : Roster} {tenant text : String}

theorem Roster.given?_meet_of_given (h : roster.given? tenant = some text) (other : String) :
    (roster.meet other).given? tenant = some text := by
  unfold Roster.meet
  split
  · exact h
  · unfold Roster.given? at h ⊢
    rw [List.lookup_append, h, Option.some_or]

/-- A tenant that was met has the alias that it was told. -/
theorem Roster.given?_meet_self (roster : Roster) (tenant : String) :
    (roster.meet tenant).given? tenant = some (roster.aliasFor tenant) := by
  unfold Roster.meet Roster.aliasFor
  cases hgiven : roster.given? tenant with
  | some text => exact hgiven
  | none =>
    unfold Roster.given? at hgiven ⊢
    rw [List.lookup_append, hgiven, Option.none_or]
    simp

theorem Roster.given?_answer_of_given (h : roster.given? tenant = some text) (request : Request) :
    (roster.answer request).2.given? tenant = some text := by
  rcases answersTo roster request with ⟨other, -, hroster, -⟩ | ⟨-, hroster, -⟩
  · rw [hroster]
    exact Roster.given?_meet_of_given h other
  · rw [hroster]
    exact h

/-- An alias that was given stays, whatever is asked afterwards. -/
theorem Roster.given?_after_of_given (h : roster.given? tenant = some text)
    (requests : List Request) : (roster.after requests).given? tenant = some text := by
  induction requests generalizing roster with
  | nil => exact h
  | cons request requests ih =>
    rw [Roster.after_cons]
    exact ih (Roster.given?_answer_of_given h request)

/-- The alias in an answer is that of the tenant that the request presents. -/
theorem Roster.given?_of_carried {request : Request}
    (h : (roster.answer request).1.carried? = some text) :
    ∃ tenant, request.tenant? = some tenant ∧
      (roster.answer request).2.given? tenant = some text := by
  rcases answersTo roster request with ⟨tenant, htenant, hroster, -, hcarried⟩ | ⟨-, -, hnameless⟩
  · refine ⟨tenant, htenant, ?_⟩
    rw [hroster, hcarried text h]
    exact Roster.given?_meet_self roster tenant
  · rw [hnameless.carried?_eq_none] at h
    exact nomatch h

/-- A request that presents no tenant is answered so, and only then the roster
need not change. -/
theorem Roster.isNameless_answer_iff {request : Request} :
    (roster.answer request).1.IsNameless ↔ request.tenant? = none := by
  rcases answersTo roster request with ⟨tenant, htenant, -, hnamed, -⟩ | ⟨htenant, -, hnameless⟩
  · simp [htenant, hnamed]
  · simp [htenant, hnameless]

theorem Roster.answer_snd_of_isNameless {request : Request}
    (h : (roster.answer request).1.IsNameless) : (roster.answer request).2 = roster := by
  rcases answersTo roster request with ⟨-, -, -, hnamed, -⟩ | ⟨-, hroster, -⟩
  · exact absurd h hnamed
  · exact hroster

end

/-! ## The run -/

/-- Whatever requests are made of a new roster, in whatever order and with
whatever success: its aliases are those of the tenants presented, numbered in
the order of their first appearance; no two tenants share one; an alias that was
given stays; every alias that is handed out is that of the tenant presented; and
a request that presents no tenant leaves the roster as it is. -/
theorem aliases_of_requests (requests : List Request) :
    ((Roster.after {} requests).aliases =
        ((requests.filterMap Request.tenant?).eraseDups.zipIdx 1).map fun entry =>
          (entry.1,
            "tenant-" ++ String.ofList ((toString entry.2).toList.leftpad 3 '0'))) ∧
      ((Roster.after {} requests).aliases.map Prod.snd).Nodup ∧
      ∀ earlier request later, requests = earlier ++ request :: later →
        (∀ tenant text, (Roster.after {} earlier).given? tenant = some text →
          (Roster.after {} requests).given? tenant = some text) ∧
        (∀ text, ((Roster.after {} earlier).answer request).1.carried? = some text →
          ∃ tenant, request.tenant? = some tenant ∧
            (Roster.after {} requests).given? tenant = some text) ∧
        (((Roster.after {} earlier).answer request).1.IsNameless ↔ request.tenant? = none) ∧
        (request.tenant? = none →
          Roster.after {} (earlier ++ [request]) = Roster.after {} earlier) := by
  have hlists : (Roster.after {} requests).Lists (presentedBy requests) :=
    Roster.Lists.start.after requests
  refine ⟨?_, ?_, ?_⟩
  · simp only [← aliasOf_eq]
    exact hlists
  · rw [hlists]
    exact nodup_map_snd_numbered _
  · rintro earlier request later rfl
    have hrun : Roster.after {} (earlier ++ request :: later) =
        (((Roster.after {} earlier).answer request).2).after later := by
      rw [Roster.after_append, Roster.after_cons]
    refine ⟨?_, ?_, Roster.isNameless_answer_iff, ?_⟩
    · intro tenant text hgiven
      rw [hrun]
      exact Roster.given?_after_of_given (Roster.given?_answer_of_given hgiven request) later
    · intro text hcarried
      obtain ⟨tenant, htenant, hgiven⟩ := Roster.given?_of_carried hcarried
      rw [hrun]
      exact ⟨tenant, htenant, Roster.given?_after_of_given hgiven later⟩
    · intro hnone
      rw [Roster.after_append]
      exact Roster.answer_snd_of_isNameless (Roster.isNameless_answer_iff.mpr hnone)

end GoldenFixtures.Archive
