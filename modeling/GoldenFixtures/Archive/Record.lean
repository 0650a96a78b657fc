import GoldenFixtures.Archive.Roster
import GoldenFixtures.Json.Binary
import GoldenFixtures.Json.Error
import GoldenFixtures.Json.Reader
import GoldenFixtures.Json.Writer
import GoldenFixtures.Text.Blank

/-!
# Archive records

A record belongs to one of two scenarios, each with its own fields.
`Roster.sanitize` checks a record and keeps the fields of its scenario only,
with the tenant's alias in the tenant's place.  `Problem` lists what may be
wrong, and the first check that fails counts: scenario, tenant, presence and
type of every field, ranges, operation.
-/

namespace GoldenFixtures.Archive

open Json (Value Members)

/-- The scenarios that a record may belong to. -/
inductive Scenario where
  | fuzz
  | throughput
  deriving DecidableEq, Repr

/-- The word for a scenario. -/
def Scenario.name : Scenario → String
  | fuzz => "fuzz"
  | throughput => "quota-throughput"

/-- The scenario that a word names. -/
def Scenario.ofName? (word : String) : Option Scenario :=
  if word = "fuzz" then some fuzz
  else if word = "quota-throughput" then some throughput
  else none

/-- The operations that a fuzz record may exercise. -/
inductive Operation where
  | ingest
  | plan
  | commit
  | audit
  | prune
  deriving DecidableEq, Repr

namespace Operation

/-- The word for an operation. -/
def name : Operation → String
  | ingest => "ingest"
  | plan => "plan"
  | commit => "commit"
  | audit => "audit"
  | prune => "prune"

/-- Every operation. -/
def all : List Operation := [ingest, plan, commit, audit, prune]

/-- The operation that a word names. -/
def ofName? (word : String) : Option Operation := all.find? fun o => o.name == word

end Operation

/-- A field of a scenario. -/
inductive Field where
  | operation
  | requestCount
  | budgetBytes
  | overflowExpected
  | windowSeconds
  | requests
  | averageLatency
  | saturationRatio
  deriving DecidableEq, Repr

/-- The key of a field. -/
def Field.key : Field → String
  | operation => "operation"
  | requestCount => "request_count"
  | budgetBytes => "budget_bytes"
  | overflowExpected => "overflow_expected"
  | windowSeconds => "window_seconds"
  | requests => "requests"
  | averageLatency => "average_latency_ms"
  | saturationRatio => "saturation_ratio"

/-- The type that a field's value has to have. -/
inductive FieldType where
  | string
  | integer
  | boolean
  | number
  deriving DecidableEq, Repr

/-- The word for a type. -/
def FieldType.name : FieldType → String
  | string => "str"
  | integer => "int"
  | boolean => "bool"
  | number => "number"

/-- The range that a field's value has to lie in. -/
inductive Bound where
  | nonNegative
  | positive
  | ratio
  deriving DecidableEq, Repr

/-- The wording of a range. -/
def Bound.message : Bound → String
  | nonNegative => "non-negative"
  | positive => "positive"
  | ratio => "within [0.0, 1.5]"

/-- What is wrong with a record. -/
inductive Problem where
  | invalidJson (error : Json.Error)
  | notAnObject
  | unsupportedScenario (found : String)
  | invalidTenant
  | missingField (field : Field)
  | wrongType (field : Field) (expected : FieldType)
  | outOfRange (field : Field) (bound : Bound)
  | unsupportedOperation (found : String)
  deriving DecidableEq, Repr

/-- The wording of a problem. -/
def Problem.message : Problem → String
  | invalidJson error => "invalid JSON: " ++ error.message
  | notAnObject => "record must be a JSON object"
  | unsupportedScenario found => "unsupported scenario '" ++ found ++ "'"
  | invalidTenant => "tenant must be a non-empty string"
  | missingField field => "missing '" ++ field.key ++ "' field"
  | wrongType field expected => "'" ++ field.key ++ "' must be of type " ++ expected.name
  | outOfRange field bound => field.key ++ " must be " ++ bound.message
  | unsupportedOperation found => "unsupported operation '" ++ found ++ "'"

/-- A ratio in thousandths.  A zero keeps the sign that it was written with. -/
structure Ratio where
  negative : Bool
  thousandths : Nat
  deriving DecidableEq, Repr

/-- The fields of a scenario. -/
inductive Body where
  | fuzz (operation : Operation) (requestCount budgetBytes : Int) (overflowExpected : Bool)
  | throughput (windowSeconds requests averageLatency : Int) (saturationRatio : Ratio)
  deriving DecidableEq, Repr

/-- A sanitized record. -/
structure Record where
  tenantAlias : String
  body : Body
  deriving DecidableEq, Repr

/-! ## Fields -/

/-- The value of a field. -/
def field (members : Members) (field : Field) : Except Problem Value :=
  match Members.get? members field.key with
  | some value => .ok value
  | none => .error (.missingField field)

/-- The string of a field. -/
def stringField (members : Members) (name : Field) : Except Problem String := do
  match ← field members name with
  | .string text => return text
  | _ => .error (.wrongType name .string)

/-- The 64-bit integer of a field. -/
def integerField (members : Members) (name : Field) : Except Problem Int := do
  match ← field members name with
  | .number n =>
    match n.toInt64? with
    | some value => return value
    | none => .error (.wrongType name .integer)
  | _ => .error (.wrongType name .integer)

/-- The boolean of a field. -/
def booleanField (members : Members) (name : Field) : Except Problem Bool := do
  match ← field members name with
  | .bool flag => return flag
  | _ => .error (.wrongType name .boolean)

/-- The number of a field, as its sign and the nearest finite binary number. -/
def numberField (members : Members) (name : Field) :
    Except Problem (Bool × Binary64.Magnitude) := do
  match ← field members name with
  | .number n =>
    match n.magnitude? with
    | some magnitude => return (n.negative, magnitude)
    | none => .error (.wrongType name .number)
  | _ => .error (.wrongType name .number)

/-- Refuses a negative value. -/
def checkNonNegative (name : Field) (value : Int) : Except Problem Unit :=
  if value < 0 then .error (.outOfRange name .nonNegative) else .ok ()

/-- The ratio of a number from zero to one and a half, to the nearest
thousandth. -/
def ratio (negative : Bool) (magnitude : Binary64.Magnitude) : Except Problem Ratio :=
  if (negative && magnitude.significand != 0) || !magnitude.atMost 3 2 then
    .error (.outOfRange .saturationRatio .ratio)
  else
    match magnitude.scaleBy 1000 with
    | some scaled => .ok ⟨negative, scaled.round⟩
    | none => .error (.outOfRange .saturationRatio .ratio)

/-- The fields of a fuzz record. -/
def fuzzBody (members : Members) : Except Problem Body := do
  let word ← stringField members .operation
  let requestCount ← integerField members .requestCount
  let budgetBytes ← integerField members .budgetBytes
  let overflowExpected ← booleanField members .overflowExpected
  checkNonNegative .requestCount requestCount
  checkNonNegative .budgetBytes budgetBytes
  match Operation.ofName? word with
  | some operation => return .fuzz operation requestCount budgetBytes overflowExpected
  | none => .error (.unsupportedOperation word)

/-- The fields of a throughput record. -/
def throughputBody (members : Members) : Except Problem Body := do
  let windowSeconds ← integerField members .windowSeconds
  let requests ← integerField members .requests
  let averageLatency ← integerField members .averageLatency
  let (negative, magnitude) ← numberField members .saturationRatio
  if windowSeconds ≤ 0 then .error (.outOfRange .windowSeconds .positive) else
  checkNonNegative .requests requests
  checkNonNegative .averageLatency averageLatency
  let saturationRatio ← ratio negative magnitude
  return .throughput windowSeconds requests averageLatency saturationRatio

/-! ## Records -/

/-- The scenario of a record. -/
def readScenario (members : Members) : Except Problem Scenario :=
  match Members.get? members "scenario" with
  | some (.string word) =>
    match Scenario.ofName? word with
    | some scenario => .ok scenario
    | none => .error (.unsupportedScenario word)
  | some value => .error (.unsupportedScenario value.toCompact)
  | none => .error (.unsupportedScenario Value.null.toCompact)

/-- The tenant of a record. -/
def readTenant (members : Members) : Except Problem String :=
  match Members.get? members "tenant" with
  | some (.string tenant) => if tenant = "" then .error .invalidTenant else .ok tenant
  | _ => .error .invalidTenant

/-- The scenario, the tenant and the other members of a record. -/
def readHead (value : Value) : Except Problem (Scenario × String × Members) :=
  match value with
  | .object members => do
    let scenario ← readScenario members
    let tenant ← readTenant members
    return (scenario, tenant, members)
  | _ => .error .notAnObject

/-- The fields that a scenario keeps. -/
def Scenario.body (scenario : Scenario) (members : Members) : Except Problem Body :=
  match scenario with
  | fuzz => fuzzBody members
  | throughput => throughputBody members

namespace Roster

/-- Sanitizes a record.  A record with a scenario and a tenant puts the tenant
into the roster, whatever is wrong with its other fields. -/
def sanitize (roster : Roster) (value : Value) : Except Problem Record × Roster :=
  match readHead value with
  | .error problem => (.error problem, roster)
  | .ok (scenario, tenant, members) =>
    ((scenario.body members).map fun body => ⟨roster.aliasFor tenant, body⟩, roster.meet tenant)

/-- Sanitizes a line of text.  A blank line has no record. -/
def sanitizeLine (roster : Roster) (line : List Char) :
    Except Problem (Option Record) × Roster :=
  let text := Text.trim line
  if text.isEmpty then (.ok none, roster)
  else
    match Value.read text with
    | .error error => (.error (.invalidJson error), roster)
    | .ok value =>
      let (result, roster) := roster.sanitize value
      (result.map some, roster)

end Roster

/-! ## Written records -/

/-- A number of thousandths with the fewest digits behind the point, but at
least one. -/
def Ratio.toNumber (ratio : Ratio) : Json.Number :=
  let digits : List Digit :=
    [⟨ratio.thousandths / 100 % 10, Nat.mod_lt _ (by decide)⟩,
      ⟨ratio.thousandths / 10 % 10, Nat.mod_lt _ (by decide)⟩,
      ⟨ratio.thousandths % 10, Nat.mod_lt _ (by decide)⟩]
  let fraction :=
    if ratio.thousandths % 100 = 0 then digits.take 1
    else if ratio.thousandths % 10 = 0 then digits.take 2
    else digits
  ⟨ratio.negative, ratio.thousandths / 1000, fraction, none⟩

namespace Record

/-- The members that a body adds to a record. -/
def bodyMembers : Body → Members
  | .fuzz operation requestCount budgetBytes overflowExpected =>
    [(Field.operation.key, .string operation.name),
      (Field.requestCount.key, .number (.ofInt requestCount)),
      (Field.budgetBytes.key, .number (.ofInt budgetBytes)),
      (Field.overflowExpected.key, .bool overflowExpected)]
  | .throughput windowSeconds requests averageLatency saturationRatio =>
    [(Field.windowSeconds.key, .number (.ofInt windowSeconds)),
      (Field.requests.key, .number (.ofInt requests)),
      (Field.averageLatency.key, .number (.ofInt averageLatency)),
      (Field.saturationRatio.key, .number saturationRatio.toNumber)]

/-- The scenario of a record. -/
def scenario (record : Record) : Scenario :=
  match record.body with
  | .fuzz _ _ _ _ => .fuzz
  | .throughput _ _ _ _ => .throughput

/-- The record as a value. -/
def toValue (record : Record) : Value :=
  .object (("scenario", .string record.scenario.name)
    :: ("tenant_alias", .string record.tenantAlias) :: bodyMembers record.body)

end Record

end GoldenFixtures.Archive
