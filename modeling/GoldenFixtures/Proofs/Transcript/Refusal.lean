import GoldenFixtures.Proofs.Checks
import GoldenFixtures.Proofs.Text.Lowercase
import GoldenFixtures.Proofs.Transcript.Normalize

/-!
# Which transcripts are refused, and why

A text has a normal form if it is valid JSON, which is what the reader accepts,
and an array of exchanges (`IsExchange`).  Else there is an error and no output:
the error is that of the first element that is no exchange, and of the first
check that this element fails.

There are three groups.

* The checks.  `checksOf` lists the checks on an element in their order, each by
  what it asks of the element alone.
* One element.  Every reader follows its checks, up to `follows_ofValue`, and all
  checks pass for the exchanges and no others (`checksOf_pass_iff`).
* The transcript.  `recordsFrom_eq_error_iff` finds the first element that is no
  exchange, and `normalize_outcome` puts the reader in front.
-/

namespace GoldenFixtures.Transcript

open Json (Value Members)

/-! ## Checks -/

/-- The string is `send` or `receive`, in any case of the ASCII letters. -/
def IsDirection (word : String) : Prop := word.toLower = "send" ∨ word.toLower = "receive"

/-- The element is an object with a direction, a timestamp that is accepted and
an envelope. -/
structure IsExchange (value : Value) : Prop where
  object : ∃ members, value = .object members
  direction : ∃ word, value.get? "direction" = some (.string word) ∧ IsDirection word
  timestamp : ∃ raw stamp, value.get? "timestamp" = some (.string raw) ∧
    Timestamp.normalize raw = .ok stamp
  envelope : ∃ envelope, value.get? "envelope" = some envelope

/-- The text of a field's value. -/
def fieldText (value : Value) (part : Field) : String :=
  ((value.get? part.key).map Value.toCompact).getD ""

/-- The error for a timestamp.  One that would come to lie behind the last year
is told by itself, without the element. -/
def timestampError (index : Nat) (value : Value) : Error :=
  match value.get? Field.timestamp.key with
  | some (.string raw) =>
    match Timestamp.normalize raw with
    | .error .pastLastYear => .timestampPastLastYear
    | _ => .invalidTimestamp index (fieldText value .timestamp)
  | _ => .invalidTimestamp index (fieldText value .timestamp)

/-- The element is an object. -/
def objectCheck (index : Nat) (value : Value) : Check Error :=
  ⟨∃ members, value = .object members, .recordNotObject index value.typeName⟩

/-- A field is there. -/
def presenceCheck (index : Nat) (value : Value) (part : Field) : Check Error :=
  ⟨∃ found, value.get? part.key = some found, .missingField index part⟩

/-- The direction is a string that is one. -/
def directionCheck (index : Nat) (value : Value) : Check Error :=
  ⟨∃ word, value.get? Field.direction.key = some (.string word) ∧ IsDirection word,
    .invalidDirection index (fieldText value .direction)⟩

/-- The timestamp is a string that is accepted. -/
def timestampCheck (index : Nat) (value : Value) : Check Error :=
  ⟨∃ raw stamp, value.get? Field.timestamp.key = some (.string raw) ∧
      Timestamp.normalize raw = .ok stamp,
    timestampError index value⟩

/-- All checks on the element at an index, in order. -/
def checksOf (index : Nat) (value : Value) : List (Check Error) :=
  [objectCheck index value,
    presenceCheck index value .direction, directionCheck index value,
    presenceCheck index value .timestamp, timestampCheck index value,
    presenceCheck index value .envelope]

/-! ## One element -/

theorem Direction.ownLetter_of_mem_name (direction : Direction) :
    ∀ c ∈ direction.name.toList, Text.IsOwnLetter c := by
  cases direction with
  | send =>
    have hname : Direction.send.name.toList = ['s', 'e', 'n', 'd'] := rfl
    simp [hname, Text.IsOwnLetter]
  | receive =>
    have hname : Direction.receive.name.toList = ['r', 'e', 'c', 'e', 'i', 'v', 'e'] := rfl
    simp [hname, Text.IsOwnLetter]

/-- A string names a direction exactly if it is one, whatever letters it is
written in. -/
theorem exists_direction_iff {word : String} :
    (∃ direction : Direction, Text.lowercase word = direction.name) ↔ IsDirection word := by
  have hname (direction : Direction) :
      Text.lowercase word = direction.name ↔ word.toLower = direction.name :=
    Text.lowercase_eq_iff_toLower_eq direction.ownLetter_of_mem_name direction.lowercase_name
  simp only [hname]
  constructor
  · rintro ⟨direction, hdirection⟩
    cases direction with
    | send => exact Or.inl hdirection
    | receive => exact Or.inr hdirection
  · rintro (hsend | hreceive)
    · exact ⟨.send, hsend⟩
    · exact ⟨.receive, hreceive⟩

section

variable {members : Members} {index : Nat}

theorem follows_field (part : Field) :
    Follows [presenceCheck index (.object members) part] (Record.field members index part) := by
  apply Follows.single
  unfold Record.field
  cases hget : Members.get? members part.key with
  | some found => exact Or.inl ⟨⟨found, hget⟩, found, rfl⟩
  | none => exact Or.inr ⟨fun ⟨_, hfound⟩ => (nomatch hget.symm.trans hfound), rfl⟩

theorem follows_readDirection :
    Follows [presenceCheck index (.object members) .direction,
      directionCheck index (.object members)] (Record.readDirection members index) := by
  show Follows ([presenceCheck index (.object members) .direction] ++ _) _
  refine (follows_field .direction).bind fun found hfound => ?_
  have hget : (Value.object members).get? Field.direction.key = some found :=
    Record.field_eq_ok_iff.mp hfound
  apply Follows.single
  cases hdirection : Direction.ofValue? found with
  | some direction =>
    obtain ⟨word, rfl, hword⟩ := Direction.ofValue?_eq_some_iff.mp hdirection
    exact Or.inl ⟨⟨word, hget, exists_direction_iff.mp ⟨direction, hword⟩⟩, direction, rfl⟩
  | none =>
    refine Or.inr ⟨?_, ?_⟩
    · rintro ⟨word, hword, hnamed⟩
      obtain ⟨direction, hdirected⟩ := exists_direction_iff.mpr hnamed
      obtain rfl : found = .string word := Option.some.inj (hget.symm.trans hword)
      rw [Direction.ofValue?_eq_some_iff.mpr ⟨word, rfl, hdirected⟩] at hdirection
      exact nomatch hdirection
    · simp [directionCheck, fieldText, hget]

theorem follows_readTimestamp :
    Follows [presenceCheck index (.object members) .timestamp,
      timestampCheck index (.object members)] (Record.readTimestamp members index) := by
  show Follows ([presenceCheck index (.object members) .timestamp] ++ _) _
  refine (follows_field .timestamp).bind fun found hfound => ?_
  have hget : (Value.object members).get? Field.timestamp.key = some found :=
    Record.field_eq_ok_iff.mp hfound
  have herror : (timestampCheck index (.object members)).error =
      timestampError index (.object members) := rfl
  apply Follows.single
  rw [herror]
  unfold timestampError fieldText
  rw [hget]
  cases found with
  | string raw =>
    cases hstamp : Timestamp.normalize raw with
    | ok stamp => exact Or.inl ⟨⟨raw, stamp, hget, hstamp⟩, stamp, by simp only [hstamp]; rfl⟩
    | error failure =>
      refine Or.inr ⟨?_, by cases failure <;> simp [hstamp]⟩
      rintro ⟨other, stamp, hother, hotherStamp⟩
      obtain rfl : raw = other := by simpa [hget] using hother
      exact nomatch hstamp.symm.trans hotherStamp
  | _ => exact Or.inr ⟨by simp [timestampCheck, hget], rfl⟩

theorem follows_ofValue (index : Nat) (value : Value) :
    Follows (checksOf index value) (Record.ofValue index value) := by
  cases value with
  | object members =>
    refine .pass ⟨members, rfl⟩ ?_
    refine follows_readDirection.bind fun direction _ => ?_
    refine follows_readTimestamp.bind fun timestamp _ => ?_
    exact (follows_field .envelope).bind fun envelope _ => .done _
  | _ => exact .fail (by simp [objectCheck])

end

/-- The checks pass exactly if the element is an exchange. -/
theorem checksOf_pass_iff (index : Nat) (value : Value) :
    (∀ check ∈ checksOf index value, check.passes) ↔ IsExchange value := by
  simp only [checksOf, List.forall_mem_cons]
  constructor
  · rintro ⟨hobject, -, hdirection, -, htimestamp, henvelope, -⟩
    exact ⟨hobject, hdirection, htimestamp, henvelope⟩
  · rintro ⟨hobject, ⟨word, hword, hdirection⟩, ⟨raw, stamp, hraw, hstamp⟩, henvelope⟩
    exact ⟨hobject, ⟨_, hword⟩, ⟨word, hword, hdirection⟩, ⟨_, hraw⟩, ⟨raw, stamp, hraw, hstamp⟩,
      henvelope, nofun⟩

/-! ## Transcripts -/

section

variable {index : Nat} {value : Value} {values : List Value}

theorem exists_ofValue_iff :
    (∃ record, Record.ofValue index value = .ok record) ↔ IsExchange value := by
  rw [← checksOf_pass_iff index]
  exact (follows_ofValue index value).exists_ok_iff

theorem exists_recordsFrom_iff :
    (∃ list, recordsFrom index values = .ok list) ↔ ∀ item ∈ values, IsExchange item := by
  induction values generalizing index with
  | nil => simp [recordsFrom]
  | cons value values ih =>
    rw [List.forall_mem_cons, ← exists_ofValue_iff, ← ih]
    constructor
    · rintro ⟨list, hlist⟩
      obtain ⟨record, hrecord, hlist⟩ := Json.bind_eq_ok.mp hlist
      obtain ⟨rest, hrest, -⟩ := Json.bind_eq_ok.mp hlist
      exact ⟨⟨record, hrecord⟩, rest, hrest⟩
    · rintro ⟨⟨record, hrecord⟩, rest, hrest⟩
      exact ⟨record :: rest,
        Json.bind_eq_ok.mpr ⟨record, hrecord, Json.bind_eq_ok.mpr ⟨rest, hrest, rfl⟩⟩⟩

theorem recordsFrom_cons_eq_error_iff {error : Error} :
    recordsFrom index (value :: values) = .error error ↔
      FirstFailure (checksOf index value) error ∨
        (IsExchange value ∧ recordsFrom (index + 1) values = .error error) := by
  rw [← (follows_ofValue index value).eq_error_iff, ← exists_ofValue_iff, recordsFrom]
  cases Record.ofValue index value with
  | error other => simp [Bind.bind, Except.bind]
  | ok record =>
    cases recordsFrom (index + 1) values <;> simp [Bind.bind, Except.bind, Pure.pure, Except.pure]

/-- The error is that of the first element that is no exchange. -/
theorem recordsFrom_eq_error_iff {error : Error} :
    recordsFrom index values = .error error ↔
      ∃ before item after, values = before ++ item :: after ∧
        (∀ earlier ∈ before, IsExchange earlier) ∧
        FirstFailure (checksOf (index + before.length) item) error := by
  induction values generalizing index with
  | nil => simp [recordsFrom]
  | cons value values ih =>
    rw [recordsFrom_cons_eq_error_iff, ih]
    constructor
    · rintro (hfail | ⟨hvalue, before, item, after, rfl, hbefore, hfail⟩)
      · exact ⟨[], value, values, rfl, by simp, hfail⟩
      · refine ⟨value :: before, item, after, rfl,
          List.forall_mem_cons.mpr ⟨hvalue, hbefore⟩, ?_⟩
        rw [List.length_cons, Nat.add_comm before.length 1, ← Nat.add_assoc]
        exact hfail
    · rintro ⟨before, item, after, hsplit, hbefore, hfail⟩
      cases before with
      | nil =>
        obtain ⟨rfl, rfl⟩ := List.cons.inj hsplit
        exact Or.inl hfail
      | cons first before =>
        obtain ⟨rfl, rfl⟩ := List.cons.inj hsplit
        rw [List.forall_mem_cons] at hbefore
        rw [List.length_cons, Nat.add_comm before.length 1, ← Nat.add_assoc] at hfail
        exact Or.inr ⟨hbefore.1, before, item, after, rfl, hbefore.2, hfail⟩

theorem normalize_of_fault {text : String} {fault : Json.Error}
    (h : Value.read text.toList = .error fault) : normalize text = .error (.invalidJson fault) := by
  unfold normalize
  rw [h]
  rfl

theorem normalize_of_read {text : String} (h : Value.read text.toList = .ok value) :
    normalize text = (records value).map render := by
  unfold normalize
  rw [h]
  rfl

theorem exists_normalize_iff_of_array {text : String}
    (h : Value.read text.toList = .ok (.array values)) :
    (∃ output, normalize text = .ok output) ↔ ∀ item ∈ values, IsExchange item := by
  rw [normalize_of_read h, records, ← exists_recordsFrom_iff]
  constructor
  · rintro ⟨output, houtput⟩
    obtain ⟨list, hlist, -⟩ := Json.map_eq_ok.mp houtput
    exact ⟨list, hlist⟩
  · rintro ⟨list, hlist⟩
    exact ⟨render list, Json.map_eq_ok.mpr ⟨list, hlist, rfl⟩⟩

theorem normalize_eq_error_iff_of_array {text : String} {error : Error}
    (h : Value.read text.toList = .ok (.array values)) :
    normalize text = .error error ↔
      ∃ before item after, values = before ++ item :: after ∧
        (∀ earlier ∈ before, IsExchange earlier) ∧
        FirstFailure (checksOf before.length item) error := by
  have hfirst : recordsFrom 0 values = .error error ↔ _ := recordsFrom_eq_error_iff
  simp only [Nat.zero_add] at hfirst
  rw [normalize_of_read h, records, ← hfirst]
  cases recordsFrom 0 values <;> simp [Except.map]

/-- A text has a normal form exactly if it is valid JSON and an array of
exchanges.  Else there is none, and the error is the reader's, that of another
value than an array, or that of the first check that fails on the first element
that is no exchange. -/
theorem normalize_outcome (text : String) :
    ((∃ output, normalize text = .ok output) ↔
      ∃ items, Value.read text.toList = .ok (.array items) ∧ ∀ item ∈ items, IsExchange item) ∧
    ∀ error, normalize text = .error error ↔
      (∃ fault, Value.read text.toList = .error fault ∧ error = .invalidJson fault) ∨
      (∃ value, Value.read text.toList = .ok value ∧ (∀ items, value ≠ .array items) ∧
        error = .notAnArray value.typeName) ∨
      ∃ before item after, Value.read text.toList = .ok (.array (before ++ item :: after)) ∧
        (∀ earlier ∈ before, IsExchange earlier) ∧
        FirstFailure (checksOf before.length item) error := by
  cases hread : Value.read text.toList with
  | error fault => simp [normalize_of_fault hread, eq_comm]
  | ok value =>
    cases value with
    | array items =>
      simp [exists_normalize_iff_of_array hread, normalize_eq_error_iff_of_array hread]
    | _ => simp [normalize_of_read hread, records, Except.map, eq_comm]

end

end GoldenFixtures.Transcript
