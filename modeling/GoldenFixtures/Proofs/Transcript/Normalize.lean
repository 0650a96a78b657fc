import Mathlib.Data.List.Permutation
import GoldenFixtures.Transcript.Normalize
import GoldenFixtures.Proofs.Transcript.Record

/-!
# Transcripts in normal form

The normal form of a transcript is read back as the records that it was written
for.  Two things follow.  Each record keeps its members, up to their order and
the spelling of its direction and its timestamp.  And a normal form stays as it
is, but for a timestamp that cannot be read any more because its year has a
sign.

A key that spells a number for the reader is left out of account throughout: a
text with such a key may be read as another value once its keys are sorted.
-/

namespace GoldenFixtures.Transcript

open Json (Value Members)

/-! ## Lists of records -/

/-- The record is the normal form of the value. -/
def IsNormalForm (value : Value) (record : Record) : Prop :=
  ∃ members, value = .object members ∧ Record.Normalizes members record

theorem recordsFrom_eq_ok_iff {index : Nat} {values : List Value} {records : List Record} :
    recordsFrom index values = .ok records ↔ List.Forall₂ IsNormalForm values records := by
  induction values generalizing index records with
  | nil =>
    rw [recordsFrom, List.forall₂_nil_left_iff, Except.ok.injEq]
    exact eq_comm
  | cons value values ih =>
    rw [recordsFrom, Json.bind_eq_ok, List.forall₂_cons_left_iff]
    constructor
    · rintro ⟨record, hrecord, hmore⟩
      obtain ⟨others, hothers, hlist⟩ := Json.bind_eq_ok.mp hmore
      cases hlist
      exact ⟨record, others, Record.ofValue_eq_ok_iff.mp hrecord, ih.mp hothers, rfl⟩
    · rintro ⟨record, others, hrecord, hothers, rfl⟩
      exact ⟨record, Record.ofValue_eq_ok_iff.mpr hrecord,
        Json.bind_eq_ok.mpr ⟨others, ih.mpr hothers, rfl⟩⟩

theorem normalize_eq_ok_iff {text output : String} :
    normalize text = .ok output ↔
      ∃ values list, Value.read text.toList = .ok (.array values) ∧
        List.Forall₂ IsNormalForm values list ∧ output = render list := by
  unfold normalize
  rw [Json.bind_eq_ok]
  constructor
  · rintro ⟨value, hvalue, hmore⟩
    obtain ⟨list, hlist, houtput⟩ := Json.bind_eq_ok.mp hmore
    cases hread : Value.read text.toList with
    | error fault => rw [hread] at hvalue; exact nomatch hvalue
    | ok found =>
      rw [hread] at hvalue
      cases hvalue
      cases houtput
      cases value with
      | array values => exact ⟨values, list, rfl, recordsFrom_eq_ok_iff.mp hlist, rfl⟩
      | _ => exact nomatch hlist
  · rintro ⟨values, list, hread, hlist, rfl⟩
    refine ⟨.array values, by rw [hread]; rfl, ?_⟩
    exact Json.bind_eq_ok.mpr ⟨list, recordsFrom_eq_ok_iff.mpr hlist, rfl⟩

/-- The normal form of a text that is read as an array. -/
theorem normalize_iff_of_read {text output : String} {values : List Value}
    (hread : Value.read text.toList = .ok (.array values)) :
    normalize text = .ok output ↔
      ∃ list, List.Forall₂ IsNormalForm values list ∧ output = render list := by
  rw [normalize_eq_ok_iff]
  constructor
  · intro h
    obtain ⟨found, list, hfound, hlist, houtput⟩ := h
    obtain rfl : values = found := Value.array.inj (Except.ok.inj (hread.symm.trans hfound))
    exact ⟨list, hlist, houtput⟩
  · intro h
    obtain ⟨list, hlist, houtput⟩ := h
    exact ⟨values, list, hread, hlist, houtput⟩

/-! ## Reading a normal form -/

/-- No object that a text writes has the key that spells a number. -/
def HasNoNumberKey (text : String) : Prop :=
  ∀ value, Value.read text.toList = .ok value →
    value.EveryObject fun keys => Json.numberKey ∉ keys

/-- The keys of every object of a text that is read are plain. -/
theorem HasNoNumberKey.everyObject {text : String} (h : HasNoNumberKey text) {value : Value}
    (hread : Value.read text.toList = .ok value) : value.EveryObject Json.PlainKeys :=
  (Json.read_shape hread).2.and (h value hread)

/-- What follows for a normal form from its value follows for all normal forms. -/
theorem forall_normalForms {values : List Value} {list : List Record}
    (hlist : List.Forall₂ IsNormalForm values list) {p : Value → Prop} {q : Record → Prop}
    (hvalues : ∀ value ∈ values, p value)
    (hstep : ∀ members record, p (.object members) → Record.Normalizes members record → q record) :
    ∀ record ∈ list, q record := by
  induction hlist with
  | nil => simp
  | cons hrecord _ ih =>
    rw [List.forall_mem_cons] at hvalues
    obtain ⟨members, rfl, hrecord⟩ := hrecord
    exact List.forall_mem_cons.mpr ⟨hstep members _ hvalues.1 hrecord, ih hvalues.2⟩

/-- The normal form of a transcript is read back as its records. -/
theorem read_render {text : String} {values : List Value} {list : List Record}
    (hread : Value.read text.toList = .ok (.array values)) (hkeys : HasNoNumberKey text)
    (hlist : List.Forall₂ IsNormalForm values list) :
    Value.read (render list).toList = .ok (.array (list.map Record.toValue)) := by
  obtain ⟨n, hmax, hdepth⟩ := Value.depth_array_le_iff.mp (Json.read_shape hread).1
  have hplain := hkeys.everyObject hread
  rw [Value.everyObject_array] at hplain
  apply Json.read_toPretty
  · rw [hmax, Value.depth_array_le_succ_iff, List.forall_mem_map]
    exact forall_normalForms hlist hdepth fun _ _ hvalue hrecord => hrecord.depth_toValue hvalue
  · rw [Value.everyObject_array, List.forall_mem_map]
    exact forall_normalForms hlist hplain fun _ _ hvalue hrecord =>
      hrecord.readable_toValue hvalue

/-- The records of a transcript that was read are in normal form. -/
theorem isNormal_records {text : String} {values : List Value} {list : List Record}
    (hread : Value.read text.toList = .ok (.array values))
    (hlist : List.Forall₂ IsNormalForm values list) : ∀ record ∈ list, record.IsNormal := by
  have hnodup := (Json.read_shape hread).2
  rw [Value.everyObject_array] at hnodup
  refine forall_normalForms hlist hnodup fun members record hvalue hrecord => ?_
  rw [Value.everyObject_object] at hvalue
  exact hrecord.isNormal hvalue.1

/-! ## Nothing is lost -/

/-- The members that are written for a record are those of the record.  The
direction and the timestamp are written in their normal forms, and every other
value keeps all but the order of the members inside. -/
structure Keeps (members written : Members) : Prop where
  keys : ∃ others, written.keys = requiredKeys ++ others ∧ others.Pairwise (· < ·) ∧
    ∀ key, key ∈ others ↔ key ∈ members.keys ∧ key ∉ requiredKeys
  direction : ∃ text, Members.get? members Field.direction.key = some (.string text) ∧
    Members.get? written Field.direction.key = some (.string (Text.lowercase text))
  timestamp : ∃ text stamp, Members.get? members Field.timestamp.key = some (.string text) ∧
    Timestamp.normalize text = .ok stamp ∧
    Members.get? written Field.timestamp.key = some (.string stamp)
  values : ∀ key value, key ≠ Field.direction.key → key ≠ Field.timestamp.key →
    Members.get? members key = some value →
    ∃ after, Members.get? written key = some after ∧ value.Alike after

theorem Record.Normalizes.keeps {members : Members} {record : Record}
    (h : Record.Normalizes members record) (hkeys : members.keys.Nodup) :
    Keeps members record.allMembers := by
  have hnormal := h.isNormal hkeys
  obtain ⟨⟨direction, hdirection, hname⟩, ⟨text, htext, hstamp⟩, ⟨envelope, henvelope, hsorted⟩,
    hothers⟩ := h
  refine ⟨⟨Members.keys record.others, rfl, hnormal.keys, ?_⟩, ⟨direction, hdirection, ?_⟩,
    ⟨text, record.timestamp, htext, hstamp, rfl⟩, ?_⟩
  · intro key
    rw [hothers, Record.mem_keys_otherMembers]
  · rw [hname]
    rfl
  · intro key value hnotDirection hnotTimestamp hget
    refine ⟨value.sorted, ?_, value.alike_sorted⟩
    rw [Members.get?_eq_some_iff hnormal.nodup_keys]
    by_cases hkey : key = Field.envelope.key
    · subst hkey
      obtain rfl : envelope = value := Option.some.inj (henvelope.symm.trans hget)
      simp [Record.allMembers, hsorted]
    · have hother : (key, value.sorted) ∈ record.others := by
        rw [hothers, Record.mem_otherMembers]
        exact ⟨value, Members.mem_of_get? hget,
          by simp [requiredKeys, hnotDirection, hnotTimestamp, hkey], rfl⟩
      simp [Record.allMembers, hother]

/-- Normalizing loses nothing and brings nothing in: what is written is one
array, it is read back with as many elements, and each keeps the members of the
element that it was written for. -/
theorem read_normalize_keeps {text output : String} {value : Value}
    (hread : Value.read text.toList = .ok value)
    (hkeys : value.EveryObject fun keys => Json.numberKey ∉ keys)
    (h : normalize text = .ok output) :
    ∃ items written, value = .array items ∧ (∃ body, output = body ++ "\n") ∧
      Value.read output.toList = .ok (.array written) ∧
      List.Forall₂ (fun before after => ∃ members others, before = .object members ∧
        after = .object others ∧ Keeps members others) items written := by
  obtain ⟨items, list, hitems, hlist, rfl⟩ := normalize_eq_ok_iff.mp h
  obtain rfl : value = .array items := Except.ok.inj (hread.symm.trans hitems)
  have hplain : HasNoNumberKey text := by
    intro found hfound
    obtain rfl : Value.array items = found := Except.ok.inj (hread.symm.trans hfound)
    exact hkeys
  have hnodup := (Json.read_shape hread).2
  rw [Value.everyObject_array] at hnodup
  refine ⟨items, list.map Record.toValue, rfl, ⟨_, String.ofList_append⟩,
    read_render hread hplain hlist, ?_⟩
  rw [List.forall₂_map_right_iff]
  refine ((List.forall₂_and_left items list).mpr ⟨hnodup, hlist⟩).imp ?_
  rintro before record ⟨hbefore, members, rfl, hrecord⟩
  rw [Value.everyObject_object] at hbefore
  exact ⟨members, record.allMembers, rfl, rfl, hrecord.keeps hbefore.1⟩

/-- A transcript of one record that is not in normal form. -/
def exchange : String :=
  "[\x7b\"envelope\":[18446744073709551616,-0],\"note\":\"x\",\"timestamp\":\"2024-02-29\","
    ++ "\"direction\":\"SEND\"\x7d]"

/-- The members of its record. -/
def exchangeMembers : Members :=
  [("envelope", .array [.number ⟨false, 18446744073709551616, [], none⟩,
      .number ⟨true, 0, [], none⟩]),
    ("note", .string "x"), ("timestamp", .string "2024-02-29"), ("direction", .string "SEND")]

/-- Its normal form. -/
def exchangeNormal : String :=
  "[\n  \x7b\n    \"direction\": \"send\",\n    \"timestamp\": \"2024-02-29T00:00:00.000Z\","
    ++ "\n    \"envelope\": [\n      18446744073709551616,\n      -0\n    ],"
    ++ "\n    \"note\": \"x\"\n  \x7d\n]\n"

theorem read_exchange : Value.read exchange.toList = .ok (.array [.object exchangeMembers]) := by
  cbv

theorem everyObject_exchange :
    (Value.array [.object exchangeMembers]).EveryObject fun keys => Json.numberKey ∉ keys := by
  simp [exchangeMembers, Value.EveryObject, Value.EveryObjectOfItems, Value.EveryObjectOfMembers,
    Json.numberKey]

theorem normalize_exchange : normalize exchange = .ok exchangeNormal := by
  decide +kernel

theorem read_normalize_keeps_exchange :
    ∃ others, Value.read exchangeNormal.toList = .ok (.array [.object others]) ∧
      Keeps exchangeMembers others := by
  obtain ⟨items, written, hitems, -, hwritten, hkeeps⟩ :=
    read_normalize_keeps read_exchange everyObject_exchange normalize_exchange
  cases hitems
  rw [List.forall₂_cons_left_iff] at hkeeps
  obtain ⟨after, rest, ⟨members, others, hbefore, rfl, hrecord⟩, hrest, rfl⟩ := hkeeps
  cases hbefore
  cases hrest
  exact ⟨others, hwritten, hrecord⟩

/-! ## Normalizing again -/

/-- The timestamp of a record, if it is a string. -/
def timestamp? (value : Value) : Option String :=
  match value.get? Field.timestamp.key with
  | some (.string text) => some text
  | _ => none

/-- The timestamps of the records that a text holds. -/
def timestamps? (text : String) : Option (List String) :=
  match Value.read text.toList with
  | .ok (.array values) => values.mapM timestamp?
  | _ => none

theorem mapM_timestamp?_toValue (list : List Record) :
    (list.map Record.toValue).mapM timestamp? = some (list.map Record.timestamp) := by
  induction list with
  | nil => rfl
  | cons record list ih =>
    have htimestamp : timestamp? record.toValue = some record.timestamp := rfl
    rw [List.map_cons, List.mapM_cons, htimestamp, ih]
    rfl

/-- A normal form has a timestamp that stays as it is or is not read. -/
theorem Record.IsNormal.kept_or_refused {record : Record} (h : record.IsNormal) :
    Timestamp.normalize record.timestamp = .ok record.timestamp ∨
      Timestamp.normalize record.timestamp = .error .unreadable := by
  obtain ⟨text, htext⟩ := h.timestamp
  obtain ⟨year, -, hagain⟩ := Timestamp.normalize_of_normalize htext
  rw [hagain]
  split
  · exact Or.inl rfl
  · exact Or.inr rfl

/-- A year of four digits and no sign starts the timestamp. -/
def HasPlainYear (stamp : String) : Prop :=
  ∃ year : Int, Timestamp.year? stamp = some year ∧ 0 ≤ year ∧ year ≤ 9999

theorem Record.IsNormal.kept_of_plainYear {record : Record} (h : record.IsNormal)
    (hyear : HasPlainYear record.timestamp) :
    Timestamp.normalize record.timestamp = .ok record.timestamp := by
  obtain ⟨text, htext⟩ := h.timestamp
  obtain ⟨year, hstart, hagain⟩ := Timestamp.normalize_of_normalize htext
  obtain ⟨found, hfound, hbounds⟩ := hyear
  obtain rfl : found = year := Option.some.inj (hfound.symm.trans hstart)
  rw [hagain, if_pos hbounds]

/-- Records in normal form are normalized to themselves, up to the first one
whose timestamp is refused. -/
theorem recordsFrom_toValue {list : List Record} (hlist : ∀ record ∈ list, record.IsNormal)
    (index : Nat) :
    recordsFrom index (list.map Record.toValue) = .ok list ∨
      ∃ before record after, list = before ++ record :: after ∧
        (∀ earlier ∈ before, Timestamp.normalize earlier.timestamp = .ok earlier.timestamp) ∧
        Timestamp.normalize record.timestamp = .error .unreadable ∧
        recordsFrom index (list.map Record.toValue) =
          .error (.invalidTimestamp (index + before.length)
            (Value.string record.timestamp).toCompact) := by
  induction list generalizing index with
  | nil => exact Or.inl rfl
  | cons record list ih =>
    rw [List.forall_mem_cons] at hlist
    rw [List.map_cons, recordsFrom]
    rcases hlist.1.kept_or_refused with hkept | hrefused
    · rw [hlist.1.ofValue_toValue hkept, Json.ok_bind]
      rcases ih hlist.2 (index + 1) with hall | ⟨before, other, after, rfl, hbefore, hother, herror⟩
      · rw [hall]
        exact Or.inl rfl
      · refine Or.inr ⟨record :: before, other, after, rfl,
          List.forall_mem_cons.mpr ⟨hkept, hbefore⟩, hother, ?_⟩
        rw [herror, List.length_cons, Nat.add_comm before.length 1, ← Nat.add_assoc]
        rfl
    · refine Or.inr ⟨[], record, list, rfl, by simp, hrefused, ?_⟩
      rw [Record.ofValue_toValue_of_refused hrefused]
      rfl

theorem normalize_render {list : List Record}
    (hread : Value.read (render list).toList = .ok (.array (list.map Record.toValue))) :
    normalize (render list) = (recordsFrom 0 (list.map Record.toValue)).map render := by
  unfold normalize
  rw [hread]
  rfl

/-- What a normal form is read as, if it is read at all: its records. -/
theorem eq_of_read_render {text : String} {values : List Value} {list : List Record} {again : Value}
    (hread : Value.read text.toList = .ok (.array values))
    (hlist : List.Forall₂ IsNormalForm values list)
    (hagain : Value.read (render list).toList = .ok again) :
    again = .array (list.map Record.toValue) := by
  have hreadable := (Json.read_readable hread).2
  have hsafe := hreadable.mono fun _ => Json.ReadableKeys.safe
  rw [Value.everyObject_array] at hsafe
  refine Json.eq_of_read_toPretty ?_ hagain
  rw [Value.everyObject_array, List.forall_mem_map]
  exact forall_normalForms hlist hsafe fun _ _ hvalue hrecord => hrecord.safe_toValue hvalue

/-- A normal form that has a normal form is its own one. -/
theorem eq_of_normalize_normalize {text output again : String} (h : normalize text = .ok output)
    (hagain : normalize output = .ok again) : again = output := by
  obtain ⟨values, list, hread, hlist, rfl⟩ := normalize_eq_ok_iff.mp h
  obtain ⟨others, records, hother, hrecords, rfl⟩ := normalize_eq_ok_iff.mp hagain
  obtain rfl := Value.array.inj (eq_of_read_render hread hlist hother)
  have hfound : recordsFrom 0 (list.map Record.toValue) = .ok records :=
    recordsFrom_eq_ok_iff.mpr hrecords
  rcases recordsFrom_toValue (isNormal_records hread hlist) 0 with hall | ⟨_, _, _, _, _, _, herror⟩
  · rw [Except.ok.inj (hfound.symm.trans hall)]
  · exact nomatch hfound.symm.trans herror

/-- Normalizing a normal form gives the same text, or it stops at the first
record whose timestamp is not read any more.  It gives the same text if every
timestamp has a year from 0000 to 9999. -/
theorem normalize_normalize {text output : String} (hkeys : HasNoNumberKey text)
    (h : normalize text = .ok output) :
    ∃ stamps, timestamps? output = some stamps ∧
      (normalize output = .ok output ∨
        ∃ before stamp after, stamps = before ++ stamp :: after ∧
          (∀ earlier ∈ before, Timestamp.normalize earlier = .ok earlier) ∧
          Timestamp.normalize stamp = .error .unreadable ∧
          normalize output = .error (.invalidTimestamp before.length
            (Value.string stamp).toCompact)) ∧
      ((∀ stamp ∈ stamps, HasPlainYear stamp) → normalize output = .ok output) := by
  obtain ⟨values, list, hread, hlist, rfl⟩ := normalize_eq_ok_iff.mp h
  have hagain := read_render hread hkeys hlist
  have hnormal := isNormal_records hread hlist
  refine ⟨list.map Record.timestamp, ?_, ?_⟩
  · rw [timestamps?, hagain]
    exact mapM_timestamp?_toValue list
  rw [normalize_render hagain]
  rcases recordsFrom_toValue hnormal 0 with hall |
    ⟨before, record, after, hsplit, hbefore, hrefused, herror⟩
  · rw [hall]
    exact ⟨Or.inl rfl, fun _ => rfl⟩
  · rw [herror, Nat.zero_add]
    constructor
    · refine Or.inr ⟨before.map Record.timestamp, record.timestamp, after.map Record.timestamp,
        by rw [hsplit]; simp, List.forall_mem_map.mpr hbefore, hrefused, ?_⟩
      rw [List.length_map]
      rfl
    · intro hyears
      rw [List.forall_mem_map] at hyears
      have hmem : record ∈ list := by simp [hsplit]
      have hkept := (hnormal record hmem).kept_of_plainYear (hyears record hmem)
      exact nomatch hkept.symm.trans hrefused

theorem normalize_normalize_exchange :
    HasNoNumberKey exchange ∧ normalize exchange = .ok exchangeNormal ∧
      normalize exchangeNormal = .ok exchangeNormal := by
  have hkeys : HasNoNumberKey exchange := by
    intro value hvalue
    obtain rfl := Except.ok.inj (read_exchange.symm.trans hvalue)
    exact everyObject_exchange
  have hstamp : timestamps? exchangeNormal = some ["2024-02-29T00:00:00.000Z"] := by
    decide +kernel
  obtain ⟨stamps, hstamps, -, hyears⟩ := normalize_normalize hkeys normalize_exchange
  obtain rfl := Option.some.inj (hstamp.symm.trans hstamps)
  refine ⟨hkeys, normalize_exchange, hyears ?_⟩
  rw [List.forall_mem_singleton]
  exact ⟨2024, by decide +kernel, by decide, by decide⟩

end GoldenFixtures.Transcript
