import GoldenFixtures.Transcript.Record
import GoldenFixtures.Proofs.Json.ReadAgain
import GoldenFixtures.Proofs.Json.Sorted
import GoldenFixtures.Proofs.Transcript.Timestamp

/-!
# Records in normal form

`Record.Normalizes value record` says what the normal form of a record is, field
by field, and `ofValue_eq_ok_iff` that `Record.ofValue` computes just this.  A
normal form is written as a value that the reader accepts, and it is its own
normal form unless its timestamp is refused.
-/

namespace GoldenFixtures.Transcript

open Json (Value Members)

/-! ## Directions -/

namespace Direction

theorem ofName?_eq_some_iff {word : String} {direction : Direction} :
    ofName? word = some direction ↔ word = direction.name := by
  unfold ofName?
  split
  · rename_i hsend
    cases direction <;> simp [name, hsend]
  split
  · rename_i hreceive
    cases direction <;> simp [name, hreceive]
  · rename_i hsend hreceive
    cases direction <;> simp [name, hsend, hreceive]

theorem toChar_ne_initial (d : Digit) : d.toChar ≠ 's' ∧ d.toChar ≠ 'r' := by
  revert d
  decide

/-- The text of a value that is no string starts unlike the words for
directions. -/
theorem compact_start {value : Value} (h : ∀ text, value ≠ .string text) :
    ∃ c tail, value.compact = c :: tail ∧ c ≠ 's' ∧ c ≠ 'r' := by
  cases value with
  | null => exact ⟨'n', _, rfl, by decide, by decide⟩
  | bool flag =>
    cases flag with
    | true => exact ⟨'t', _, rfl, by decide, by decide⟩
    | false => exact ⟨'f', _, rfl, by decide, by decide⟩
  | number n =>
    rw [Value.compact, Json.Number.toChars_eq]
    cases n.negative with
    | true => exact ⟨'-', _, rfl, by decide, by decide⟩
    | false =>
      obtain ⟨d, tail, hunsigned⟩ := Json.unsignedChars_eq_cons n
      exact ⟨d.toChar, tail, hunsigned, toChar_ne_initial d⟩
  | string text => exact absurd rfl (h text)
  | array items => exact ⟨'[', _, rfl, by decide, by decide⟩
  | object members => exact ⟨'{', _, rfl, by decide, by decide⟩

theorem ofName?_toCompact {value : Value} (h : ∀ text, value ≠ .string text) :
    ofName? value.toCompact = none := by
  obtain ⟨c, tail, hcompact, hsend, hreceive⟩ := compact_start h
  rw [Option.eq_none_iff_forall_ne_some]
  intro direction hdirection
  have hword := congrArg String.toList (ofName?_eq_some_iff.mp hdirection)
  rw [Value.toCompact, String.toList_ofList, hcompact] at hword
  cases direction with
  | send => exact hsend (List.cons.inj hword).1
  | receive => exact hreceive (List.cons.inj hword).1

/-- Only a string names a direction. -/
theorem ofValue?_eq_some_iff {value : Value} {direction : Direction} :
    ofValue? value = some direction ↔
      ∃ text, value = .string text ∧ Text.lowercase text = direction.name := by
  cases value with
  | string text => simp [ofValue?, ofName?_eq_some_iff]
  | _ => simp [ofValue?, ofName?_toCompact]

theorem lowercase_name (direction : Direction) :
    Text.lowercase direction.name = direction.name := by
  cases direction <;> decide

end Direction

namespace Record

/-! ## What the normal form is -/

/-- The record is the normal form of the value: the direction in lower case,
the timestamp in its one form, and the rest sorted at every depth. -/
structure Normalizes (members : Members) (record : Record) : Prop where
  direction : ∃ text, Members.get? members Field.direction.key = some (.string text) ∧
    Text.lowercase text = record.direction.name
  timestamp : ∃ text, Members.get? members Field.timestamp.key = some (.string text) ∧
    Timestamp.normalize text = .ok record.timestamp
  envelope : ∃ value, Members.get? members Field.envelope.key = some value ∧
    record.envelope = value.sorted
  others : record.others = otherMembers members

variable {members : Members} {index : Nat}

theorem field_eq_ok_iff {part : Field} {value : Value} :
    field members index part = .ok value ↔ Members.get? members part.key = some value := by
  unfold field
  split <;> simp_all

theorem readDirection_eq_ok_iff {direction : Direction} :
    readDirection members index = .ok direction ↔
      ∃ text, Members.get? members Field.direction.key = some (.string text) ∧
        Text.lowercase text = direction.name := by
  unfold readDirection
  rw [Json.bind_eq_ok]
  constructor
  · rintro ⟨value, hfield, hvalue⟩
    rw [field_eq_ok_iff] at hfield
    cases hdirection : Direction.ofValue? value with
    | none => rw [hdirection] at hvalue; exact nomatch hvalue
    | some found =>
      rw [hdirection] at hvalue
      cases hvalue
      obtain ⟨text, rfl, hname⟩ := Direction.ofValue?_eq_some_iff.mp hdirection
      exact ⟨text, hfield, hname⟩
  · rintro ⟨text, hget, hname⟩
    refine ⟨.string text, field_eq_ok_iff.mpr hget, ?_⟩
    rw [Direction.ofValue?_eq_some_iff.mpr ⟨text, rfl, hname⟩]
    rfl

theorem readTimestamp_of_get? {text : String}
    (h : Members.get? members Field.timestamp.key = some (.string text)) :
    readTimestamp members index =
      match Timestamp.normalize text with
      | .ok stamp => .ok stamp
      | .error .unreadable => .error (.invalidTimestamp index (Value.string text).toCompact)
      | .error .pastLastYear => .error .timestampPastLastYear := by
  unfold readTimestamp
  rw [field_eq_ok_iff.mpr h]
  rfl

theorem readTimestamp_eq_ok_iff {stamp : String} :
    readTimestamp members index = .ok stamp ↔
      ∃ text, Members.get? members Field.timestamp.key = some (.string text) ∧
        Timestamp.normalize text = .ok stamp := by
  constructor
  · intro h
    unfold readTimestamp at h
    obtain ⟨value, hfield, hvalue⟩ := Json.bind_eq_ok.mp h
    rw [field_eq_ok_iff] at hfield
    cases value with
    | string text =>
      refine ⟨text, hfield, ?_⟩
      simp only at hvalue
      split at hvalue
      · rename_i hstamp
        cases hvalue
        exact hstamp
      · exact nomatch hvalue
      · exact nomatch hvalue
    | _ => exact nomatch hvalue
  · rintro ⟨text, hget, hstamp⟩
    rw [readTimestamp_of_get? hget, hstamp]

theorem ofValue_eq_ok_iff {value : Value} {record : Record} :
    ofValue index value = .ok record ↔
      ∃ members, value = .object members ∧ Normalizes members record := by
  constructor
  · intro h
    cases value with
    | object members =>
      refine ⟨members, rfl, ?_⟩
      unfold ofValue at h
      obtain ⟨direction, hdirection, h⟩ := Json.bind_eq_ok.mp h
      obtain ⟨stamp, hstamp, h⟩ := Json.bind_eq_ok.mp h
      obtain ⟨envelope, henvelope, h⟩ := Json.bind_eq_ok.mp h
      cases h
      exact ⟨readDirection_eq_ok_iff.mp hdirection, readTimestamp_eq_ok_iff.mp hstamp,
        ⟨envelope, field_eq_ok_iff.mp henvelope, rfl⟩, rfl⟩
    | _ => exact nomatch h
  · rintro ⟨members, rfl, hdirection, hstamp, ⟨envelope, henvelope, hsorted⟩, hothers⟩
    obtain ⟨direction, stamp, written, others⟩ := record
    subst hsorted hothers
    exact Json.bind_eq_ok.mpr ⟨direction, readDirection_eq_ok_iff.mpr hdirection,
      Json.bind_eq_ok.mpr ⟨stamp, readTimestamp_eq_ok_iff.mpr hstamp,
        Json.bind_eq_ok.mpr ⟨envelope, field_eq_ok_iff.mpr henvelope, rfl⟩⟩⟩

/-! ## The members besides the three -/

theorem mem_otherMembers {member : String × Value} :
    member ∈ otherMembers members ↔
      ∃ value, (member.1, value) ∈ members ∧ member.1 ∉ requiredKeys ∧
        member.2 = value.sorted := by
  rw [otherMembers, Members.mem_sortByKey, Value.sortedMembers_eq_map, List.mem_map]
  constructor
  · rintro ⟨⟨key, value⟩, hmem, rfl⟩
    rw [List.mem_filter, decide_eq_true_eq] at hmem
    exact ⟨value, hmem.1, hmem.2, rfl⟩
  · rintro ⟨value, hmem, hkey, hvalue⟩
    refine ⟨(member.1, value), ?_, by rw [← hvalue]⟩
    rw [List.mem_filter, decide_eq_true_eq]
    exact ⟨hmem, hkey⟩

theorem keys_otherMembers_perm (members : Members) :
    (Members.keys (otherMembers members)).Perm
      (members.keys.filter fun key => key ∉ requiredKeys) := by
  have hperm := Members.keys_sortByKey_perm
    (Value.sortedMembers (members.filter fun member => member.1 ∉ requiredKeys))
  rw [Value.sortedMembers_eq_map, Value.keys_map_sorted] at hperm
  rw [otherMembers, Value.sortedMembers_eq_map]
  refine hperm.trans (List.Perm.of_eq ?_)
  rw [Members.keys, Members.keys, List.filter_map]
  rfl

theorem mem_keys_otherMembers {key : String} :
    key ∈ Members.keys (otherMembers members) ↔ key ∈ members.keys ∧ key ∉ requiredKeys := by
  rw [(keys_otherMembers_perm members).mem_iff, List.mem_filter, decide_eq_true_eq]

/-- Distinct keys stand in strictly ascending order. -/
theorem keys_otherMembers_strict (h : members.keys.Nodup) :
    (Members.keys (otherMembers members)).Pairwise (· < ·) := by
  apply Members.keys_sortByKey_strict
  rw [Value.sortedMembers_eq_map, Value.keys_map_sorted]
  exact h.sublist (List.filter_sublist.map Prod.fst)

/-! ## Normal forms -/

/-- A record in normal form. -/
structure IsNormal (record : Record) : Prop where
  timestamp : ∃ text, Timestamp.normalize text = .ok record.timestamp
  envelope : record.envelope.sorted = record.envelope
  others : ∀ member ∈ record.others, member.1 ∉ requiredKeys ∧ member.2.sorted = member.2
  keys : (Members.keys record.others).Pairwise (· < ·)

theorem Normalizes.isNormal {record : Record} (h : Normalizes members record)
    (hkeys : members.keys.Nodup) : record.IsNormal := by
  obtain ⟨-, ⟨text, -, hstamp⟩, ⟨value, -, henvelope⟩, hothers⟩ := h
  refine ⟨⟨text, hstamp⟩, ?_, ?_, ?_⟩
  · rw [henvelope, Value.sorted_sorted]
  · intro member hmember
    rw [hothers, mem_otherMembers] at hmember
    obtain ⟨value, -, hkey, hvalue⟩ := hmember
    exact ⟨hkey, by rw [hvalue, Value.sorted_sorted]⟩
  · rw [hothers]
    exact keys_otherMembers_strict hkeys

/-! ## Normal forms as values -/

/-- The members of a record's value. -/
def allMembers (record : Record) : Members :=
  (Field.direction.key, .string record.direction.name)
    :: (Field.timestamp.key, .string record.timestamp)
    :: (Field.envelope.key, record.envelope) :: record.others

theorem toValue_eq_object (record : Record) : record.toValue = .object record.allMembers := rfl

theorem keys_allMembers (record : Record) :
    record.allMembers.keys = requiredKeys ++ Members.keys record.others := rfl

theorem get?_allMembers_direction (record : Record) :
    Members.get? record.allMembers Field.direction.key = some (.string record.direction.name) := rfl

theorem get?_allMembers_timestamp (record : Record) :
    Members.get? record.allMembers Field.timestamp.key = some (.string record.timestamp) := rfl

theorem get?_allMembers_envelope (record : Record) :
    Members.get? record.allMembers Field.envelope.key = some record.envelope := rfl

/-- The other members of a normal form are the ones it was given. -/
theorem IsNormal.otherMembers_allMembers {record : Record} (h : record.IsNormal) :
    otherMembers record.allMembers = record.others := by
  have hfilter : (record.allMembers.filter fun member => member.1 ∉ requiredKeys) =
      record.others := by
    have hrequired : (record.allMembers.filter fun member => member.1 ∉ requiredKeys) =
        record.others.filter fun member => member.1 ∉ requiredKeys := by
      simp [allMembers, requiredKeys]
    rw [hrequired, List.filter_eq_self]
    intro member hmember
    simpa using (h.others member hmember).1
  have hvalues : record.others.map (fun member => (member.1, member.2.sorted)) =
      record.others := by
    rw [List.map_congr_left fun member hmember => by rw [(h.others member hmember).2],
      List.map_id']
  rw [otherMembers, hfilter, Value.sortedMembers_eq_map, hvalues]
  apply Members.sortByKey_of_pairwise
  exact (List.pairwise_map.mp h.keys).imp le_of_lt

/-- A normal form whose timestamp stays as it is stays as it is. -/
theorem IsNormal.ofValue_toValue {record : Record} (h : record.IsNormal)
    (hstamp : Timestamp.normalize record.timestamp = .ok record.timestamp) :
    ofValue index record.toValue = .ok record := by
  refine ofValue_eq_ok_iff.mpr ⟨record.allMembers, rfl, ?_⟩
  exact ⟨⟨_, record.get?_allMembers_direction, record.direction.lowercase_name⟩,
    ⟨_, record.get?_allMembers_timestamp, hstamp⟩,
    ⟨_, record.get?_allMembers_envelope, h.envelope.symm⟩, h.otherMembers_allMembers.symm⟩

/-- A record whose timestamp is refused is refused for that timestamp. -/
theorem ofValue_toValue_of_refused {record : Record}
    (hstamp : Timestamp.normalize record.timestamp = .error .unreadable) :
    ofValue index record.toValue =
      .error (.invalidTimestamp index (Value.string record.timestamp).toCompact) := by
  have hdirection : readDirection record.allMembers index = .ok record.direction :=
    readDirection_eq_ok_iff.mpr
      ⟨_, record.get?_allMembers_direction, record.direction.lowercase_name⟩
  have hrefused : readTimestamp record.allMembers index =
      .error (.invalidTimestamp index (Value.string record.timestamp).toCompact) := by
    rw [readTimestamp_of_get? record.get?_allMembers_timestamp, hstamp]
  rw [toValue_eq_object, ofValue, hdirection, Json.ok_bind, hrefused]
  rfl

/-! ## Reading normal forms -/

theorem IsNormal.nodup_keys {record : Record} (h : record.IsNormal) :
    record.allMembers.keys.Nodup := by
  rw [keys_allMembers, List.nodup_append]
  refine ⟨by decide, h.keys.imp ne_of_lt, ?_⟩
  rintro key hrequired other hother rfl
  obtain ⟨member, hmember, rfl⟩ := List.mem_map.mp hother
  exact (h.others member hmember).1 hrequired

/-- The value of a member of a normal form is a string, or the sorted form of a
value that was given. -/
theorem Normalizes.value_of_mem {record : Record} (h : Normalizes members record)
    {member : String × Value} (hmember : member ∈ record.allMembers) :
    (∃ text, member.2 = .string text) ∨
      ∃ original ∈ members, member.2 = original.2.sorted := by
  obtain ⟨-, -, ⟨envelope, hget, henvelope⟩, hothers⟩ := h
  rw [allMembers, List.mem_cons, List.mem_cons, List.mem_cons] at hmember
  rcases hmember with rfl | rfl | rfl | hother
  · exact Or.inl ⟨_, rfl⟩
  · exact Or.inl ⟨_, rfl⟩
  · exact Or.inr ⟨_, Members.mem_of_get? hget, henvelope⟩
  · rw [hothers, mem_otherMembers] at hother
    obtain ⟨value, hvalue, -, hsorted⟩ := hother
    exact Or.inr ⟨_, hvalue, hsorted⟩

theorem Normalizes.depth_toValue {record : Record} (h : Normalizes members record) {n : Nat}
    (hdepth : (Value.object members).depth ≤ n) : record.toValue.depth ≤ n := by
  obtain ⟨n, rfl, hvalues⟩ := Value.depth_object_le_iff.mp hdepth
  rw [toValue_eq_object, Value.depth_object_le_succ_iff]
  intro member hmember
  rcases h.value_of_mem hmember with ⟨text, hvalue⟩ | ⟨original, hmem, hvalue⟩
  · rw [hvalue]
    exact Nat.zero_le n
  · rw [hvalue]
    exact Value.depth_sorted_le (hvalues original hmem)

/-- What holds of the keys of every object of a record in any order, and of those
of its normal form, holds of every object of the normal form. -/
theorem Normalizes.everyObject_toValue {record : Record} (h : Normalizes members record)
    {p : List String → Prop} (hp : ∀ keys others, keys.Perm others → p keys → p others)
    (hrecord : p record.allMembers.keys) (hvalues : ∀ member ∈ members, member.2.EveryObject p) :
    record.toValue.EveryObject p := by
  rw [toValue_eq_object, Value.everyObject_object]
  refine ⟨hrecord, ?_⟩
  intro member hmember
  rcases h.value_of_mem hmember with ⟨text, hvalue⟩ | ⟨original, hmem, hvalue⟩
  · rw [hvalue]
    exact Value.everyObject_string
  · rw [hvalue]
    exact Value.everyObject_sorted hp (hvalues original hmem)

theorem Normalizes.readable_toValue {record : Record} (h : Normalizes members record)
    (hkeys : (Value.object members).EveryObject Json.PlainKeys) :
    record.toValue.EveryObject Json.ReadableKeys := by
  rw [Value.everyObject_object] at hkeys
  have hnumber : Json.numberKey ∉ record.allMembers.keys := by
    rw [keys_allMembers, List.mem_append, not_or, h.others, mem_keys_otherMembers]
    exact ⟨by decide, fun hkey => hkeys.1.2 hkey.1⟩
  have hplain : Json.PlainKeys record.allMembers.keys :=
    ⟨(h.isNormal hkeys.1.1).nodup_keys, hnumber⟩
  have hevery := h.everyObject_toValue (fun _ _ => Json.PlainKeys.perm) hplain hkeys.2
  exact hevery.mono fun _ => Json.PlainKeys.readable

theorem Normalizes.safe_toValue {record : Record} (h : Normalizes members record)
    (hkeys : (Value.object members).EveryObject Json.SafeKeys) :
    record.toValue.EveryObject Json.SafeKeys := by
  rw [Value.everyObject_object] at hkeys
  have hsafe : Json.SafeKeys record.allMembers.keys := by
    refine ⟨(h.isNormal hkeys.1.1).nodup_keys, ?_⟩
    rw [keys_allMembers]
    simp [requiredKeys]
  exact h.everyObject_toValue (fun _ _ => Json.SafeKeys.perm) hsafe hkeys.2

end Record

end GoldenFixtures.Transcript
