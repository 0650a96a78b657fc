import Mathlib
import GoldenFixtures.Proofs.Text.Lowercase
import GoldenFixtures.Proofs.Transcript.Normalize

/-!
# Transcripts that differ in presentation

`Record.IsPresentedAlike` says that two records differ in nothing but what their
normal form forgets: the order of members, the case of the direction's letters
and the way to write the timestamp.  Such records have one normal form
(`IsPresentedAlike.normalizes_iff`), and so have transcripts of such records.
-/

namespace GoldenFixtures.Transcript

open Json (Value Members)

namespace Record

/-- The members of two records say the same: they have the same keys, the
directions are equal but for the case of ASCII letters, the timestamps have one
normal form or none for one reason, and the other values are equal up to the
order of members inside. -/
structure IsPresentedAlike (members others : Members) : Prop where
  keys : ∀ key, key ∈ members.keys ↔ key ∈ others.keys
  direction : ∃ text other, Members.get? members Field.direction.key = some (.string text) ∧
    Members.get? others Field.direction.key = some (.string other) ∧ text.toLower = other.toLower
  timestamp : ∃ text other, Members.get? members Field.timestamp.key = some (.string text) ∧
    Members.get? others Field.timestamp.key = some (.string other) ∧
    Timestamp.normalize text = Timestamp.normalize other
  values : ∀ key value other, key ≠ Field.direction.key → key ≠ Field.timestamp.key →
    Members.get? members key = some value → Members.get? others key = some other →
    value.Alike other

/-- A member stands among the other members if its value is the sorted form of
the key's one value. -/
theorem mem_otherMembers_iff_get? {members : Members} (hkeys : members.keys.Nodup)
    {member : String × Value} :
    member ∈ otherMembers members ↔
      member.1 ∉ requiredKeys ∧
        (Members.get? members member.1).map Value.sorted = some member.2 := by
  rw [mem_otherMembers, Option.map_eq_some_iff]
  constructor
  · intro h
    obtain ⟨value, hmem, hother, hvalue⟩ := h
    exact ⟨hother, value, (Members.get?_eq_some_iff hkeys).mpr hmem, hvalue.symm⟩
  · intro h
    obtain ⟨hother, value, hget, hvalue⟩ := h
    exact ⟨value, (Members.get?_eq_some_iff hkeys).mp hget, hother, hvalue.symm⟩

/-- What a normal form is, for a direction and a timestamp that are strings. -/
theorem normalizes_iff_of_get? {members : Members} {word stamp : String} {record : Record}
    (hword : Members.get? members Field.direction.key = some (.string word))
    (hstamp : Members.get? members Field.timestamp.key = some (.string stamp)) :
    Normalizes members record ↔
      Text.lowercase word = record.direction.name ∧
        Timestamp.normalize stamp = .ok record.timestamp ∧
        (Members.get? members Field.envelope.key).map Value.sorted = some record.envelope ∧
        record.others = otherMembers members := by
  rw [Option.map_eq_some_iff]
  constructor
  · intro h
    obtain ⟨⟨text, htext, hname⟩, ⟨text', htext', hnormal⟩, ⟨value, hvalue, hsorted⟩, hothers⟩ := h
    obtain rfl : word = text := Value.string.inj (Option.some.inj (hword.symm.trans htext))
    obtain rfl : stamp = text' := Value.string.inj (Option.some.inj (hstamp.symm.trans htext'))
    exact ⟨hname, hnormal, ⟨value, hvalue, hsorted.symm⟩, hothers⟩
  · intro h
    obtain ⟨hname, hnormal, ⟨value, hvalue, hsorted⟩, hothers⟩ := h
    exact ⟨⟨word, hword, hname⟩, ⟨stamp, hstamp, hnormal⟩, ⟨value, hvalue, hsorted.symm⟩, hothers⟩

namespace IsPresentedAlike

variable {members others : Members}

/-- A value besides the direction and the timestamp has one sorted form. -/
theorem sorted_get? (h : IsPresentedAlike members others)
    (hothers : ∀ member ∈ others, member.2.EveryObject List.Nodup) {key : String}
    (hdirection : key ≠ Field.direction.key) (htimestamp : key ≠ Field.timestamp.key) :
    (Members.get? members key).map Value.sorted = (Members.get? others key).map Value.sorted := by
  have hkey := h.keys key
  rw [← Members.exists_get?_iff, ← Members.exists_get?_iff] at hkey
  cases hvalue : Members.get? members key with
  | none =>
    cases hother : Members.get? others key with
    | none => rfl
    | some other => simp [hvalue, hother] at hkey
  | some value =>
    cases hother : Members.get? others key with
    | none => simp [hvalue, hother] at hkey
    | some other =>
      have halike := h.values key value other hdirection htimestamp hvalue hother
      have hnodup := hothers (key, other) (Members.mem_of_get? hother)
      exact congrArg some (Value.sorted_eq_of_alike halike hnodup)

theorem otherMembers_eq (h : IsPresentedAlike members others) (hmembers : members.keys.Nodup)
    (hothers : (Value.object others).EveryObject List.Nodup) :
    otherMembers members = otherMembers others := by
  rw [Value.everyObject_object] at hothers
  have hsame (member : String × Value) :
      member ∈ otherMembers members ↔ member ∈ otherMembers others := by
    rw [mem_otherMembers_iff_get? hmembers, mem_otherMembers_iff_get? hothers.1]
    apply and_congr_right
    intro hother
    rw [h.sorted_get? hothers.2]
    · intro hkey
      exact hother (by simp [hkey, requiredKeys])
    · intro hkey
      exact hother (by simp [hkey, requiredKeys])
  have hnodup : (Members.keys (otherMembers members)).Nodup :=
    (keys_otherMembers_strict hmembers).imp ne_of_lt
  have hnodup' : (Members.keys (otherMembers others)).Nodup :=
    (keys_otherMembers_strict hothers.1).imp ne_of_lt
  have hperm : (otherMembers members).Perm (otherMembers others) :=
    (List.perm_ext_iff_of_nodup (hnodup.of_map _) (hnodup'.of_map _)).mpr hsame
  calc otherMembers members
      = Members.sortByKey (otherMembers members) := (Members.sortByKey_sortByKey _).symm
    _ = Members.sortByKey (otherMembers others) := Members.sortByKey_eq_of_perm hperm hnodup'
    _ = otherMembers others := Members.sortByKey_sortByKey _

/-- Records that say the same have the same normal forms. -/
theorem normalizes_iff (h : IsPresentedAlike members others) (hmembers : members.keys.Nodup)
    (hothers : (Value.object others).EveryObject List.Nodup) {record : Record} :
    Normalizes members record ↔ Normalizes others record := by
  obtain ⟨word, otherWord, hword, hotherWord, hcase⟩ := h.direction
  obtain ⟨stamp, otherStamp, hstamp, hotherStamp, hinstant⟩ := h.timestamp
  have hlower := Text.lowercase_eq_of_toLower_eq hcase
  have henvelope : (Members.get? members Field.envelope.key).map Value.sorted =
      (Members.get? others Field.envelope.key).map Value.sorted :=
    h.sorted_get? (Value.everyObject_object.mp hothers).2 (by decide) (by decide)
  rw [normalizes_iff_of_get? hword hstamp, normalizes_iff_of_get? hotherWord hotherStamp, hlower,
    hinstant, henvelope, h.otherMembers_eq hmembers hothers]

end IsPresentedAlike

end Record

/-- Two elements of transcripts are records that say the same. -/
def IsPresentedAlike (value other : Value) : Prop :=
  ∃ members others, value = .object members ∧ other = .object others ∧
    Record.IsPresentedAlike members others

theorem IsPresentedAlike.isNormalForm_iff {value other : Value} (h : IsPresentedAlike value other)
    (hvalue : value.EveryObject List.Nodup) (hother : other.EveryObject List.Nodup)
    {record : Record} : IsNormalForm value record ↔ IsNormalForm other record := by
  obtain ⟨members, others, rfl, rfl, halike⟩ := h
  have hmembers := (Value.everyObject_object.mp hvalue).1
  have hiff : Record.Normalizes members record ↔ Record.Normalizes others record :=
    halike.normalizes_iff hmembers hother
  simpa [IsNormalForm] using hiff

theorem forall₂_isNormalForm_iff {items others : List Value} {list : List Record}
    (halike : List.Forall₂ IsPresentedAlike items others)
    (hitems : ∀ item ∈ items, item.EveryObject List.Nodup)
    (hothers : ∀ other ∈ others, other.EveryObject List.Nodup) :
    List.Forall₂ IsNormalForm items list ↔ List.Forall₂ IsNormalForm others list := by
  induction halike generalizing list with
  | nil => exact Iff.rfl
  | cons hfirst _ ih =>
    rw [List.forall_mem_cons] at hitems hothers
    cases list with
    | nil => simp
    | cons record list =>
      rw [List.forall₂_cons, List.forall₂_cons, hfirst.isNormalForm_iff hitems.1 hothers.1,
        ih hitems.2 hothers.2]

/-- Transcripts that differ in nothing but presentation have one normal form, or
none of them has one. -/
theorem normalize_eq_ok_iff_of_presentedAlike {text other : String} {items others : List Value}
    (hread : Value.read text.toList = .ok (.array items))
    (hother : Value.read other.toList = .ok (.array others))
    (halike : List.Forall₂ IsPresentedAlike items others) (output : String) :
    normalize text = .ok output ↔ normalize other = .ok output := by
  have hitems := (Json.read_shape hread).2
  have hothers := (Json.read_shape hother).2
  rw [Value.everyObject_array] at hitems hothers
  rw [normalize_iff_of_read hread, normalize_iff_of_read hother]
  simp only [forall₂_isNormalForm_iff halike hitems hothers]

/-- A transcript of one record. -/
def letter : String :=
  "[\x7b\"direction\":\"SEND\",\"timestamp\":\"2024-02-29\",\"note\":\"x\","
    ++ "\"envelope\":\x7b\"to\":\"b\",\"body\":[\x7b\"y\":1,\"x\":null\x7d]\x7d\x7d]"

/-- The members of its record. -/
def letterMembers : Members :=
  [("direction", .string "SEND"), ("timestamp", .string "2024-02-29"), ("note", .string "x"),
    ("envelope", .object [("to", .string "b"),
      ("body", .array [.object [("y", .number (.ofNat 1)), ("x", .null)]])])]

/-- The same record with other white space and escapes, its members in another
order, a key that repeats, and another direction and timestamp. -/
def restyledLetter : String :=
  " [ \x7b\"note\":\"old\", \"timestamp\":\"2024-02-29T01:00:00+01:00\",\n"
    ++ "\"envelope\":\x7b\"body\":[\x7b\"x\":null,\"y\":1\x7d],\"to\":\"\\u0062\"\x7d,"
    ++ "\"n\\u006Fte\":\"x\",\"direction\":\"sEnd\"\x7d ]"

/-- The members of the record in the other text. -/
def restyledMembers : Members :=
  [("note", .string "x"), ("timestamp", .string "2024-02-29T01:00:00+01:00"),
    ("envelope", .object [("body", .array [.object [("x", .null), ("y", .number (.ofNat 1))]]),
      ("to", .string "b")]),
    ("direction", .string "sEnd")]

/-- The record of both texts in normal form. -/
def letterRecord : Record where
  direction := .send
  timestamp := "2024-02-29T00:00:00.000Z"
  envelope := .object [("body", .array [.object [("x", .null), ("y", .number (.ofNat 1))]]),
    ("to", .string "b")]
  others := [("note", .string "x")]

/-- The normal form of both texts. -/
def letterNormal : String :=
  "[\n  \x7b\n    \"direction\": \"send\",\n    \"timestamp\": \"2024-02-29T00:00:00.000Z\",\n"
    ++ "    \"envelope\": \x7b\n      \"body\": [\n        \x7b\n          \"x\": null,\n"
    ++ "          \"y\": 1\n        \x7d\n      ],\n      \"to\": \"b\"\n    \x7d,\n"
    ++ "    \"note\": \"x\"\n  \x7d\n]\n"

theorem read_letter : Value.read letter.toList = .ok (.array [.object letterMembers]) := by
  cbv

theorem read_restyledLetter :
    Value.read restyledLetter.toList = .ok (.array [.object restyledMembers]) := by
  cbv

theorem normalize_letter : normalize letter = .ok letterNormal := by
  have hrecord : Record.Normalizes letterMembers letterRecord := by
    refine ⟨⟨"SEND", rfl, by decide +kernel⟩,
      ⟨"2024-02-29", rfl, by decide +kernel⟩, ⟨_, rfl, ?_⟩, ?_⟩
    · cbv
    · cbv
  have hrender : letterNormal = render [letterRecord] := by decide +kernel
  exact (normalize_iff_of_read read_letter).mpr
    ⟨[letterRecord], .cons ⟨_, rfl, hrecord⟩ .nil, hrender⟩

theorem isPresentedAlike_restyledMembers :
    Record.IsPresentedAlike letterMembers restyledMembers := by
  have hword : "SEND".toLower = "sEnd".toLower := by
    rw [← String.toList_inj, Text.toList_toLower, Text.toList_toLower]
    decide
  refine ⟨?_, ⟨"SEND", "sEnd", rfl, rfl, hword⟩,
    ⟨"2024-02-29", "2024-02-29T01:00:00+01:00", rfl, rfl, by decide +kernel⟩, ?_⟩
  · have hperm : letterMembers.keys.Perm restyledMembers.keys := by decide
    intro key
    exact hperm.mem_iff
  · intro key value other hdirection htimestamp hvalue hother
    have hmem := Members.mem_of_get? hvalue
    simp only [letterMembers, List.mem_cons, Prod.mk.injEq, List.not_mem_nil, or_false] at hmem
    rcases hmem with ⟨rfl, rfl⟩ | ⟨rfl, rfl⟩ | ⟨rfl, rfl⟩ | ⟨rfl, rfl⟩
    · exact absurd rfl hdirection
    · exact absurd rfl htimestamp
    · cases hother
      rfl
    · cases hother
      refine ⟨_, .swap _ _ _, rfl, rfl, rfl, ⟨⟨?_, trivial⟩, trivial⟩⟩
      exact ⟨_, .swap _ _ _, rfl, rfl, rfl, trivial, trivial⟩

theorem normalize_restyledLetter :
    normalize letter = .ok letterNormal ∧ normalize restyledLetter = .ok letterNormal := by
  have halike : List.Forall₂ IsPresentedAlike [.object letterMembers] [.object restyledMembers] :=
    .cons ⟨_, _, rfl, rfl, isPresentedAlike_restyledMembers⟩ .nil
  have hiff := normalize_eq_ok_iff_of_presentedAlike read_letter read_restyledLetter halike
  exact ⟨normalize_letter, (hiff letterNormal).mp normalize_letter⟩

end GoldenFixtures.Transcript
