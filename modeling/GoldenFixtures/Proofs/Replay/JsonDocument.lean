import Mathlib
import GoldenFixtures.Proofs.Json.ReadTree
import GoldenFixtures.Proofs.Yaml.TreeAlike
import GoldenFixtures.Replay.Verify

/-!
# Replay documents written as JSON

A replay document may be written as JSON, and is read as YAML then.  The two readers agree
on a text exactly if all its parts are the same in YAML (`parse_isLike_iff`).  A surrogate
pair is not, so a text with one is never read (`parse_of_pair`).
-/

namespace GoldenFixtures

namespace Json

/-- The document is a text with its value, part by part. -/
structure Document.Writes (document : Document) (text : List Char) (value : Value) : Prop where
  chars_eq : document.chars = text
  value_eq : document.content.value = value
  nestsIn : document.content.NestsIn maxDepth

/-- The text is one of YAML as well, and all its parts are the same there. -/
structure Document.IsSame (document : Document) : Prop where
  allowed : ∀ c ∈ document.chars, Yaml.isAllowed c = true
  tabs : document.TabsFit
  content : document.content.IsSame

/-- The two values of a document are like each other exactly if all its parts are the
same. -/
theorem Document.isLike_iff {document : Document} (hdistinct : document.content.KeysDistinct) :
    document.HasYaml ∧ document.content.value.IsLike document.content.yaml ↔ document.IsSame := by
  have hcontent := Tree.isLike_yaml_iff hdistinct
  constructor
  · rintro ⟨hyaml, hlike⟩
    exact ⟨hyaml.allowed, hyaml.tabs,
      hcontent.mp ⟨hyaml.scanned, hyaml.short, hyaml.values, hlike⟩⟩
  · rintro ⟨hallowed, htabs, hsame⟩
    obtain ⟨hscanned, hshort, hvalues, hlike⟩ := hcontent.mpr hsame
    exact ⟨⟨hallowed, htabs, hscanned, hshort, hvalues⟩, hlike⟩

end Json

namespace Replay

open Json (Document Tree)

variable {text : String} {document : Document} {value : Json.Value}

/-- What a document is read as, if YAML has a value for it. -/
theorem parse_of_hasYaml (hwrites : document.Writes text.toList value)
    (hyaml : document.HasYaml) : parse text = .ok document.content.yaml := by
  have hread := Yaml.read?_document hwrites.nestsIn (by decide)
  rw [hwrites.chars_eq] at hread
  rw [parse, hread.eq_some hyaml]

theorem parse_of_not_hasYaml (hwrites : document.Writes text.toList value)
    (hyaml : ¬ document.HasYaml) : parse text = .error .invalidYaml := by
  have hread := Yaml.read?_document hwrites.nestsIn (by decide)
  rw [hwrites.chars_eq] at hread
  rw [parse, hread.eq_none hyaml]

theorem parse_eq_error_iff (hwrites : document.Writes text.toList value) :
    parse text = .error .invalidYaml ↔ ¬ document.HasYaml := by
  refine ⟨fun h hyaml => ?_, parse_of_not_hasYaml hwrites⟩
  rw [parse_of_hasYaml hwrites hyaml] at h
  cases h

theorem exists_like_iff (hwrites : document.Writes text.toList value)
    (hdistinct : document.content.KeysDistinct) :
    (∃ parsed, parse text = .ok parsed ∧ value.IsLike parsed) ↔ document.IsSame := by
  rw [← Document.isLike_iff hdistinct, hwrites.value_eq]
  constructor
  · rintro ⟨parsed, hparse, hlike⟩
    by_cases hyaml : document.HasYaml
    · rw [parse_of_hasYaml hwrites hyaml, Except.ok.injEq] at hparse
      exact ⟨hyaml, hparse ▸ hlike⟩
    · rw [parse_of_not_hasYaml hwrites hyaml] at hparse
      cases hparse
  · rintro ⟨hyaml, hlike⟩
    exact ⟨_, parse_of_hasYaml hwrites hyaml, hlike⟩

/-- Every text that is JSON is that of a document.  It is invalid YAML exactly if YAML has
no value for some part of the document.  If no key repeats in an object, then both readers
give like values exactly if all parts are the same in YAML. -/
theorem parse_isLike_iff (text : String) (value : Json.Value)
    (hread : Json.Value.read text.toList = .ok value) :
    (∃ document : Document, document.Writes text.toList value) ∧
      ∀ document : Document, document.Writes text.toList value →
        (parse text = .error .invalidYaml ↔ ¬ document.HasYaml) ∧
          (document.content.KeysDistinct →
            ((∃ parsed, parse text = .ok parsed ∧ value.IsLike parsed) ↔ document.IsSame)) := by
  obtain ⟨document, hchars, hvalue, hnests⟩ := Json.exists_document_of_read hread
  exact ⟨⟨document, hchars, hvalue, hnests⟩,
    fun document hwrites => ⟨parse_eq_error_iff hwrites, exists_like_iff hwrites⟩⟩

/-- The document with the text `{"id":[1,true]}`. -/
def listDocument : Document :=
  ⟨.none, .object .none
    [⟨⟨.none, [.plain 'i' (by decide), .plain 'd' (by decide)], .none⟩, .none,
      .array .none [⟨.none, .scalar (.number (.ofNat 1) ⟨false, false⟩), .none⟩,
        ⟨.none, .scalar (.bool true), .none⟩], .none⟩], .none⟩

/-- The text of `listDocument`. -/
def listText : String := "\x7b\"id\":[1,true]\x7d"

/-- The value of `listDocument`. -/
def listValue : Json.Value := .object [("id", .array [.number (.ofNat 1), .bool true])]

theorem parse_listText :
    Json.Value.read listText.toList = .ok listValue ∧
      listDocument.Writes listText.toList listValue ∧ listDocument.content.KeysDistinct ∧
        ∃ parsed, parse listText = .ok parsed ∧ listValue.IsLike parsed := by
  have hread : Json.Value.read listText.toList = .ok listValue := by cbv
  have hwrites : listDocument.Writes listText.toList listValue := by
    refine ⟨by decide +kernel, by rfl, Tree.nestsIn_object.mpr ⟨126, rfl, ?_⟩⟩
    exact List.forall_mem_singleton.mpr (Tree.nestsIn_array.mpr ⟨125, rfl, by simp⟩)
  have hdistinct : listDocument.content.KeysDistinct := by
    simp [listDocument, Tree.KeysDistinct]
  have hfits : (Json.Number.ofNat 1).Fits := by
    have hnarrow : Yaml.IsNarrow 1 := by decide
    have hinteger : (Json.Number.ofNat 1).integer? = some 1 := by rfl
    refine ⟨fun i hi _ => ?_, fun h => absurd hnarrow (h 1 hinteger)⟩
    rwa [Option.mem_unique hi hinteger]
  have hsame : listDocument.IsSame := by
    have hallowed : ∀ c ∈ listDocument.chars, Yaml.isAllowed c = true :=
      List.all_eq_true.mp (by decide +kernel)
    refine ⟨hallowed, ⟨by decide, Or.inr (by decide)⟩, Tree.all_object.mpr ⟨⟨?_, ?_⟩, ?_⟩⟩
    · exact List.forall_mem_singleton.mpr ⟨by decide +kernel, by rfl⟩
    · rintro _ ⟨⟩
      decide
    · simp [Json.Scalar.IsSame, hfits]
  obtain ⟨-, hdocuments⟩ := parse_isLike_iff listText listValue hread
  exact ⟨hread, hwrites, hdistinct, ((hdocuments listDocument hwrites).2 hdistinct).mpr hsame⟩

/-- A text is invalid YAML wherever a surrogate pair stands in it. -/
theorem parse_of_pair (hwrites : document.Writes text.toList value)
    (hpair : ¬ document.content.NoPair) : parse text = .error .invalidYaml :=
  parse_of_not_hasYaml hwrites fun hyaml => hpair (Tree.noPair_of_isScanned hyaml.scanned)

/-- A text with a surrogate pair. -/
def pairText : String := "\x7b\"scenario\":\"\\ud83d\\ude00\"\x7d"

/-- The text is JSON without a repeated key, and is invalid YAML. -/
theorem parse_pairText :
    Json.Value.read pairText.toList = .ok (.object [("scenario", .string "😀")]) ∧
      parse pairText = .error .invalidYaml := by
  have hread : Yaml.Value.read? pairText.toList = none :=
    Option.isNone_iff_eq_none.mp (by decide +kernel)
  exact ⟨by cbv, by rw [parse, hread]⟩

end Replay

end GoldenFixtures
