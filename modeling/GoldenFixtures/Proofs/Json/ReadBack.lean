import Mathlib.Data.List.Forall2
import GoldenFixtures.Proofs.Json.Scalars
import GoldenFixtures.Proofs.Json.Shape

/-!
# Values read back

What the writer makes of a value over several lines is read again as the same
value: `readValue_pretty` in front of any text that cannot go on with a number,
and `read_toPretty` for a whole text.  The value may not nest deeper than the
reader allows, its keys have to be distinct in every object, and no object may
start with the key that spells a number; these are what the reader gives itself.

The lemmas on arrays and objects speak of parts that a reader of parts reads
back (`Reads`), with any white space in front of them, so they do not depend on
the layout.
-/

namespace GoldenFixtures.Json

/-! ## White space -/

theorem skipSpace_cons_of_not {c : Char} (h : isSpace c = false) (text : List Char) :
    skipSpace (c :: text) = c :: text := by
  simp [skipSpace, h]

theorem skipSpace_append_of_cons {written tail : List Char} {c : Char}
    (h : skipSpace written = c :: tail) (rest : List Char) :
    skipSpace (written ++ rest) = c :: tail ++ rest := by
  unfold skipSpace at h ⊢
  rw [List.dropWhile_append, h]
  rfl

theorem skipSpace_append_of_nil {blank : List Char} (h : skipSpace blank = [])
    (rest : List Char) : skipSpace (blank ++ rest) = skipSpace rest := by
  unfold skipSpace at h ⊢
  rw [List.dropWhile_append, h]
  rfl

@[simp] theorem skipSpace_skipSpace (text : List Char) :
    skipSpace (skipSpace text) = skipSpace text := by
  induction text with
  | nil => rfl
  | cons c text ih =>
    cases hc : isSpace c with
    | true =>
      have hskip : skipSpace (c :: text) = skipSpace text := by simp [skipSpace, hc]
      rw [hskip, ih]
    | false => rw [skipSpace_cons_of_not hc, skipSpace_cons_of_not hc]

@[simp] theorem skipSpace_newLine (level : Nat) : skipSpace (newLine level) = [] := by
  have hblank : isSpace ' ' = true := by decide
  unfold skipSpace newLine
  rw [List.dropWhile_cons_of_pos (by decide), List.dropWhile_replicate, hblank]
  rfl

theorem skipSpace_quote {blank : List Char} (hblank : skipSpace blank = []) (key : String)
    (rest : List Char) : skipSpace (blank ++ (quote key ++ rest)) = quote key ++ rest := by
  rw [skipSpace_append_of_nil hblank]
  exact skipSpace_cons_of_not (by decide) _

theorem readValue_skipSpace (depth : Nat) (text : List Char) :
    readValue depth (skipSpace text) = readValue depth text := by
  rw [readValue, readValue, skipSpace_skipSpace]

theorem readValue_blank (depth : Nat) (text : List Char) :
    readValue depth (' ' :: text) = readValue depth text := by
  have hblank : skipSpace (' ' :: text) = skipSpace text := rfl
  rw [← readValue_skipSpace, hblank, readValue_skipSpace]

/-! ## Parts between commas -/

/-- Behind the white space at its front, a text is what a reader of parts reads
as `a`, whatever follows that cannot go on with a number. -/
structure Reads {α : Type} (part : List Char → Except Fault (α × List Char))
    (written : List Char) (a : α) : Prop where
  start : ∃ c tail, skipSpace written = c :: tail ∧ c ≠ ']' ∧ c ≠ '}'
  read : ∀ rest, Stops rest → part (skipSpace written ++ rest) = .ok (a, rest)

/-- A character that closes an array or an object. -/
def Closing.Closes (closing : Closing) : Prop :=
  closing.character = ']' ∨ closing.character = '}'

theorem closes_bracket : Closing.bracket.Closes := Or.inl rfl

theorem closes_brace : Closing.brace.Closes := Or.inr rfl

theorem Closing.Closes.ne {closing : Closing} (h : closing.Closes) {c : Char} (hbracket : c ≠ ']')
    (hbrace : c ≠ '}') : c ≠ closing.character := by
  rcases h with h | h
  · rw [h]
    exact hbracket
  · rw [h]
    exact hbrace

theorem separated_cons (written : List Char) (others : List (List Char)) :
    separated [','] (written :: others) = written ++ others.flatMap fun other => ',' :: other := by
  induction others generalizing written with
  | nil => simp [separated]
  | cons other others ih => simp [separated, ih]

theorem stops_comma (rest : List Char) : Stops (',' :: rest) :=
  stops_cons (by decide) rest

section

variable {α : Type} {part : List Char → Except Fault (α × List Char)} {closing : Closing}

/-- Parts with commas between them are read one after the other. -/
theorem readParts_written (hclosing : closing.Closes) {close rest : List Char}
    (hclose : skipSpace close = closing.character :: rest) (hstops : Stops close)
    {written : List Char} {a : α} (hfirst : Reads part written a)
    {others : List (List Char)} {as : List α} (hothers : List.Forall₂ (Reads part) others as)
    {steps : Nat} (hsteps : others.length < steps) :
    readParts closing part steps
        (skipSpace written ++ ((others.flatMap fun other => ',' :: other) ++ close)) =
      .ok (a :: as, rest) := by
  obtain ⟨steps, rfl⟩ : ∃ n, steps = n + 1 := ⟨steps - 1, by omega⟩
  induction hothers generalizing written a steps with
  | nil =>
    simp only [List.flatMap_nil, List.nil_append, readParts, hfirst.read close hstops, ok_bind,
      hclose, if_true]
    rfl
  | @cons next b others as hnext hrest ih =>
    obtain ⟨c, tail, hstart, hbracket, hbrace⟩ := hnext.start
    have hopen : c ≠ closing.character := hclosing.ne hbracket hbrace
    have hcomma : ',' ≠ closing.character := hclosing.ne (by decide) (by decide)
    rw [List.length_cons] at hsteps
    have hnext' := ih hnext (steps - 1) (by omega)
    rw [hstart, Nat.sub_add_cancel (by omega)] at hnext'
    have hspace : isSpace ',' = false := by decide
    simp only [List.flatMap_cons, List.cons_append, List.append_assoc, readParts,
      hfirst.read _ (stops_comma _), ok_bind, skipSpace_cons_of_not hspace, hcomma, if_false, if_true,
      skipSpace_append_of_cons hstart, hopen]
    rw [← List.cons_append, hnext']
    rfl

theorem length_le_flatMap_comma (others : List (List Char)) :
    others.length ≤ (others.flatMap fun other => ',' :: other).length := by
  induction others with
  | nil => simp
  | cons other others ih =>
    simp only [List.flatMap_cons, List.length_append, List.length_cons]
    omega

/-- Separated parts start where the first one does. -/
theorem skipSpace_separated {written tail : List Char} {c : Char}
    (h : skipSpace written = c :: tail) (others : List (List Char)) (close : List Char) :
    skipSpace (separated [','] (written :: others) ++ close) =
      skipSpace written ++ ((others.flatMap fun other => ',' :: other) ++ close) := by
  rw [separated_cons, List.append_assoc, skipSpace_append_of_cons h, h]

/-- Separated parts are read as a whole, with as many steps as there are
characters. -/
theorem readParts_separated (hclosing : closing.Closes) {close rest : List Char}
    (hclose : skipSpace close = closing.character :: rest) (hstops : Stops close)
    {written : List Char} {a : α} (hfirst : Reads part written a)
    {others : List (List Char)} {as : List α} (hothers : List.Forall₂ (Reads part) others as) :
    ∃ c tail, skipSpace (separated [','] (written :: others) ++ close) = c :: tail ∧
      c ≠ ']' ∧ c ≠ '}' ∧
      readParts closing part ((c :: tail).length + 1) (c :: tail) = .ok (a :: as, rest) := by
  obtain ⟨c, tail, hstart, hbracket, hbrace⟩ := hfirst.start
  have hskip := skipSpace_separated hstart others close
  have hlength := length_le_flatMap_comma others
  rw [hstart, List.cons_append] at hskip
  refine ⟨c, _, hskip, hbracket, hbrace, ?_⟩
  rw [← List.cons_append, ← hstart]
  apply readParts_written hclosing hclose hstops hfirst hothers
  simp only [List.length_append]
  omega

end

/-! ## Arrays and objects -/

section

variable {item : List Char → Except Fault (Value × List Char)}

theorem readArray_separated {close rest : List Char} (hclose : skipSpace close = ']' :: rest)
    (hstops : Stops close) {texts : List (List Char)} {items : List Value} (hne : texts ≠ [])
    (hitems : List.Forall₂ (Reads item) texts items) :
    readArray item (separated [','] texts ++ close) = .ok (items, rest) := by
  cases hitems with
  | nil => exact absurd rfl hne
  | cons hfirst hothers =>
    obtain ⟨c, tail, hskip, hbracket, _, hread⟩ :=
      readParts_separated closes_bracket hclose hstops hfirst hothers
    unfold readArray
    rw [hskip]
    split
    · rename_i h
      exact nomatch h
    · rename_i h
      exact absurd (List.cons.inj h).1 hbracket
    · exact hread

/-- A member is read back if its value is. -/
theorem reads_member {blank written : List Char} {key : String} {value : Value}
    (hblank : skipSpace blank = [])
    (hvalue : ∀ rest, Stops rest → item (written ++ rest) = .ok (value, rest)) :
    Reads (readMember item) (blank ++ (quote key ++ ':' :: written)) (key, value) := by
  have hskip := skipSpace_quote hblank key (':' :: written)
  constructor
  · exact ⟨'"', _, hskip, by decide, by decide⟩
  · intro rest hrest
    rw [hskip]
    simp only [quote, List.cons_append, List.append_assoc, List.nil_append, readMember,
      readString_quote, ok_bind, skipSpace_cons_of_not (show isSpace ':' = false by decide),
      hvalue rest hrest]
    rfl

theorem behindNumberKey?_quote {key : String} (h : key ≠ numberKey) (rest : List Char) :
    behindNumberKey? (quote key ++ rest) = none := by
  simp only [quote, List.cons_append, List.append_assoc, List.nil_append, behindNumberKey?,
    readString_quote, h, if_false]

theorem readObject_separated {close rest : List Char} (hclose : skipSpace close = '}' :: rest)
    (hstops : Stops close) {written more : List Char} {member : String × Value}
    (hwritten : skipSpace written = quote member.1 ++ more) (hkey : member.1 ≠ numberKey)
    (hfirst : Reads (readMember item) written member) {others : List (List Char)}
    {members : Members} (hothers : List.Forall₂ (Reads (readMember item)) others members)
    (hkeys : (Members.keys (member :: members)).Nodup) :
    readObject item (separated [','] (written :: others) ++ close) =
      .ok (.object (member :: members), rest) := by
  obtain ⟨c, tail, hskip, _, hbrace, hread⟩ :=
    readParts_separated closes_brace hclose hstops hfirst hothers
  have hquote : ∃ more', c :: tail = quote member.1 ++ more' := by
    rw [← hskip, separated_cons, List.append_assoc]
    rw [quote, List.cons_append] at hwritten
    rw [skipSpace_append_of_cons hwritten]
    exact ⟨_, by rw [quote, List.cons_append, List.cons_append, List.append_assoc]⟩
  obtain ⟨more', hquote⟩ := hquote
  unfold readObject
  rw [hskip]
  split
  · rename_i h
    exact nomatch h
  · rename_i h
    exact absurd (List.cons.inj h).1 hbrace
  · rw [hquote, behindNumberKey?_quote hkey, ← hquote, hread]
    simp only [ok_map, Members.ofPairs_of_nodup hkeys]

end

/-! ## Values -/

/-- Keys that an object may have to be read back: they are distinct, and the
first does not spell a number. -/
def ReadableKeys (keys : List String) : Prop := keys.Nodup ∧ keys.head? ≠ some numberKey

/-- Keys that may be read back in any order: they are distinct, and none spells
a number. -/
def PlainKeys (keys : List String) : Prop := keys.Nodup ∧ numberKey ∉ keys

theorem PlainKeys.readable {keys : List String} (h : PlainKeys keys) : ReadableKeys keys :=
  ⟨h.1, fun hhead => h.2 (List.mem_of_mem_head? hhead)⟩

theorem PlainKeys.perm {keys others : List String} (hperm : keys.Perm others)
    (h : PlainKeys keys) : PlainKeys others :=
  ⟨hperm.nodup_iff.mp h.1, fun hmem => h.2 (hperm.mem_iff.mpr hmem)⟩

theorem isSpace_toChar (d : Digit) : isSpace d.toChar = false := by
  revert d
  decide

theorem toChar_ne (d : Digit) :
    d.toChar ≠ '"' ∧ d.toChar ≠ '[' ∧ d.toChar ≠ '{' ∧ d.toChar ≠ 'n' ∧ d.toChar ≠ 't' ∧
      d.toChar ≠ 'f' ∧ d.toChar ≠ '-' ∧ d.toChar ≠ ']' ∧ d.toChar ≠ '}' := by
  revert d
  decide

theorem unsignedChars_eq_cons (n : Number) :
    ∃ (d : Digit) (tail : List Char), n.unsignedChars = d.toChar :: tail := by
  unfold Number.unsignedChars
  cases hdigits : Digits.ofNat n.whole with
  | nil => exact absurd hdigits (Digits.ofNat_ne_nil _)
  | cons d digits => exact ⟨d, _, rfl⟩

theorem readValue_number (depth : Nat) (n : Number) {rest : List Char} (h : Stops rest) :
    readValue depth (n.toChars ++ rest) = .ok (.number n, rest) := by
  have hread := readUnsigned_unsignedChars n h
  rw [Number.toChars_eq]
  cases hsign : n.negative with
  | true =>
    rw [hsign] at hread
    rw [readValue]
    simp only [if_true, List.cons_append, List.nil_append,
      skipSpace_cons_of_not (show isSpace '-' = false by decide), Char.reduceEq, if_false, hread,
      ok_map]
  | false =>
    obtain ⟨d, tail, hunsigned⟩ := unsignedChars_eq_cons n
    obtain ⟨h1, h2, h3, h4, h5, h6, h7, _, _⟩ := toChar_ne d
    rw [hsign, hunsigned, List.cons_append] at hread
    rw [readValue]
    simp only [Bool.false_eq_true, if_false, List.nil_append, hunsigned, List.cons_append,
      skipSpace_cons_of_not (isSpace_toChar d), h1, h2, h3, h4, h5, h6, h7,
      Digit.ofChar?_toChar, Option.isSome_some, if_true, hread, ok_map]

theorem pretty_start (level : Nat) (value : Value) :
    ∃ c tail, value.pretty level = c :: tail ∧ isSpace c = false ∧ c ≠ ']' ∧ c ≠ '}' := by
  cases value with
  | null => exact ⟨'n', _, rfl, by decide⟩
  | bool flag =>
    cases flag with
    | true => exact ⟨'t', _, rfl, by decide⟩
    | false => exact ⟨'f', _, rfl, by decide⟩
  | number n =>
    rw [Value.pretty, Number.toChars_eq]
    cases n.negative with
    | true => exact ⟨'-', _, rfl, by decide⟩
    | false =>
      obtain ⟨d, tail, hunsigned⟩ := unsignedChars_eq_cons n
      obtain ⟨_, _, _, _, _, _, _, hbracket, hbrace⟩ := toChar_ne d
      exact ⟨d.toChar, tail, hunsigned, isSpace_toChar d, hbracket, hbrace⟩
  | string text => exact ⟨'"', _, rfl, by decide⟩
  | array items =>
    cases items with
    | nil => exact ⟨'[', _, rfl, by decide⟩
    | cons item items => exact ⟨'[', _, rfl, by decide⟩
  | object members =>
    cases members with
    | nil => exact ⟨'{', _, rfl, by decide⟩
    | cons member members => exact ⟨'{', _, rfl, by decide⟩

theorem skipSpace_newLine_pretty (level : Nat) (value : Value) :
    skipSpace (newLine level ++ value.pretty level) = value.pretty level := by
  obtain ⟨c, tail, hpretty, hspace, -, -⟩ := pretty_start level value
  rw [skipSpace_append_of_nil (skipSpace_newLine level), hpretty, skipSpace_cons_of_not hspace]

/-- A value on a line of its own is a part that is read back, if the value
itself is read back. -/
theorem reads_newLine_pretty {depth level : Nat} {value : Value}
    (h : ∀ rest, Stops rest → readValue depth (value.pretty level ++ rest) = .ok (value, rest)) :
    Reads (readValue depth) (newLine level ++ value.pretty level) value := by
  obtain ⟨c, tail, hpretty, -, hbracket, hbrace⟩ := pretty_start level value
  have hskip := skipSpace_newLine_pretty level value
  constructor
  · exact ⟨c, tail, by rw [hskip, hpretty], hbracket, hbrace⟩
  · intro rest hrest
    rw [hskip, h rest hrest]

/-- A member on a line of its own is a part that is read back, if its value is. -/
theorem reads_newLine_member {depth level : Nat} {member : String × Value}
    (h : ∀ rest, Stops rest →
      readValue depth (member.2.pretty level ++ rest) = .ok (member.2, rest)) :
    Reads (readMember (readValue depth))
      (newLine level ++ quote member.1 ++ ':' :: ' ' :: member.2.pretty level) member := by
  rw [List.append_assoc]
  apply reads_member (skipSpace_newLine _)
  intro rest hrest
  rw [List.cons_append, readValue_blank, h rest hrest]

theorem skipSpace_newLine_append_cons (level : Nat) {c : Char} (hc : isSpace c = false)
    (rest : List Char) : skipSpace (newLine level ++ c :: rest) = c :: rest := by
  rw [skipSpace_append_of_nil (skipSpace_newLine level), skipSpace_cons_of_not hc]

theorem skipSpace_newLine_quote (level : Nat) (key : String) (rest : List Char) :
    skipSpace (newLine level ++ quote key ++ rest) = quote key ++ rest := by
  rw [List.append_assoc, skipSpace_quote (skipSpace_newLine level)]

theorem stops_newLine_append (level : Nat) (rest : List Char) : Stops (newLine level ++ rest) :=
  stops_cons (by decide) _

theorem readValue_bracket (depth : Nat) (left : List Char) :
    readValue (depth + 1) ('[' :: left) =
      (readArray (readValue depth) left).map fun read => (.array read.1, read.2) := by
  rw [readValue]
  rfl

theorem readValue_brace (depth : Nat) (left : List Char) :
    readValue (depth + 1) ('{' :: left) = readObject (readValue depth) left := by
  rw [readValue]
  rfl

theorem readValue_pretty_array {items : List Value} {depth : Nat} (level : Nat)
    (hitems : ∀ item ∈ items, ∀ rest, Stops rest →
      readValue depth (item.pretty (level + 1) ++ rest) = .ok (item, rest)) (rest : List Char) :
    readValue (depth + 1) ((Value.array items).pretty level ++ rest) =
      .ok (.array items, rest) := by
  cases items with
  | nil =>
    rw [Value.pretty, List.cons_append, readValue_bracket]
    rfl
  | cons item items =>
    have hparts : List.Forall₂ (Reads (readValue depth))
        (Value.prettyItems (level + 1) (item :: items)) (item :: items) := by
      rw [Value.prettyItems_eq_map, List.forall₂_map_left_iff, List.forall₂_same]
      intro other hother
      exact reads_newLine_pretty (hitems other hother)
    rw [Value.pretty, List.cons_append, readValue_bracket, List.append_assoc, List.append_assoc,
      List.singleton_append]
    rw [readArray_separated (skipSpace_newLine_append_cons level (by decide) rest)
      (stops_newLine_append level _) (by simp [Value.prettyItems]) hparts]
    rfl

theorem readValue_pretty_object {members : Members} {depth : Nat} (level : Nat)
    (hkeys : ReadableKeys members.keys)
    (hmembers : ∀ member ∈ members, ∀ rest, Stops rest →
      readValue depth (member.2.pretty (level + 1) ++ rest) = .ok (member.2, rest))
    (rest : List Char) :
    readValue (depth + 1) ((Value.object members).pretty level ++ rest) =
      .ok (.object members, rest) := by
  cases members with
  | nil =>
    rw [Value.pretty, List.cons_append, readValue_brace]
    rfl
  | cons member members =>
    have hfirst := skipSpace_newLine_quote (level + 1) member.1
      (':' :: ' ' :: member.2.pretty (level + 1))
    have hothers : List.Forall₂ (Reads (readMember (readValue depth)))
        (Value.prettyMembers (level + 1) members) members := by
      rw [Value.prettyMembers_eq_map, List.forall₂_map_left_iff, List.forall₂_same]
      intro other hother
      exact reads_newLine_member (hmembers other (List.mem_cons_of_mem _ hother))
    have hkey : member.1 ≠ numberKey := by
      intro hkey
      exact hkeys.2 (by rw [Members.keys_cons, hkey, List.head?_cons])
    rw [Value.pretty, List.cons_append, readValue_brace, List.append_assoc, List.append_assoc,
      List.singleton_append, Value.prettyMembers]
    exact readObject_separated (skipSpace_newLine_append_cons level (by decide) rest)
      (stops_newLine_append level _) hfirst hkey (reads_newLine_member (hmembers member (by simp)))
      hothers hkeys.1

/-- A written value is read back, in front of any text that cannot go on with a
number. -/
theorem readValue_pretty {value : Value} {depth : Nat} (level : Nat) (hdepth : value.depth ≤ depth)
    (hkeys : value.EveryObject ReadableKeys) {rest : List Char} (hrest : Stops rest) :
    readValue depth (value.pretty level ++ rest) = .ok (value, rest) := by
  induction value using Value.inductionOn generalizing depth level rest with
  | null => rw [readValue]; rfl
  | bool flag => cases flag <;> (rw [readValue]; rfl)
  | number n => exact readValue_number depth n hrest
  | string text =>
    rw [readValue]
    simp only [Value.pretty, quote, List.cons_append, List.append_assoc, List.nil_append,
      skipSpace_cons_of_not (show isSpace '"' = false by decide), if_true, readString_quote, ok_map]
  | array items ih =>
    obtain ⟨depth, rfl, hitems⟩ := Value.depth_array_le_iff.mp hdepth
    rw [Value.everyObject_array] at hkeys
    apply readValue_pretty_array
    intro item hitem rest hrest
    exact ih item hitem (level + 1) (hitems item hitem) (hkeys item hitem) hrest
  | object members ih =>
    obtain ⟨depth, rfl, hmembers⟩ := Value.depth_object_le_iff.mp hdepth
    rw [Value.everyObject_object] at hkeys
    apply readValue_pretty_object level hkeys.1
    intro member hmember rest hrest
    exact ih member hmember (level + 1) (hmembers member hmember) (hkeys.2 member hmember) hrest

/-- A value that is written over several lines is read back from the text. -/
theorem read_toPretty {value : Value} (hdepth : value.depth ≤ maxDepth)
    (hkeys : value.EveryObject ReadableKeys) :
    Value.read value.toPretty.toList = .ok value := by
  have hread := readValue_pretty 0 hdepth hkeys (stops_cons (c := '\n') (by decide) [])
  unfold Value.read readWholeText Value.toPretty
  rw [String.toList_ofList, hread]
  rfl

end GoldenFixtures.Json
