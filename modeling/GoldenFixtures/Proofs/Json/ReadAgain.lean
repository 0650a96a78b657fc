import GoldenFixtures.Proofs.Json.ReadShape

/-!
# Values read again

What the writer makes of a value is read as this value or not at all
(`eq_of_read_toPretty`), even if the value nests too deep or has objects that
start with the key that spells a number.  All that its objects need is that their
keys are distinct and that the key of a number is not the only one.

An object that starts with that key and has another member is refused: behind the
number's text there is a comma (`readNumberObject_ne_ok`).
-/

namespace GoldenFixtures.Json

/-- Keys that are not mistaken for those of a number, in whatever order: they are
distinct, and the one that spells a number does not stand alone. -/
def SafeKeys (keys : List String) : Prop := keys.Nodup ∧ keys ≠ [numberKey]

theorem SafeKeys.perm {keys others : List String} (hperm : keys.Perm others)
    (h : SafeKeys keys) : SafeKeys others := by
  refine ⟨hperm.nodup_iff.mp h.1, ?_⟩
  rintro rfl
  exact h.2 (List.perm_singleton.mp hperm)

theorem ReadableKeys.safe {keys : List String} (h : ReadableKeys keys) : SafeKeys keys := by
  refine ⟨h.1, ?_⟩
  rintro rfl
  exact h.2 rfl

/-! ## Parts between commas -/

/-- Behind the white space at its front, a text is what a reader of parts reads
as `a` or refuses, whatever follows that cannot go on with a number. -/
structure ReadsOnly {α : Type} (part : List Char → Except Fault (α × List Char))
    (written : List Char) (a : α) : Prop where
  start : ∃ c tail, skipSpace written = c :: tail ∧ c ≠ ']' ∧ c ≠ '}'
  read : ∀ rest read, Stops rest → part (skipSpace written ++ rest) = .ok read → read = (a, rest)

section

variable {α : Type} {part : List Char → Except Fault (α × List Char)} {closing : Closing}

/-- Parts with commas between them are read as no others. -/
theorem eq_of_readParts (hclosing : closing.Closes) {close rest : List Char}
    (hclose : skipSpace close = closing.character :: rest) (hstops : Stops close)
    {written : List Char} {a : α} (hfirst : ReadsOnly part written a)
    {others : List (List Char)} {as : List α} (hothers : List.Forall₂ (ReadsOnly part) others as)
    {steps : Nat} {read : List α × List Char}
    (h : readParts closing part steps
      (skipSpace written ++ ((others.flatMap fun other => ',' :: other) ++ close)) = .ok read) :
    read = (a :: as, rest) := by
  induction hothers generalizing written a steps read with
  | nil =>
    cases steps with
    | zero => cases h
    | succ steps =>
      rw [readParts] at h
      obtain ⟨first, hpart, h⟩ := bind_eq_ok.mp h
      obtain rfl := hfirst.read _ _ hstops hpart
      simp only [hclose, if_true] at h
      cases h
      rfl
  | @cons next b others as hnext _ ih =>
    cases steps with
    | zero => cases h
    | succ steps =>
      obtain ⟨c, tail, hstart, hbracket, hbrace⟩ := hnext.start
      have hopen : c ≠ closing.character := hclosing.ne hbracket hbrace
      have hcomma : ',' ≠ closing.character := hclosing.ne (by decide) (by decide)
      rw [readParts] at h
      obtain ⟨first, hpart, h⟩ := bind_eq_ok.mp h
      simp only [List.flatMap_cons, List.cons_append, List.append_assoc] at hpart
      obtain rfl := hfirst.read _ _ (stops_comma _) hpart
      have hspace : isSpace ',' = false := by decide
      simp only [skipSpace_cons_of_not hspace, hcomma, if_false, if_true,
        skipSpace_append_of_cons hstart, List.cons_append, hopen] at h
      obtain ⟨behind, hbehind, h⟩ := bind_eq_ok.mp h
      rw [← List.cons_append, ← hstart] at hbehind
      obtain rfl := ih hnext hbehind
      cases h
      rfl

end

/-! ## Arrays and objects -/

section

variable {item : List Char → Except Fault (Value × List Char)}

theorem eq_of_readArray {close rest : List Char} (hclose : skipSpace close = ']' :: rest)
    (hstops : Stops close) {texts : List (List Char)} {items : List Value} (hne : texts ≠ [])
    (hitems : List.Forall₂ (ReadsOnly item) texts items) {read : List Value × List Char}
    (h : readArray item (separated [','] texts ++ close) = .ok read) : read = (items, rest) := by
  cases hitems with
  | nil => exact absurd rfl hne
  | @cons written first others items hfirst hothers =>
    obtain ⟨c, tail, hstart, hbracket, -⟩ := hfirst.start
    have hskip := skipSpace_separated hstart others close
    unfold readArray at h
    rw [hskip, hstart, List.cons_append] at h
    split at h
    · rename_i hnil
      exact nomatch hnil
    · rename_i hcons
      exact absurd (List.cons.inj hcons).1 hbracket
    · rw [← List.cons_append, ← hstart] at h
      exact eq_of_readParts closes_bracket hclose hstops hfirst hothers h

/-- A member is read as no other if its value is. -/
theorem readsOnly_member {blank written : List Char} {key : String} {value : Value}
    (hblank : skipSpace blank = [])
    (hvalue : ∀ rest read, Stops rest → item (written ++ rest) = .ok read → read = (value, rest)) :
    ReadsOnly (readMember item) (blank ++ (quote key ++ ':' :: written)) (key, value) := by
  have hskip := skipSpace_quote hblank key (':' :: written)
  constructor
  · exact ⟨'"', _, hskip, by decide, by decide⟩
  · intro rest read hrest h
    rw [hskip] at h
    simp only [quote, List.cons_append, List.append_assoc, List.nil_append, readMember,
      readString_quote, ok_bind, skipSpace_cons_of_not (show isSpace ':' = false by decide)] at h
    obtain ⟨found, hfound, h⟩ := bind_eq_ok.mp h
    obtain rfl := hvalue rest found hrest hfound
    cases h
    rfl

end

/-! ## The key of a number -/

theorem behindNumberKey?_quote_numberKey (rest : List Char) :
    behindNumberKey? (quote numberKey ++ rest) = some rest := by
  simp only [quote, List.cons_append, List.append_assoc, List.nil_append, behindNumberKey?,
    readString_quote, if_true]

/-- A written value that starts with a quote is a string. -/
theorem exists_of_pretty_quote {value : Value} {level : Nat} {tail : List Char}
    (h : value.pretty level = '"' :: tail) : ∃ text, value = .string text := by
  have hstart : ∀ c rest, value.pretty level = c :: rest → c = '"' := by
    intro c rest hcons
    exact (List.cons.inj (hcons.symm.trans h)).1
  cases value with
  | string text => exact ⟨text, rfl⟩
  | null => exact absurd (hstart 'n' _ rfl) (by decide)
  | bool flag =>
    cases flag with
    | true => exact absurd (hstart 't' _ rfl) (by decide)
    | false => exact absurd (hstart 'f' _ rfl) (by decide)
  | number n =>
    rw [Value.pretty, Number.toChars_eq] at hstart
    cases hsign : n.negative with
    | true =>
      rw [hsign] at hstart
      exact absurd (hstart '-' _ rfl) (by decide)
    | false =>
      obtain ⟨d, digits, hunsigned⟩ := unsignedChars_eq_cons n
      rw [hsign, hunsigned] at hstart
      exact absurd (hstart _ _ rfl) (toChar_ne d).1
  | array items =>
    cases items with
    | nil => exact absurd (hstart '[' _ rfl) (by decide)
    | cons item items => exact absurd (hstart '[' _ rfl) (by decide)
  | object members =>
    cases members with
    | nil => exact absurd (hstart '{' _ rfl) (by decide)
    | cons member members => exact absurd (hstart '{' _ rfl) (by decide)

/-- What stands in the place of a number's text is a string. -/
theorem exists_of_readNumberString {text left : List Char} {n : Number}
    (h : readNumberString text = .ok (n, left)) :
    ∃ behind characters, skipSpace text = '"' :: behind ∧
      readString behind = .ok (characters, left) := by
  unfold readNumberString at h
  split at h
  · rename_i behind hskip
    obtain ⟨⟨characters, after⟩, hstring, h⟩ := bind_eq_ok.mp h
    obtain ⟨number, -, h⟩ := bind_eq_ok.mp h
    cases h
    exact ⟨behind, characters, hskip, hstring⟩
  · obtain ⟨found, -, h⟩ := bind_eq_ok.mp h
    exact nomatch h

/-- A number's text has a comma behind it in front of another member. -/
theorem eq_of_readNumberString {value : Value} {level : Nat} {rest left : List Char} {n : Number}
    (h : readNumberString (' ' :: (value.pretty level ++ rest)) = .ok (n, left)) : left = rest := by
  obtain ⟨behind, characters, hskip, hstring⟩ := exists_of_readNumberString h
  obtain ⟨c, tail, hpretty, hspace, -, -⟩ := pretty_start level value
  have hblank : skipSpace (' ' :: (value.pretty level ++ rest)) = c :: (tail ++ rest) := by
    rw [hpretty]
    exact skipSpace_cons_of_not hspace (tail ++ rest)
  rw [hblank] at hskip
  obtain ⟨rfl, rfl⟩ := List.cons.inj hskip
  obtain ⟨text, rfl⟩ := exists_of_pretty_quote hpretty
  have htail : tail = text.toList.flatMap escapeChar ++ ['"'] := (List.cons.inj hpretty).2.symm
  rw [htail, List.append_assoc] at hstring
  have hread := readString_quote text rest
  exact (Prod.mk.inj (Except.ok.inj (hstring.symm.trans hread))).2

/-- Behind the key of a number, a member with another one behind it is refused. -/
theorem readNumberObject_ne_ok (value : Value) (level : Nat) (rest : List Char)
    (read : Number × List Char) :
    readNumberObject (':' :: ' ' :: (value.pretty level ++ ',' :: rest)) ≠ .ok read := by
  intro h
  have hcolon : isSpace ':' = false := by decide
  have hcomma : isSpace ',' = false := by decide
  simp only [readNumberObject, skipSpace_cons_of_not hcolon] at h
  obtain ⟨⟨n, left⟩, hnumber, h⟩ := bind_eq_ok.mp h
  obtain rfl := eq_of_readNumberString hnumber
  simp only [skipSpace_cons_of_not hcomma] at h
  exact nomatch h

/-- Written members are read as no others.  If the first key spells a number, all
of them are refused, since there is a second one. -/
theorem eq_of_readObject {item : List Char → Except Fault (Value × List Char)}
    {close rest : List Char} (hclose : skipSpace close = '}' :: rest) (hstops : Stops close)
    {written : List Char} {key : String} {value : Value} {level : Nat}
    (hwritten : skipSpace written = quote key ++ ':' :: ' ' :: value.pretty level)
    (hfirst : ReadsOnly (readMember item) written (key, value)) {others : List (List Char)}
    {members : Members} (hothers : List.Forall₂ (ReadsOnly (readMember item)) others members)
    (hkeys : SafeKeys (Members.keys ((key, value) :: members))) {read : Value × List Char}
    (h : readObject item (separated [','] (written :: others) ++ close) = .ok read) :
    read = (.object ((key, value) :: members), rest) := by
  obtain ⟨c, tail, hstart, -, hbrace⟩ := hfirst.start
  have hskip := skipSpace_separated hstart others close
  unfold readObject at h
  rw [hskip, hstart, List.cons_append] at h
  split at h
  · rename_i hnil
    exact nomatch hnil
  · rename_i hcons
    exact absurd (List.cons.inj hcons).1 hbrace
  rw [← List.cons_append, ← hstart] at h
  by_cases hkey : key = numberKey
  · subst hkey
    cases hothers with
    | nil => exact absurd rfl hkeys.2
    | @cons other another others members _ _ =>
      simp only [hwritten, List.append_assoc, behindNumberKey?_quote_numberKey, List.flatMap_cons,
        List.cons_append] at h
      obtain ⟨found, hfound, -⟩ := map_eq_ok.mp h
      exact absurd hfound (readNumberObject_ne_ok value level _ found)
  · have hbehind : behindNumberKey? (skipSpace written ++
        ((others.flatMap fun other => ',' :: other) ++ close)) = none := by
      rw [hwritten, List.append_assoc]
      exact behindNumberKey?_quote hkey _
    simp only [hbehind] at h
    obtain ⟨pairs, hpairs, h⟩ := map_eq_ok.mp h
    obtain rfl := eq_of_readParts closes_brace hclose hstops hfirst hothers hpairs
    rw [← h]
    simp only [Members.ofPairs_of_nodup hkeys.1]

/-! ## Values -/

theorem readsOnly_newLine_pretty {depth level : Nat} {value : Value}
    (h : ∀ rest read, Stops rest → readValue depth (value.pretty level ++ rest) = .ok read →
      read = (value, rest)) :
    ReadsOnly (readValue depth) (newLine level ++ value.pretty level) value := by
  obtain ⟨c, tail, hpretty, -, hbracket, hbrace⟩ := pretty_start level value
  have hskip := skipSpace_newLine_pretty level value
  constructor
  · exact ⟨c, tail, by rw [hskip, hpretty], hbracket, hbrace⟩
  · intro rest read hrest hread
    rw [hskip] at hread
    exact h rest read hrest hread

theorem readsOnly_newLine_member {depth level : Nat} {member : String × Value}
    (h : ∀ rest read, Stops rest → readValue depth (member.2.pretty level ++ rest) = .ok read →
      read = (member.2, rest)) :
    ReadsOnly (readMember (readValue depth))
      (newLine level ++ quote member.1 ++ ':' :: ' ' :: member.2.pretty level) member := by
  rw [List.append_assoc]
  apply readsOnly_member (skipSpace_newLine _)
  intro rest read hrest hread
  rw [List.cons_append, readValue_blank] at hread
  exact h rest read hrest hread

theorem eq_of_readValue_array {items : List Value} {depth level : Nat}
    (hitems : ∀ item ∈ items, ∀ rest read, Stops rest →
      readValue depth (item.pretty (level + 1) ++ rest) = .ok read → read = (item, rest))
    {rest : List Char} {read : Value × List Char}
    (h : readValue (depth + 1) ((Value.array items).pretty level ++ rest) = .ok read) :
    read = (.array items, rest) := by
  cases items with
  | nil =>
    rw [Value.pretty, List.cons_append, readValue_bracket] at h
    cases h
    rfl
  | cons item items =>
    have hparts : List.Forall₂ (ReadsOnly (readValue depth))
        (Value.prettyItems (level + 1) (item :: items)) (item :: items) := by
      rw [Value.prettyItems_eq_map, List.forall₂_map_left_iff, List.forall₂_same]
      intro other hother
      exact readsOnly_newLine_pretty (hitems other hother)
    rw [Value.pretty, List.cons_append, readValue_bracket, List.append_assoc, List.append_assoc,
      List.singleton_append] at h
    obtain ⟨found, hfound, rfl⟩ := map_eq_ok.mp h
    rw [eq_of_readArray (skipSpace_newLine_append_cons level (by decide) rest)
      (stops_newLine_append level _) (by simp [Value.prettyItems]) hparts hfound]

theorem eq_of_readValue_object {members : Members} {depth level : Nat}
    (hkeys : SafeKeys members.keys)
    (hmembers : ∀ member ∈ members, ∀ rest read, Stops rest →
      readValue depth (member.2.pretty (level + 1) ++ rest) = .ok read → read = (member.2, rest))
    {rest : List Char} {read : Value × List Char}
    (h : readValue (depth + 1) ((Value.object members).pretty level ++ rest) = .ok read) :
    read = (.object members, rest) := by
  cases members with
  | nil =>
    rw [Value.pretty, List.cons_append, readValue_brace] at h
    cases h
    rfl
  | cons member members =>
    have hfirst := skipSpace_newLine_quote (level + 1) member.1
      (':' :: ' ' :: member.2.pretty (level + 1))
    have hothers : List.Forall₂ (ReadsOnly (readMember (readValue depth)))
        (Value.prettyMembers (level + 1) members) members := by
      rw [Value.prettyMembers_eq_map, List.forall₂_map_left_iff, List.forall₂_same]
      intro other hother
      exact readsOnly_newLine_member (hmembers other (List.mem_cons_of_mem _ hother))
    rw [Value.pretty, List.cons_append, readValue_brace, List.append_assoc, List.append_assoc,
      List.singleton_append, Value.prettyMembers] at h
    exact eq_of_readObject (skipSpace_newLine_append_cons level (by decide) rest)
      (stops_newLine_append level _) hfirst
      (readsOnly_newLine_member (hmembers member List.mem_cons_self)) hothers hkeys h

theorem readValue_zero_ne_ok {c : Char} (hc : c = '[' ∨ c = '{') (left : List Char)
    (read : Value × List Char) : readValue 0 (c :: left) ≠ .ok read := by
  have hdeep : readValue 0 (c :: left) = faultAt .tooDeep (c :: left) := by
    rw [readValue]
    rcases hc with rfl | rfl
    · rfl
    · rfl
  rw [hdeep]
  simp [faultAt, faultBefore]

theorem eq_of_readValue_scalar {value : Value} (hvalue : IsScalar value) {depth level : Nat}
    {rest : List Char} {read : Value × List Char} (hrest : Stops rest)
    (h : readValue depth (value.pretty level ++ rest) = .ok read) : read = (value, rest) := by
  obtain ⟨hdepth, hkeys⟩ := hvalue.isReadable depth
  exact Except.ok.inj (h.symm.trans (readValue_pretty level hdepth hkeys hrest))

/-- A written value is read as no other, in front of any text that cannot go on
with a number. -/
theorem eq_of_readValue_pretty {value : Value} {depth level : Nat}
    (hkeys : value.EveryObject SafeKeys) {rest : List Char} {read : Value × List Char}
    (hrest : Stops rest) (h : readValue depth (value.pretty level ++ rest) = .ok read) :
    read = (value, rest) := by
  induction value using Value.inductionOn generalizing depth level rest read with
  | array items ih =>
    rw [Value.everyObject_array] at hkeys
    cases depth with
    | zero => cases items <;> exact absurd h (readValue_zero_ne_ok (Or.inl rfl) _ read)
    | succ depth =>
      apply eq_of_readValue_array ?_ h
      intro item hitem rest read hrest hread
      exact ih item hitem (hkeys item hitem) hrest hread
  | object members ih =>
    rw [Value.everyObject_object] at hkeys
    cases depth with
    | zero => cases members <;> exact absurd h (readValue_zero_ne_ok (Or.inr rfl) _ read)
    | succ depth =>
      apply eq_of_readValue_object hkeys.1 ?_ h
      intro member hmember rest read hrest hread
      exact ih member hmember (hkeys.2 member hmember) hrest hread
  | _ => exact eq_of_readValue_scalar ⟨by simp, by simp⟩ hrest h

/-- What is read from a written value is this value. -/
theorem eq_of_read_toPretty {value again : Value} (hkeys : value.EveryObject SafeKeys)
    (h : Value.read value.toPretty.toList = .ok again) : again = value := by
  obtain ⟨left, hread, -⟩ := exists_of_read h
  unfold Value.toPretty at hread
  rw [String.toList_ofList] at hread
  have hstops : Stops ['\n'] := stops_cons (by decide) []
  exact (Prod.mk.inj (eq_of_readValue_pretty hkeys hstops hread)).1

end GoldenFixtures.Json
