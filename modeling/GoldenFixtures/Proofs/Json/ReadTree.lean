import Mathlib.Data.List.TakeWhile
import GoldenFixtures.Proofs.Json.ReadShape
import GoldenFixtures.Proofs.Json.Tree

/-!
# Every text that is read, as a tree

Each reader takes a text that one of the parts of a tree writes off the front of what is
left, and gives the value that this part means.  `exists_document_of_read` puts them
together: the text of every value that is read is that of a document.
-/

namespace GoldenFixtures.Json

/-! ## White space and words -/

theorem exists_space (text : List Char) :
    ∃ space : Space, text = space.chars ++ skipSpace text :=
  ⟨⟨text.takeWhile isSpace, fun _ hc => List.mem_takeWhile_imp hc⟩,
    List.takeWhile_append_dropWhile.symm⟩

theorem exists_space_of_skipSpace {text left : List Char} (h : skipSpace text = left) :
    ∃ space : Space, text = space.chars ++ left :=
  h ▸ exists_space text

theorem eq_of_readWord {word text left : List Char} (h : readWord word text = .ok left) :
    text = word ++ left := by
  induction word generalizing text with
  | nil =>
    cases h
    rfl
  | cons w word ih =>
    cases text with
    | nil => cases h
    | cons c text =>
      rw [readWord] at h
      split at h
      · rename_i hc
        rw [ih h, hc, List.cons_append]
      · cases h

/-! ## Numbers -/

theorem noDigitAt_ne_ok {α : Type} (left : List Char) (a : α) :
    (noDigitAt left : Except Fault α) ≠ .ok a := by
  unfold noDigitAt
  split <;> exact nofun

theorem eq_of_readWhole {text left : List Char} {n : Nat} (h : readWhole text = .ok (n, left)) :
    text = Digits.toChars (Digits.ofNat n) ++ left := by
  unfold readWhole at h
  split at h
  · exact absurd h (noDigitAt_ne_ok _ _)
  · rename_i first others after hsplit
    split at h
    · cases h
    · rename_i hpadded
      cases h
      rw [Digits.ofNat_toNat fun hzero => not_not.mp fun hne => hpadded ⟨hzero, hne⟩]
      exact (Digits.eq_of_split hsplit).1

theorem eq_of_readFraction {text left : List Char} {fraction : List Digit}
    (h : readFraction text = .ok (fraction, left)) : text = fractionChars fraction ++ left := by
  unfold readFraction at h
  split at h
  · rename_i text
    split at h
    · cases h
    · cases h
    · rename_i hempty hsplit
      cases h
      cases fraction with
      | nil => exact (hempty rfl).elim
      | cons d digits => exact congrArg ('.' :: ·) (Digits.eq_of_split hsplit).1
  · cases h
    rfl

theorem eq_of_readExponentDigits {text left : List Char} {negative : Bool}
    {exponent : Option Exponent}
    (h : readExponentDigits negative text = .ok (exponent, left)) :
    ∃ first others, exponent = some ⟨negative, first, others⟩ ∧
      text = Digits.toChars (first :: others) ++ left := by
  unfold readExponentDigits at h
  split at h
  · exact absurd h (noDigitAt_ne_ok _ _)
  · rename_i first others after hsplit
    cases h
    exact ⟨first, others, rfl, (Digits.eq_of_split hsplit).1⟩

theorem exists_of_readExponent {text left : List Char} {exponent : Option Exponent}
    (h : readExponent text = .ok (exponent, left)) :
    ∃ style : ExponentStyle, text = style.spell exponent ++ left := by
  unfold readExponent at h
  split at h
  · rename_i c text
    split at h
    · rename_i hletter
      have hspelled : c = if decide (c = 'E') then 'E' else 'e' := by
        rcases hletter with rfl | rfl <;> rfl
      split at h
      · obtain ⟨first, others, rfl, rfl⟩ := eq_of_readExponentDigits h
        exact ⟨⟨decide (c = 'E'), true⟩, congrArg (· :: _) hspelled⟩
      · obtain ⟨first, others, rfl, rfl⟩ := eq_of_readExponentDigits h
        exact ⟨⟨decide (c = 'E'), false⟩, congrArg (· :: _) hspelled⟩
      · obtain ⟨first, others, rfl, rfl⟩ := eq_of_readExponentDigits h
        exact ⟨⟨decide (c = 'E'), false⟩, congrArg (· :: _) hspelled⟩
    · cases h
      exact ⟨⟨false, false⟩, rfl⟩
  · cases h
    exact ⟨⟨false, false⟩, rfl⟩

theorem exists_of_readUnsigned {text left : List Char} {negative : Bool} {n : Number}
    (h : readUnsigned negative text = .ok (n, left)) :
    n.negative = negative ∧ ∃ style, text = n.spellUnsigned style ++ left := by
  unfold readUnsigned at h
  obtain ⟨⟨whole, behind⟩, hwhole, h⟩ := bind_eq_ok.mp h
  obtain ⟨⟨fraction, later⟩, hfraction, h⟩ := bind_eq_ok.mp h
  obtain ⟨⟨exponent, last⟩, hexponent, h⟩ := bind_eq_ok.mp h
  cases h
  obtain ⟨style, hstyle⟩ := exists_of_readExponent hexponent
  refine ⟨rfl, style, ?_⟩
  rw [eq_of_readWhole hwhole, eq_of_readFraction hfraction, hstyle]
  simp only [Number.spellUnsigned, List.append_assoc]

/-! ## Strings -/

theorem exists_of_readHex {text left : List Char} {n : Nat} (h : readHex text = .ok (n, left)) :
    ∃ hex : HexCode, text = hex.digits ++ left ∧ hex.number = n := by
  unfold readHex at h
  simp only at h
  split at h
  · rename_i a b c d after
    split at h
    · rename_i va vb vc vd ha hb hc hd
      cases h
      refine ⟨⟨[a, b, c, d], _, rfl, ?_⟩, rfl, rfl⟩
      simp [ha, hb, hc, hd]
    · split at h <;> cases h
  · split at h <;> cases h

theorem exists_of_readSecondHalf {text left : List Char} {first : HexCode} {c : Char}
    (hfirst : 0xD800 ≤ first.number ∧ first.number ≤ 0xDBFF)
    (h : readSecondHalf first.number text = .ok (c, left)) :
    ∃ letter : Letter, '\\' :: 'u' :: (first.digits ++ text) = letter.chars ++ left ∧
      letter.value = c := by
  unfold readSecondHalf at h
  split at h
  · cases h
  · cases h
  · obtain ⟨⟨code, behind⟩, hcode, h⟩ := bind_eq_ok.mp h
    obtain ⟨second, rfl, rfl⟩ := exists_of_readHex hcode
    simp only at h
    split at h
    · rename_i hsecond
      obtain ⟨rfl, rfl⟩ := Prod.mk.inj (Except.ok.inj h)
      exact ⟨.pair first second hfirst hsecond, by simp [Letter.chars], rfl⟩
    · cases h
  · cases h
  · cases h

theorem exists_of_readEscape {text left : List Char} {c : Char}
    (h : readEscape text = .ok (c, left)) :
    ∃ letter : Letter, '\\' :: text = letter.chars ++ left ∧ letter.value = c := by
  unfold readEscape at h
  split at h
  case h_1 => cases h
  case h_10 =>
    obtain ⟨⟨code, behind⟩, hcode, h⟩ := bind_eq_ok.mp h
    obtain ⟨hex, rfl, rfl⟩ := exists_of_readHex hcode
    simp only at h
    split at h
    · cases h
    split at h
    · rename_i hfirst
      exact exists_of_readSecondHalf hfirst h
    · cases h
      exact ⟨.code hex (by omega), rfl, rfl⟩
  case h_11 => cases h
  all_goals
    cases h
    exact ⟨.short _ _ (by decide), rfl, rfl⟩

theorem exists_of_readCharacters {steps : Nat} {text left cs : List Char}
    (h : readCharacters steps text = .ok (cs, left)) :
    ∃ letters : List Letter, text = letters.flatMap Letter.chars ++ '"' :: left ∧
      letters.map Letter.value = cs := by
  induction steps generalizing text cs with
  | zero => cases h
  | succ steps ih =>
    cases text with
    | nil => cases h
    | cons c text =>
      rw [readCharacters] at h
      split at h
      · rename_i hquote
        cases h
        exact ⟨[], by rw [hquote]; rfl, rfl⟩
      rename_i hquote
      split at h
      · rename_i hescape
        obtain ⟨⟨character, behind⟩, hfirst, h⟩ := bind_eq_ok.mp h
        obtain ⟨⟨others, last⟩, hothers, h⟩ := bind_eq_ok.mp h
        cases h
        obtain ⟨letter, hletter, rfl⟩ := exists_of_readEscape hfirst
        obtain ⟨letters, rfl, rfl⟩ := ih hothers
        refine ⟨letter :: letters, ?_, rfl⟩
        rw [hescape, hletter, List.flatMap_cons, List.append_assoc]
      rename_i hescape
      split at h
      · cases h
      · rename_i hcontrol
        obtain ⟨⟨others, last⟩, hothers, h⟩ := bind_eq_ok.mp h
        cases h
        obtain ⟨letters, rfl, rfl⟩ := ih hothers
        exact ⟨.plain c ⟨hquote, hescape, Nat.le_of_not_lt hcontrol⟩ :: letters, rfl, rfl⟩

theorem exists_of_readString {text left : List Char} {s : String}
    (h : readString text = .ok (s, left)) :
    ∃ letters, '"' :: text = quoted letters ++ left ∧ textOf letters = s := by
  unfold readString at h
  obtain ⟨⟨cs, behind⟩, hcs, h⟩ := bind_eq_ok.mp h
  cases h
  obtain ⟨letters, rfl, rfl⟩ := exists_of_readCharacters hcs
  exact ⟨letters, by simp [quoted], rfl⟩

/-! ## Parts -/

/-- A text starts with a tree of a value, behind white space. -/
def StartsWith (depth : Nat) (text : List Char) (value : Value) (left : List Char) : Prop :=
  ∃ (before : Space) (tree : Tree), text = before.chars ++ (tree.chars ++ left) ∧
    tree.value = value ∧ tree.NestsIn depth

theorem StartsWith.of_scalar {depth : Nat} {text left : List Char} {before : Space}
    {s : Scalar} (h : text = before.chars ++ (s.chars ++ left)) :
    StartsWith depth text s.value left :=
  ⟨before, .scalar s, by rw [Tree.chars_scalar, h], Tree.value_scalar s,
    Tree.nestsIn_scalar s depth⟩

section

variable {α β : Type} {part : List Char → Except Fault (α × List Char)} {closing : Closing}
  {write : β → List Char} {f : β → α} {P : β → Prop}

/-- If what is read of one part is written by something with any white space around it, then
so are all parts up to what closes them. -/
theorem exists_of_readParts_of_part
    (hpart : ∀ text a left, part text = .ok (a, left) → ∃ used, text = used ++ left ∧
      ∀ before after : Space, ∃ b, before.chars ++ (used ++ after.chars) = write b ∧ f b = a ∧ P b)
    {steps : Nat} {text left : List Char} {as : List α}
    (h : readParts closing part steps text = .ok (as, left)) (before : Space) :
    ∃ bs ≠ [], before.chars ++ text =
        separated [','] (bs.map write) ++ closing.character :: left ∧
      bs.map f = as ∧ ∀ b ∈ bs, P b := by
  induction steps generalizing text as before with
  | zero => cases h
  | succ steps ih =>
    rw [readParts] at h
    obtain ⟨⟨first, behind⟩, hfirst, hrest⟩ := bind_eq_ok.mp h
    obtain ⟨used, rfl, hused⟩ := hpart _ _ _ hfirst
    simp only at hrest
    split at hrest
    · cases hrest
    rename_i c later hskip
    obtain ⟨after, rfl⟩ := exists_space_of_skipSpace hskip
    obtain ⟨b, hwrite, hvalue, hb⟩ := hused before after
    split at hrest
    · rename_i hclose
      cases hrest
      refine ⟨[b], by simp, ?_, by simp [hvalue], by simpa using hb⟩
      rw [List.map_singleton, separated, ← hwrite, hclose]
      simp
    split at hrest
    · rename_i hcomma
      split at hrest
      · cases hrest
      rename_i d more hskip
      obtain ⟨space, rfl⟩ := exists_space_of_skipSpace hskip
      split at hrest
      · cases hrest
      obtain ⟨⟨others, last⟩, hothers, hrest⟩ := bind_eq_ok.mp hrest
      cases hrest
      obtain ⟨bs, hne, hbs, rfl, hall⟩ := ih hothers space
      obtain ⟨next, later, rfl⟩ := List.exists_cons_of_ne_nil hne
      refine ⟨b :: next :: later, by simp, ?_, by simp [hvalue],
        List.forall_mem_cons.mpr ⟨hb, hall⟩⟩
      have htext : before.chars ++ (used ++ (after.chars ++ c :: (space.chars ++ d :: more))) =
          write b ++ ',' :: (space.chars ++ d :: more) := by
        rw [← hwrite, hcomma]
        simp
      rw [htext, hbs]
      simp [separated]
    · cases hrest

end

/-! ## Arrays and objects -/

section

variable {item : List Char → Except Fault (Value × List Char)} {depth : Nat}

theorem exists_of_readArray
    (hitem : ∀ text value left, item text = .ok (value, left) →
      StartsWith depth text value left)
    {text left : List Char} {items : List Value} (h : readArray item text = .ok (items, left)) :
    ∃ tree : Tree, '[' :: text = tree.chars ++ left ∧ tree.value = .array items ∧
      tree.NestsIn (depth + 1) := by
  obtain ⟨space, hspace⟩ := exists_space text
  unfold readArray at h
  split at h
  · cases h
  · rename_i behind hskip
    cases h
    refine ⟨.array space [], ?_, by simp, by simp⟩
    rw [hspace, hskip]
    simp [separated]
  · have hpart : ∀ text value left, item text = .ok (value, left) → ∃ used, text = used ++ left ∧
        ∀ before after : Space, ∃ part : Spaced Tree,
          before.chars ++ (used ++ after.chars) = (part.map Tree.chars).chars ∧
            part.content.value = value ∧ part.content.NestsIn depth := by
      intro text value left hread
      obtain ⟨space, tree, rfl, hvalue, hdepth⟩ := hitem _ _ _ hread
      refine ⟨space.chars ++ tree.chars, by simp, fun before after => ?_⟩
      exact ⟨⟨before.append space, tree, after⟩, by simp [Spaced.map, Spaced.chars, Space.append],
        hvalue, hdepth⟩
    obtain ⟨parts, -, hparts, rfl, hall⟩ := exists_of_readParts_of_part hpart h Space.none
    refine ⟨.array space parts, ?_, Tree.value_array space parts,
      Tree.nestsIn_array.mpr ⟨depth, rfl, hall⟩⟩
    rw [hspace]
    simpa [Space.none, Closing.bracket] using hparts

/-- The text of a member, as it is read, starts with its key's text. -/
theorem exists_of_readMember
    (hitem : ∀ text value left, item text = .ok (value, left) →
      StartsWith depth text value left)
    (text : List Char) (member : String × Value) (left : List Char)
    (h : readMember item text = .ok (member, left)) :
    ∃ used, text = used ++ left ∧ ∀ before after : Space, ∃ entry : Member Tree,
      before.chars ++ (used ++ after.chars) = (entry.map Tree.chars).chars ∧
        (entry.key.text, entry.part.content.value) = member ∧
          entry.part.content.NestsIn depth := by
  unfold readMember at h
  split at h
  · obtain ⟨⟨key, behind⟩, hkey, h⟩ := bind_eq_ok.mp h
    obtain ⟨letters, hletters, rfl⟩ := exists_of_readString hkey
    simp only at h
    split at h
    · cases h
    · rename_i hskip
      obtain ⟨gap, rfl⟩ := exists_space_of_skipSpace hskip
      obtain ⟨⟨value, last⟩, hvalue, h⟩ := bind_eq_ok.mp h
      cases h
      obtain ⟨space, tree, rfl, rfl, hdepth⟩ := hitem _ _ _ hvalue
      refine ⟨quoted letters ++ (gap.chars ++ ':' :: (space.chars ++ tree.chars)), ?_,
        fun before after => ⟨⟨⟨before, letters, gap⟩, space, tree, after⟩, ?_, rfl, hdepth⟩⟩
      · rw [hletters]
        simp
      · simp [Member.map, Spaced.map, Member.chars, Key.chars, Spaced.chars]
    · cases h
  · cases h

theorem eq_ok_of_mapError {ε ε' α : Type} {x : Except ε α} {f : ε → ε'} {a : α}
    (h : x.mapError f = .ok a) : x = .ok a := by
  cases x with
  | error e => cases h
  | ok b => exact congrArg Except.ok (Except.ok.inj h)

theorem exists_letters_of_readNumberString {text left : List Char} {n : Number}
    (h : readNumberString text = .ok (n, left)) :
    ∃ (before : Space) (letters : List Letter),
      text = before.chars ++ (quoted letters ++ left) ∧
        (Value.string (textOf letters)).spelled = n := by
  unfold readNumberString at h
  split at h
  · rename_i hskip
    obtain ⟨before, rfl⟩ := exists_space_of_skipSpace hskip
    obtain ⟨⟨spelled, behind⟩, hspelled, h⟩ := bind_eq_ok.mp h
    obtain ⟨letters, hletters, rfl⟩ := exists_of_readString hspelled
    obtain ⟨number, hnumber, h⟩ := bind_eq_ok.mp h
    cases h
    have hread := eq_ok_of_mapError hnumber
    exact ⟨before, letters, by rw [hletters], by simp [Value.spelled, hread, Except.toOption]⟩
  · obtain ⟨_, _, h⟩ := bind_eq_ok.mp h
    cases h

theorem exists_of_readNumberObject {text left : List Char} {n : Number}
    (h : readNumberObject text = .ok (n, left)) :
    ∃ (gap before after : Space) (letters : List Letter),
      text = gap.chars ++
        ':' :: (before.chars ++ (quoted letters ++ (after.chars ++ '}' :: left))) ∧
        (Value.string (textOf letters)).spelled = n := by
  unfold readNumberObject at h
  split at h
  · cases h
  · rename_i hskip
    obtain ⟨gap, rfl⟩ := exists_space_of_skipSpace hskip
    obtain ⟨⟨number, behind⟩, hnumber, hrest⟩ := bind_eq_ok.mp h
    obtain ⟨before, letters, rfl, hspelled⟩ := exists_letters_of_readNumberString hnumber
    simp only at hrest
    split at hrest
    · cases hrest
    · rename_i hclose
      cases hrest
      obtain ⟨after, rfl⟩ := exists_space_of_skipSpace hclose
      exact ⟨gap, before, after, letters, rfl, hspelled⟩
    · cases hrest
    · cases hrest
  · cases h

theorem exists_of_behindNumberKey? {text left : List Char}
    (h : behindNumberKey? text = some left) :
    ∃ letters, text = quoted letters ++ left ∧ textOf letters = numberKey := by
  unfold behindNumberKey? at h
  split at h
  · split at h
    · rename_i hkey
      obtain ⟨letters, hletters, htext⟩ := exists_of_readString hkey
      split at h
      · rename_i hnumber
        cases h
        exact ⟨letters, hletters, htext.trans hnumber⟩
      · cases h
    · cases h
  · cases h

theorem exists_of_readObject
    (hitem : ∀ text value left, item text = .ok (value, left) →
      StartsWith depth text value left)
    {text left : List Char} {value : Value} (h : readObject item text = .ok (value, left)) :
    ∃ tree : Tree, '{' :: text = tree.chars ++ left ∧ tree.value = value ∧
      tree.NestsIn (depth + 1) := by
  obtain ⟨space, hspace⟩ := exists_space text
  unfold readObject at h
  split at h
  · cases h
  · rename_i hskip
    cases h
    refine ⟨.object space [], ?_, by simp [objectOf], by simp⟩
    rw [hspace, hskip]
    simp [separated]
  · rename_i hskip
    split at h
    · rename_i hkey
      obtain ⟨⟨n, last⟩, hnumber, h⟩ := map_eq_ok.mp h
      cases h
      obtain ⟨letters, hletters, htext⟩ := exists_of_behindNumberKey? hkey
      obtain ⟨gap, before, after, spelled, rfl, rfl⟩ := exists_of_readNumberObject hnumber
      refine ⟨.object space
        [⟨⟨Space.none, letters, gap⟩, before, .scalar (.string spelled), after⟩], ?_, ?_, by simp⟩
      · rw [hspace, hletters]
        simp [separated, Member.map, Spaced.map, Member.chars, Key.chars, Spaced.chars, Space.none,
          Scalar.chars]
      · simp [objectOf, Key.text, htext, Scalar.value]
    · rename_i hkey
      obtain ⟨⟨pairs, last⟩, hparts, h⟩ := map_eq_ok.mp h
      cases h
      obtain ⟨first, others, behind, hfirst, hmember⟩ := exists_of_readParts hparts
      obtain ⟨entries, -, hentries, rfl, hall⟩ :=
        exists_of_readParts_of_part (exists_of_readMember hitem) hparts Space.none
      refine ⟨.object space entries, ?_, ?_, Tree.nestsIn_object.mpr ⟨depth, rfl, hall⟩⟩
      · rw [hspace]
        simpa [Space.none, Closing.brace] using hentries
      · rw [Tree.value_object]
        refine objectOf_of_ne fun pair hpair => ?_
        rw [hfirst, List.head?_cons, Option.mem_some_iff] at hpair
        rw [← hpair]
        exact readMember_key_ne hkey hmember

end

/-! ## Values and whole texts -/

/-- What is read starts the text.  The depth falls at each bracket and brace, and the cases
are those of the first character. -/
theorem startsWith_of_readValue {depth : Nat} {text left : List Char} {value : Value}
    (h : readValue depth text = .ok (value, left)) : StartsWith depth text value left := by
  induction depth using Nat.strongRecOn generalizing text value left with
  | ind depth ih =>
  rw [readValue] at h
  split at h
  · cases h
  rename_i c behind hskip
  obtain ⟨before, rfl⟩ := exists_space_of_skipSpace hskip
  split at h
  · rename_i hc
    obtain ⟨⟨text, last⟩, hread, h⟩ := map_eq_ok.mp h
    cases h
    obtain ⟨letters, hletters, rfl⟩ := exists_of_readString hread
    exact .of_scalar (s := .string letters) (by rw [hc, hletters, Scalar.chars])
  split at h
  · rename_i hc
    cases depth with
    | zero => cases h
    | succ depth =>
      obtain ⟨⟨items, last⟩, hread, h⟩ := map_eq_ok.mp h
      cases h
      obtain ⟨tree, htext, hvalue, hdepth⟩ :=
        exists_of_readArray (fun _ _ _ => ih depth (Nat.lt_succ_self depth)) hread
      exact ⟨before, tree, by rw [hc, htext], hvalue, hdepth⟩
  split at h
  · rename_i hc
    cases depth with
    | zero => cases h
    | succ depth =>
      obtain ⟨tree, htext, hvalue, hdepth⟩ :=
        exists_of_readObject (fun _ _ _ => ih depth (Nat.lt_succ_self depth)) h
      exact ⟨before, tree, by rw [hc, htext], hvalue, hdepth⟩
  split at h
  · rename_i hc
    obtain ⟨last, hread, h⟩ := map_eq_ok.mp h
    cases h
    exact .of_scalar (s := .null) (by rw [hc, eq_of_readWord hread]; rfl)
  split at h
  · rename_i hc
    obtain ⟨last, hread, h⟩ := map_eq_ok.mp h
    cases h
    exact .of_scalar (s := .bool true) (by rw [hc, eq_of_readWord hread]; rfl)
  split at h
  · rename_i hc
    obtain ⟨last, hread, h⟩ := map_eq_ok.mp h
    cases h
    exact .of_scalar (s := .bool false) (by rw [hc, eq_of_readWord hread]; rfl)
  split at h
  · rename_i hc
    obtain ⟨⟨n, last⟩, hread, h⟩ := map_eq_ok.mp h
    cases h
    obtain ⟨hnegative, style, hstyle⟩ := exists_of_readUnsigned hread
    exact .of_scalar (s := .number n style)
      (by rw [hc, hstyle, Scalar.chars, Number.spell, hnegative]; rfl)
  split at h
  · obtain ⟨⟨n, last⟩, hread, h⟩ := map_eq_ok.mp h
    cases h
    obtain ⟨hnegative, style, hstyle⟩ := exists_of_readUnsigned hread
    exact .of_scalar (s := .number n style)
      (by rw [hstyle, Scalar.chars, Number.spell, hnegative]; rfl)
  · cases h

/-- The text of every value that is read is written by a document of that value. -/
theorem exists_document_of_read {text : List Char} {value : Value}
    (h : Value.read text = .ok value) :
    ∃ document : Document, document.chars = text ∧ document.content.value = value ∧
      document.content.NestsIn maxDepth := by
  obtain ⟨left, hread, hleft⟩ := exists_of_read h
  obtain ⟨before, tree, rfl, hvalue, hdepth⟩ := startsWith_of_readValue hread
  obtain ⟨after, rfl⟩ := exists_space_of_skipSpace hleft
  exact ⟨⟨before, tree, after⟩, by simp [Document.chars, Spaced.map, Spaced.chars], hvalue, hdepth⟩

end GoldenFixtures.Json
