import GoldenFixtures.Proofs.Json.Scalars
import GoldenFixtures.Proofs.Json.Shape

/-!
# JSON texts, part by part

A `Document` is a JSON text with everything that its value does not tell: the white
space between the parts, the escapes of the strings, the spelling of the exponents and
the members whose key comes again.  `Document.chars` is the text and `Tree.value` the
value that it writes.

Functions on trees are folds: `Tree.fold` goes through a tree once for all of them, and
`Tree.inductionOn` is the induction that goes with it.
-/

namespace GoldenFixtures.Json

open Digits (NoDigit)

/-- White space between the parts of a text. -/
structure Space where
  chars : List Char
  isSpace_of_mem : ∀ c ∈ chars, isSpace c = true

/-- No white space. -/
def Space.none : Space := ⟨[], fun _ h => nomatch h⟩

/-- White space behind other white space. -/
def Space.append (space more : Space) : Space :=
  ⟨space.chars ++ more.chars, fun c hc =>
    (List.mem_append.mp hc).elim (space.isSpace_of_mem c) (more.isSpace_of_mem c)⟩

/-! ## Strings -/

/-- The letters of the short escapes, with the characters that they stand for. -/
def shortEscapes : List (Char × Char) :=
  [('"', '"'), ('\\', '\\'), ('/', '/'), ('b', '\x08'), ('f', '\x0c'), ('n', '\n'), ('r', '\r'),
    ('t', '\t')]

/-- Four hexadecimal digits, in either case. -/
structure HexCode where
  digits : List Char
  number : Nat
  length_digits : digits.length = 4
  number_eq : digits.foldlM (fun n c => (hexValue? c).map (n * 16 + ·)) 0 = some number

/-- A character of a string as it is written. -/
inductive Letter where
  /-- The character itself. -/
  | plain (c : Char) (hc : c ≠ '"' ∧ c ≠ '\\' ∧ 0x20 ≤ c.toNat)
  | short (letter c : Char) (hmem : (letter, c) ∈ shortEscapes)
  | code (hex : HexCode) (hhex : ¬ (0xD800 ≤ hex.number ∧ hex.number ≤ 0xDFFF))
  /-- The two halves of a surrogate pair. -/
  | pair (first second : HexCode) (hfirst : 0xD800 ≤ first.number ∧ first.number ≤ 0xDBFF)
      (hsecond : 0xDC00 ≤ second.number ∧ second.number ≤ 0xDFFF)

namespace Letter

/-- A character as it is written. -/
def chars : Letter → List Char
  | plain c _ => [c]
  | short letter _ _ => ['\\', letter]
  | code hex _ => '\\' :: 'u' :: hex.digits
  | pair first second _ _ => '\\' :: 'u' :: (first.digits ++ '\\' :: 'u' :: second.digits)

/-- The character that is meant. -/
def value : Letter → Char
  | plain c _ => c
  | short _ c _ => c
  | code hex _ => Char.ofNat hex.number
  | pair first second _ _ =>
    Char.ofNat (0x10000 + (first.number - 0xD800) * 0x400 + (second.number - 0xDC00))

end Letter

/-- A string in quotes, as it is written. -/
def quoted (letters : List Letter) : List Char := '"' :: (letters.flatMap Letter.chars ++ ['"'])

/-- The string that is meant. -/
def textOf (letters : List Letter) : String := String.ofList (letters.map Letter.value)

/-! ## Scalars -/

/-- How an exponent is spelled: with a capital letter, and with a plus sign. -/
structure ExponentStyle where
  capital : Bool
  plus : Bool

/-- An exponent as it is spelled, if there is one. -/
def ExponentStyle.spell (style : ExponentStyle) (exponent : Option Exponent) : List Char :=
  match exponent with
  | none => []
  | some e =>
    (if style.capital then 'E' else 'e') ::
      ((if e.negative then ['-'] else if style.plus then ['+'] else []) ++
        Digits.toChars (e.first :: e.others))

/-- A number behind its sign, as it is spelled. -/
def Number.spellUnsigned (n : Number) (style : ExponentStyle) : List Char :=
  Digits.toChars (Digits.ofNat n.whole) ++ (fractionChars n.fraction ++ style.spell n.exponent)

/-- A number as it is spelled. -/
def Number.spell (n : Number) (style : ExponentStyle) : List Char :=
  (if n.negative then ['-'] else []) ++ n.spellUnsigned style

/-- A number is spelled with digits and a few other characters. -/
theorem mem_spell {n : Number} {style : ExponentStyle} {c : Char} (h : c ∈ n.spell style) :
    (∃ d : Digit, c = d.toChar) ∨ c ∈ ['-', '+', '.', 'e', 'E'] := by
  have hdigit : ∀ {digits : List Digit}, c ∈ Digits.toChars digits → ∃ d : Digit, c = d.toChar :=
    fun hc => (List.mem_map.mp hc).imp fun _ hd => hd.2.symm
  simp only [Number.spell, Number.spellUnsigned, List.mem_append] at h
  rcases h with h | h | h | h
  · split_ifs at h
    · exact Or.inr (by simpa using Or.inl (List.mem_singleton.mp h))
    · cases h
  · exact Or.inl (hdigit h)
  · unfold fractionChars at h
    split_ifs at h
    · cases h
    · exact (List.mem_cons.mp h).symm.imp hdigit fun hc => by simp [hc]
  · unfold ExponentStyle.spell at h
    split at h
    · cases h
    · rcases List.mem_cons.mp h with rfl | h
      · exact Or.inr (by split_ifs <;> decide)
      · refine (List.mem_append.mp h).symm.imp hdigit fun hc => ?_
        split_ifs at hc
        · rw [List.mem_singleton.mp hc]; decide
        · rw [List.mem_singleton.mp hc]; decide
        · cases hc

theorem noDigit_spell (style : ExponentStyle) (exponent : Option Exponent) :
    NoDigit (style.spell exponent) := by
  cases exponent with
  | none => exact fun c hc => nomatch hc
  | some e => exact Digits.noDigit_cons (by cases style.capital <;> decide) _

/-- What follows the digits in front of the point is no digit. -/
theorem noDigit_behindWhole (n : Number) (style : ExponentStyle) :
    NoDigit (fractionChars n.fraction ++ style.spell n.exponent) :=
  noDigit_fractionChars_append n.fraction (noDigit_spell style n.exponent)

/-- A value without parts, as it is written. -/
inductive Scalar where
  | null
  | bool (flag : Bool)
  | number (n : Number) (style : ExponentStyle)
  | string (letters : List Letter)

namespace Scalar

/-- A scalar's text. -/
def chars : Scalar → List Char
  | null => ['n', 'u', 'l', 'l']
  | bool flag => boolChars flag
  | number n style => n.spell style
  | string letters => quoted letters

/-- A scalar's value. -/
def value : Scalar → Value
  | null => .null
  | bool flag => .bool flag
  | number n _ => .number n
  | string letters => .string (textOf letters)

end Scalar

/-! ## Trees -/

/-- Something with white space around it. -/
structure Spaced (α : Type) where
  before : Space
  content : α
  after : Space

/-- The key of a member, with the white space around it. -/
structure Key where
  before : Space
  letters : List Letter
  gap : Space

/-- A member of an object: a key and a part. -/
structure Member (α : Type) where
  key : Key
  part : Spaced α

/-- A value as it is written.  The white space of an array or object stands behind its
opening bracket or brace. -/
inductive Tree where
  | scalar (scalar : Scalar)
  | array (space : Space) (items : List (Spaced Tree))
  | object (space : Space) (members : List (Member Tree))

/-- A whole text: a value with white space around it. -/
abbrev Document := Spaced Tree

/-- The same white space around something else. -/
def Spaced.map {α β : Type} (f : α → β) (part : Spaced α) : Spaced β :=
  ⟨part.before, f part.content, part.after⟩

/-- The same key in front of something else. -/
def Member.map {α β : Type} (f : α → β) (entry : Member α) : Member β :=
  ⟨entry.key, entry.part.map f⟩

/-- A part's text, from the text of what is inside. -/
def Spaced.chars (part : Spaced (List Char)) : List Char :=
  part.before.chars ++ (part.content ++ part.after.chars)

/-- The string that a key means. -/
def Key.text (key : Key) : String := textOf key.letters

/-- A key's text up to the colon, without the white space in front. -/
def Key.chars (key : Key) : List Char := quoted key.letters ++ key.gap.chars

/-- A member's text, from the text of its value. -/
def Member.chars (entry : Member (List Char)) : List Char :=
  entry.key.before.chars ++ (entry.key.chars ++ ':' :: entry.part.chars)

/-- The number that a string spells; zero stands for none. -/
def Value.spelled : Value → Number
  | .string text => (readNumberText text.toList).toOption.getD (.ofNat 0)
  | _ => .ofNat 0

/-- The value of an object, which is a number if the first key says so.  The reader lets
only objects through that spell one then. -/
def objectOf (pairs : List (String × Value)) : Value :=
  match pairs with
  | [] => .object []
  | (key, value) :: _ =>
    if key = numberKey then .number value.spelled else .object (Members.ofPairs pairs)

theorem objectOf_of_ne {pairs : List (String × Value)}
    (h : ∀ pair ∈ pairs.head?, pair.1 ≠ numberKey) :
    objectOf pairs = .object (Members.ofPairs pairs) := by
  cases pairs with
  | nil => rfl
  | cons pair pairs => exact if_neg (h pair rfl)

namespace Tree

section

variable {α : Type} (scalar : Scalar → α) (array : Space → List (Spaced α) → α)
  (object : Space → List (Member α) → α)

mutual

/-- Goes through a tree from the inside to the outside. -/
def fold : Tree → α
  | .scalar s => scalar s
  | .array space items => array space (foldItems items)
  | .object space members => object space (foldMembers members)

/-- Goes through the elements of an array. -/
def foldItems : List (Spaced Tree) → List (Spaced α)
  | [] => []
  | ⟨before, content, after⟩ :: items => ⟨before, fold content, after⟩ :: foldItems items

/-- Goes through the members of an object. -/
def foldMembers : List (Member Tree) → List (Member α)
  | [] => []
  | ⟨key, before, content, after⟩ :: members =>
    ⟨key, before, fold content, after⟩ :: foldMembers members

end

theorem foldItems_eq_map (items : List (Spaced Tree)) :
    foldItems scalar array object items = items.map (Spaced.map (fold scalar array object)) := by
  induction items with
  | nil => rfl
  | cons item items ih => rw [foldItems, ih, List.map_cons, Spaced.map]

theorem foldMembers_eq_map (members : List (Member Tree)) :
    foldMembers scalar array object members =
      members.map (Member.map (fold scalar array object)) := by
  induction members with
  | nil => rfl
  | cons member members ih => rw [foldMembers, ih, List.map_cons, Member.map, Spaced.map]

theorem fold_scalar (s : Scalar) : fold scalar array object (.scalar s) = scalar s := by
  rw [fold]

theorem fold_array (space : Space) (items : List (Spaced Tree)) :
    fold scalar array object (.array space items) =
      array space (items.map (Spaced.map (fold scalar array object))) := by
  rw [fold, foldItems_eq_map]

theorem fold_object (space : Space) (members : List (Member Tree)) :
    fold scalar array object (.object space members) =
      object space (members.map (Member.map (fold scalar array object))) := by
  rw [fold, foldMembers_eq_map]

end

/-! ## What a tree is -/

/-- A tree's text. -/
def chars : Tree → List Char :=
  fold Scalar.chars
    (fun space items => '[' :: (space.chars ++ (separated [','] (items.map Spaced.chars) ++ [']'])))
    (fun space members =>
      '{' :: (space.chars ++ (separated [','] (members.map Member.chars) ++ ['}'])))

/-- A tree's value. -/
def value : Tree → Value :=
  fold Scalar.value (fun _ items => .array (items.map Spaced.content))
    (fun _ members => objectOf (members.map fun member => (member.key.text, member.part.content)))

/-- At most so many arrays and objects stand inside one another. -/
def NestsIn (tree : Tree) (depth : Nat) : Prop :=
  fold (fun _ _ => True)
    (fun _ items depth => ∃ n, depth = n + 1 ∧ ∀ item ∈ items, item.content n)
    (fun _ members depth => ∃ n, depth = n + 1 ∧ ∀ member ∈ members, member.part.content n)
    tree depth

/-- Every scalar has one property, and the keys of every object have another one. -/
def All (p : Scalar → Prop) (q : List Key → Prop) : Tree → Prop :=
  fold p (fun _ items => ∀ item ∈ items, item.content)
    (fun _ members => q (members.map Member.key) ∧ ∀ member ∈ members, member.part.content)

@[simp] theorem chars_scalar (s : Scalar) : chars (.scalar s) = s.chars := by
  rw [chars, fold_scalar]

@[simp] theorem chars_array (space : Space) (items : List (Spaced Tree)) :
    chars (.array space items) =
      '[' :: (space.chars ++
        (separated [','] (items.map fun item => (item.map chars).chars) ++ [']'])) := by
  rw [chars, fold_array, List.map_map]
  rfl

@[simp] theorem chars_object (space : Space) (members : List (Member Tree)) :
    chars (.object space members) =
      '{' :: (space.chars ++
        (separated [','] (members.map fun member => (member.map chars).chars) ++ ['}'])) := by
  rw [chars, fold_object, List.map_map]
  rfl

@[simp] theorem value_scalar (s : Scalar) : value (.scalar s) = s.value := by
  rw [value, fold_scalar]

@[simp] theorem value_array (space : Space) (items : List (Spaced Tree)) :
    value (.array space items) = .array (items.map fun item => item.content.value) := by
  rw [value, fold_array, List.map_map]
  rfl

@[simp] theorem value_object (space : Space) (members : List (Member Tree)) :
    value (.object space members) =
      objectOf (members.map fun member => (member.key.text, member.part.content.value)) := by
  rw [value, fold_object, List.map_map]
  rfl

@[simp] theorem nestsIn_scalar (s : Scalar) (depth : Nat) : NestsIn (.scalar s) depth := by
  rw [NestsIn, fold_scalar]
  trivial

@[simp] theorem nestsIn_array {space : Space} {items : List (Spaced Tree)} {depth : Nat} :
    NestsIn (.array space items) depth ↔
      ∃ n, depth = n + 1 ∧ ∀ item ∈ items, item.content.NestsIn n := by
  simp only [NestsIn, fold_array, List.forall_mem_map]
  rfl

@[simp] theorem nestsIn_object {space : Space} {members : List (Member Tree)} {depth : Nat} :
    NestsIn (.object space members) depth ↔
      ∃ n, depth = n + 1 ∧ ∀ member ∈ members, member.part.content.NestsIn n := by
  simp only [NestsIn, fold_object, List.forall_mem_map]
  rfl

section

variable {p : Scalar → Prop} {q : List Key → Prop}

@[simp] theorem all_scalar {s : Scalar} : All p q (.scalar s) ↔ p s := by
  rw [All, fold_scalar]

@[simp] theorem all_array {space : Space} {items : List (Spaced Tree)} :
    All p q (.array space items) ↔ ∀ item ∈ items, item.content.All p q := by
  simp only [All, fold_array, List.forall_mem_map]
  rfl

@[simp] theorem all_object {space : Space} {members : List (Member Tree)} :
    All p q (.object space members) ↔
      q (members.map Member.key) ∧ ∀ member ∈ members, member.part.content.All p q := by
  simp only [All, fold_object, List.forall_mem_map, List.map_map]
  rfl

end

/-- An induction over a tree, in which the elements of an array and the values of an
object's members come before the array or the object. -/
@[elab_as_elim]
theorem inductionOn {motive : Tree → Prop} (tree : Tree) (scalar : ∀ s, motive (.scalar s))
    (array : ∀ space items, (∀ item ∈ items, motive item.content) → motive (.array space items))
    (object : ∀ space members, (∀ member ∈ members, motive member.part.content) →
      motive (.object space members)) :
    motive tree :=
  @Tree.rec motive (fun items => ∀ item ∈ items, motive item.content)
    (fun members => ∀ member ∈ members, motive member.part.content)
    (fun item => motive item.content) (fun member => motive member.part.content)
    scalar array object
    (fun _ h => by simp at h)
    (fun _ _ hfirst hrest => List.forall_mem_cons.mpr ⟨hfirst, hrest⟩)
    (fun _ h => by simp at h)
    (fun _ _ hfirst hrest => List.forall_mem_cons.mpr ⟨hfirst, hrest⟩)
    (fun _ _ _ hcontent => hcontent)
    (fun _ _ hpart => hpart)
    tree

/-- What follows from two properties of the parts holds wherever these do. -/
theorem All.mono {p p' : Scalar → Prop} {q q' : List Key → Prop} {tree : Tree}
    (h : tree.All p q) (hscalar : ∀ s, p s → p' s) (hkeys : ∀ keys, q keys → q' keys) :
    tree.All p' q' := by
  induction tree using inductionOn with
  | scalar s => exact all_scalar.mpr (hscalar s (all_scalar.mp h))
  | array space items ih =>
    exact all_array.mpr fun item hitem => ih item hitem (all_array.mp h item hitem)
  | object space members ih =>
    obtain ⟨hq, hmembers⟩ := all_object.mp h
    exact all_object.mpr
      ⟨hkeys _ hq, fun member hmember => ih member hmember (hmembers member hmember)⟩

end Tree

/-- A document's text. -/
def Document.chars (document : Document) : List Char := (document.map Tree.chars).chars

end GoldenFixtures.Json
