import GoldenFixtures.Proofs.Json.Scalars
import GoldenFixtures.Proofs.Yaml.Tokens

/-!
# The tokens of a JSON text

A tree has the tokens that its brackets, braces and scalars are.  A key gets its mark only
if it is short: on one line, and with no more bytes than the scan looks back.  So
`tokens?_document` says what the scan of a whole document gives, and that it fails exactly
if some string means nothing in YAML or a tab stands where a key may start.
-/

namespace GoldenFixtures

open Yaml (Token quotedText? foldedText)

namespace Json

/-- The key is found again from its colon: it is on one line with it, and not too long. -/
def Key.isShort (key : Key) : Bool :=
  key.chars.all (!Yaml.isBreak ·) && decide (Text.byteCount key.chars ≤ Yaml.maxKeyLength)

/-- The tokens of a key with its colon. -/
def Key.tokens (key : Key) : List Token :=
  (if key.isShort then [.key] else []) ++ [.scalar false (foldedText key.letters), .value]

/-- The token of a scalar. -/
def Scalar.token : Scalar → Token
  | .string letters => .scalar false (foldedText letters)
  | scalar => .scalar true scalar.chars

/-- The scalar means something in YAML, if it is a string. -/
def Scalar.IsScanned : Scalar → Prop
  | .string letters => (quotedText? letters).isSome = true
  | _ => True

/-- Tokens with a comma between them. -/
def commas (parts : List (List Token)) : List Token := [Token.flowEntry].intercalate parts

theorem commas_singleton (part : List Token) : commas [part] = part :=
  List.intercalate_singleton

theorem commas_cons_cons (part next : List Token) (parts : List (List Token)) :
    commas (part :: next :: parts) = part ++ .flowEntry :: commas (next :: parts) := by
  simp [commas, List.intercalate_cons_cons]

namespace Tree

/-- The tokens of a tree. -/
def tokens : Tree → List Token :=
  fold (fun s => [s.token])
    (fun _ items =>
      .flowSequenceStart :: (commas (items.map Spaced.content) ++ [.flowSequenceEnd]))
    (fun _ members =>
      .flowMappingStart ::
        (commas (members.map fun member => member.key.tokens ++ member.part.content)
          ++ [.flowMappingEnd]))

/-- Every string of a tree means something in YAML. -/
def IsScanned : Tree → Prop :=
  All Scalar.IsScanned fun keys => ∀ key ∈ keys, (quotedText? key.letters).isSome = true

@[simp] theorem tokens_scalar (s : Scalar) : tokens (.scalar s) = [s.token] := by
  rw [tokens, fold_scalar]

@[simp] theorem tokens_array (space : Space) (items : List (Spaced Tree)) :
    tokens (.array space items) =
      .flowSequenceStart ::
        (commas (items.map fun item => item.content.tokens) ++ [.flowSequenceEnd]) := by
  rw [tokens, fold_array, List.map_map]
  rfl

@[simp] theorem tokens_object (space : Space) (members : List (Member Tree)) :
    tokens (.object space members) =
      .flowMappingStart ::
        (commas (members.map fun member => member.key.tokens ++ member.part.content.tokens)
          ++ [.flowMappingEnd]) := by
  rw [tokens, fold_object, List.map_map]
  rfl

theorem isScanned_array {space : Space} {items : List (Spaced Tree)} :
    (array space items).IsScanned ↔ ∀ item ∈ items, item.content.IsScanned :=
  all_array

theorem isScanned_object {space : Space} {members : List (Member Tree)} :
    (object space members).IsScanned ↔
      ∀ member ∈ members, (quotedText? member.key.letters).isSome = true ∧
        member.part.content.IsScanned := by
  rw [IsScanned, all_object, List.forall_mem_map]
  exact forall₂_and.symm

/-- The tree is a single word: a number, a boolean or null. -/
def isWord : Tree → Bool
  | .scalar (.string _) => false
  | .scalar _ => true
  | _ => false

end Tree

/-- No tab stands where a key may start: in front of the root, and behind it on a line of its
own unless the root is a word. -/
structure Document.TabsFit (document : Document) : Prop where
  before : '\t' ∉ document.before.chars
  after : document.content.isWord = true ∨
    '\t' ∉ document.after.chars.dropWhile (!Yaml.isBreak ·)

end Json

namespace Yaml.Scanner

open Json (Space Key Scalar Tree Spaced Member Document separated)

variable {s : Scanner} {depth : Nat} {p : Prop} {tokens : List Token} {text : List Char}

/-! ## Keys -/

theorem opensBlock_of_inFlow (h : s.inFlow = true) (column : Nat) :
    s.opensBlock column = false := by
  rw [opensBlock, h, Bool.not_true, Bool.false_and]

/-- A colon marks the key in front of it, if its place was kept. -/
theorem value_of_free (h : s.IsFree (depth + 1)) {marked : Bool} {place : KeyPlace}
    (hplace : s.keyPlace = if marked then some place else none)
    (hcount : s.count = place.tokens + 1) {scalar : Token} {before : List Token}
    (htokens : s.tokens = scalar :: before) :
    ∃ after, s.value = some after ∧ after.IsFree (depth + 1) ∧ after.cursor = s.cursor.skip 1 ∧
      after.tokens = .value :: scalar :: ((if marked then [.key] else []) ++ before) := by
  have hflow : s.inFlow = true := by simp [h.inFlow]
  cases marked with
  | true =>
    have hflow' : (s.insert place.tokens .key).inFlow = true := hflow
    have hmark : s.markKey place = s.insert place.tokens .key := by
      rw [markKey, opensBlock_of_inFlow hflow']
      rfl
    let after : Scanner := { s.insert place.tokens .key with
      cursor := s.cursor.skip 1
      keyAllowed := false
      keyPlace := none }
    have hbehind : s.count - place.tokens = 1 := by omega
    have hafter : (after.emit .value).IsFree (depth + 1) :=
      { indents := h.indents
        keyPlace := fun _ hnone => nomatch hnone
        outerPlaces := h.outerPlaces
        length_outerPlaces := h.length_outerPlaces }
    refine ⟨after.emit .value, ?_, hafter, rfl, by simp [after, insert, hbehind, htokens, emit]⟩
    simp only [value, hplace, if_true, hmark]
    rfl
  | false =>
    have hopen : s.openBlock .blockMappingStart = s := by
      rw [openBlock, opensBlock_of_inFlow hflow]
      rfl
    let after : Scanner := { s with
      cursor := s.cursor.skip 1
      keyAllowed := false }
    have hafter : (after.emit .value).IsFree (depth + 1) :=
      { indents := h.indents
        keyPlace := h.keyPlace
        outerPlaces := h.outerPlaces
        length_outerPlaces := h.length_outerPlaces }
    refine ⟨after.emit .value, ?_, hafter, rfl, by simp [after, htokens, emit]⟩
    simp [value, hplace, hflow, hopen, after]

/-- The place where a key started is near exactly if the key is short. -/
theorem isNear_of_passes {key : Key} {start : Cursor}
    (hpass : Cursor.Passes key.chars start s.cursor) (count : Nat) (required : Bool) :
    s.isNear ⟨count, required, start.index, start.line, start.column⟩ = key.isShort := by
  have hline : s.cursor.line ≤ start.line ↔ ∀ c ∈ key.chars, isBreak c = false := by
    rw [← hpass.line_eq_iff]
    exact ⟨fun hle => Nat.le_antisymm hle hpass.line_le, Nat.le_of_eq⟩
  have hindex : s.cursor.index ≤ start.index + maxKeyLength ↔
      Text.byteCount key.chars ≤ maxKeyLength := by
    rw [hpass.index]
    omega
  rw [isNear, Key.isShort, Bool.eq_iff_iff, Bool.and_eq_true, Bool.and_eq_true, decide_eq_true_eq,
    decide_eq_true_eq, decide_eq_true_eq, hline, hindex, List.all_eq_true]
  simp only [Bool.not_eq_true']

/-- Behind the string of a key whose place was kept, the colon marks the key if it is
short. -/
theorem gives_colon {key : Key} {start : Cursor} {count steps : Nat} {scalar : Token}
    {before : List Token} (hfree : s.IsFree (depth + 1))
    (hplace : s.keyPlace = some ⟨count, false, start.index, start.line, start.column⟩)
    (hcount : s.count = count + 1) (htokens : s.tokens = scalar :: before)
    (hpass : Cursor.Passes (Json.quoted key.letters) start s.cursor)
    (hrest : s.cursor.rest = key.gap.chars ++ ':' :: text) (hsteps : s.cursor.rest.length < steps)
    (h : ∀ t : Scanner, t.IsFree (depth + 1) → t.cursor.rest = text → t.Yields p tokens) :
    Gives (run steps s) p
      (before.reverse ++ ((if key.isShort then [.key] else []) ++ scalar :: .value :: tokens)) := by
  have hflow : s.inFlow = true := by simp [hfree.inFlow]
  obtain ⟨steps, rfl⟩ := Nat.exists_eq_succ_of_ne_zero (Nat.ne_zero_of_lt hsteps)
  obtain ⟨cursor, keyAllowed, hspace, hcursor, -, hrun⟩ := run_of_free hfree hrest
    (by rintro _ ⟨⟩; decide) ⟨fun _ => Or.inl hflow, fun _ => hflow⟩ hsteps
  have hmoved := hfree.moveTo cursor keyAllowed
  have hkept : (s.moveTo cursor keyAllowed).keyPlace =
      if key.isShort then some ⟨count, false, start.index, start.line, start.column⟩ else none := by
    rw [← isNear_of_passes (s := s.moveTo cursor keyAllowed) (hpass.trans hspace) count false]
    exact (congrArg (Option.filter _) hplace).trans Option.filter_some
  obtain ⟨behind, hbehind, hbehindFree, hbehindCursor, hbehindTokens⟩ :=
    value_of_free hmoved hkept hcount htokens
  have hskip := skip_one cursor hcursor
  have hfuel : text.length < steps := by
    have hlength := hspace.length_eq
    rw [hcursor, List.length_cons] at hlength
    omega
  have hgives := h behind hbehindFree (by rw [hbehindCursor]; exact hskip) steps
    (by rw [hbehindCursor]; exact hskip.symm ▸ hfuel)
  rw [hrun, hcursor]
  simp only
  rw [token_colon (by simp [hmoved.inFlow]) hcursor, hbehind, Option.bind_some]
  rw [hbehindTokens] at hgives
  cases hshort : key.isShort <;> simpa [hshort] using hgives

/-- The scan goes on behind a key and its colon. -/
theorem yields_key {key : Key} (hfree : s.IsFree (depth + 1)) (hallowed : s.keyAllowed = true)
    (hreaches : s.Reaches (key.chars ++ ':' :: text))
    (h : ∀ t : Scanner, t.IsFree (depth + 1) → t.cursor.rest = text → t.Yields p tokens) :
    s.Yields ((quotedText? key.letters).isSome = true ∧ p) (key.tokens ++ tokens) := by
  have hflow : s.inFlow = true := by simp [hfree.inFlow]
  have hquoted : Json.quoted key.letters ++ (key.gap.chars ++ ':' :: text) =
      '"' :: ((key.letters.flatMap Json.Letter.chars ++ ['"']) ++ (key.gap.chars ++ ':' :: text)) :=
    rfl
  rw [Key.chars, List.append_assoc, hquoted] at hreaches
  refine yields_of_token hfree hreaches (by rintro _ ⟨⟩; decide)
    fun t ht hrest _ hallowed' steps hsteps => ?_
  refine gives_quoted ht hquoted hrest hsteps fun after hpass hafter => ?_
  have hfollows := follows_behindScalar ht (.scalar false (foldedText key.letters)) after false
  have hlength := hpass.length_eq
  have hpos : 1 ≤ (Json.quoted key.letters).length := Nat.succ_pos _
  rw [hrest, List.length_cons] at hlength
  rw [Key.tokens, List.append_assoc]
  exact gives_colon hfollows.isFree
    (by simp [behindScalar, saved, emit, hallowed' hflow, hallowed]) rfl rfl hpass hafter
    (show after.rest.length < steps by omega) h

/-! ## Parts -/

/-- Parts with commas between them yield what each of them does. -/
theorem yields_parts {α : Type} {parts : List α} {chars : α → List Char} {toks : α → List Token}
    {P : α → Prop} {close : Char} (hclose : isFlowMark close = true)
    (hpart : ∀ part ∈ parts, ∀ (s : Scanner) (c : Char) (text : List Char) (p : Prop)
      (tokens : List Token), s.IsFree (depth + 1) → s.keyAllowed = true → isFlowMark c = true →
        s.Reaches (chars part ++ c :: text) →
          (∀ t : Scanner, t.IsFree (depth + 1) → t.Reaches (c :: text) → t.Yields p tokens) →
            s.Yields (P part ∧ p) (toks part ++ tokens))
    (hfree : s.IsFree (depth + 1)) (hallowed : s.keyAllowed = true)
    (hreaches : s.Reaches (separated [','] (parts.map chars) ++ close :: text))
    (h : ∀ t : Scanner, t.IsFree (depth + 1) → t.Reaches (close :: text) → t.Yields p tokens) :
    s.Yields ((∀ part ∈ parts, P part) ∧ p) (Json.commas (parts.map toks) ++ tokens) := by
  induction parts generalizing s with
  | nil => exact (h s hfree hreaches).of_iff (by simp)
  | cons part parts ih =>
    obtain ⟨hfirst, hothers⟩ := List.forall_mem_cons.mp hpart
    cases parts with
    | nil =>
      rw [List.map_singleton, Json.commas_singleton]
      exact (hfirst s close text p tokens hfree hallowed hclose hreaches h).of_iff (by simp)
    | cons next parts =>
      have htext : separated [','] ((part :: next :: parts).map chars) =
          chars part ++ [','] ++ separated [','] ((next :: parts).map chars) := rfl
      rw [htext, List.append_assoc, List.append_assoc] at hreaches
      rw [List.map_cons, List.map_cons, Json.commas_cons_cons, ← List.map_cons,
        List.append_assoc, List.cons_append]
      have hyields := hfirst s ',' _ ((∀ part ∈ next :: parts, P part) ∧ p) _ hfree hallowed rfl
        hreaches fun t ht hcomma => yields_comma ht hcomma fun u hu hrest hkey =>
          ih hothers hu hkey (reaches_of_rest hrest)
      exact hyields.of_iff (by simp only [List.forall_mem_cons, and_assoc])

/-! ## Words -/

theorem isPlainChar_of_mem_spell {n : Json.Number} {style : Json.ExponentStyle} {c : Char}
    (h : c ∈ n.spell style) : isPlainChar c = true := by
  have hdigit : ∀ d : Digit, isPlainChar d.toChar = true := by decide
  have hother : ∀ c ∈ ['-', '+', '.', 'e', 'E'], isPlainChar c = true :=
    List.all_eq_true.mp (by decide)
  rcases Json.mem_spell h with ⟨d, rfl⟩ | hmem
  · exact hdigit d
  · exact hother c hmem

theorem startsWord_spell (n : Json.Number) (style : Json.ExponentStyle) :
    StartsWord (n.spell style) := by
  have hdigit : ∀ d : Digit, isIndicator d.toChar = false ∧ isWhite d.toChar = false ∧
      d.toChar ≠ '.' ∧ d.toChar ≠ '\ufeff' ∧ d.toChar ≠ '-' := by decide
  obtain ⟨first, others, hdigits⟩ := List.exists_cons_of_ne_nil (Digits.ofNat_ne_nil n.whole)
  obtain ⟨hindicator, hwhite, hpoint, hmark, hminus⟩ := hdigit first
  unfold Json.Number.spell Json.Number.spellUnsigned
  rw [hdigits]
  cases n.negative with
  | false => exact ⟨first.toChar, _, rfl, Or.inl ⟨hindicator, hwhite, hpoint, hmark⟩⟩
  | true => exact ⟨'-', _, rfl, Or.inr ⟨rfl, first.toChar, _, rfl, hwhite, hminus⟩⟩

/-- Every scalar but a string is a word. -/
theorem isWord_chars {scalar : Scalar} (h : ∀ letters, scalar ≠ .string letters) :
    StartsWord scalar.chars ∧ (∀ c ∈ scalar.chars, isPlainChar c = true) ∧
      scalar.token = .scalar true scalar.chars ∧ scalar.IsScanned := by
  cases scalar with
  | null =>
    exact ⟨⟨'n', _, rfl, Or.inl (by decide)⟩, List.all_eq_true.mp (by decide), rfl, trivial⟩
  | bool flag =>
    refine ⟨?_, ?_, rfl, trivial⟩ <;> cases flag
    · exact ⟨'f', _, rfl, Or.inl (by decide)⟩
    · exact ⟨'t', _, rfl, Or.inl (by decide)⟩
    · exact List.all_eq_true.mp (by decide)
    · exact List.all_eq_true.mp (by decide)
  | number n style =>
    exact ⟨startsWord_spell n style, fun c hc => isPlainChar_of_mem_spell hc, rfl, trivial⟩
  | string letters => exact absurd rfl (h letters)

/-! ## Trees -/

/-- The scan goes on behind a scalar inside brackets or braces. -/
theorem yields_scalar {scalar : Scalar} {after : Space} {c : Char} (hc : isFlowMark c = true)
    (hfree : s.IsFree (depth + 1))
    (hreaches : s.Reaches (scalar.chars ++ (after.chars ++ c :: text)))
    (h : ∀ t : Scanner, t.IsFree (depth + 1) → t.Reaches (c :: text) → t.Yields p tokens) :
    s.Yields (scalar.IsScanned ∧ p) (scalar.token :: tokens) := by
  by_cases hstring : ∃ letters, scalar = .string letters
  · obtain ⟨letters, rfl⟩ := hstring
    exact yields_quoted hfree hreaches fun t ht hrest _ =>
      h t ht ((reaches_of_rest hrest).skip ht)
  · obtain ⟨hstarts, hplain, htoken, hscanned⟩ := isWord_chars (not_exists.mp hstring)
    have hflow : s.inFlow = true := by simp [hfree.inFlow]
    have hleft : ∀ d ∈ (c :: text).head?, s.inFlow = true ∧ isFlowMark d = true := by
      rintro _ ⟨⟩
      exact ⟨hflow, hc⟩
    rw [htoken]
    exact (yields_word hfree hstarts hplain hleft hreaches fun t ht hrest =>
      h t ht (reaches_of_rest hrest)).of_iff (by simp [hscanned])

/-- Inside so many brackets and braces the scan passes a tree, with its tokens. -/
def PassesTree (depth : Nat) (tree : Tree) : Prop :=
  ∀ (s : Scanner) (after : Space) (c : Char) (text : List Char) (p : Prop) (tokens : List Token),
    s.IsFree (depth + 1) → isFlowMark c = true →
      s.Reaches (tree.chars ++ (after.chars ++ c :: text)) →
        (∀ t : Scanner, t.IsFree (depth + 1) → t.Reaches (c :: text) → t.Yields p tokens) →
          s.Yields (tree.IsScanned ∧ p) (tree.tokens ++ tokens)

/-- The elements of an array are passed up to its closing bracket. -/
theorem yields_items {space : Space} {items : List (Spaced Tree)}
    (hitems : ∀ item ∈ items, PassesTree depth item.content) (hfree : s.IsFree (depth + 1))
    (hallowed : s.keyAllowed = true)
    (hrest : s.cursor.rest = space.chars ++
      (separated [','] (items.map fun item => (item.map Tree.chars).chars) ++ ']' :: text))
    (h : ∀ t : Scanner, t.IsFree depth → t.cursor.rest = text → t.keyAllowed = false →
      t.Yields p tokens) :
    s.Yields ((∀ item ∈ items, item.content.IsScanned) ∧ p)
      (Json.commas (items.map fun item => item.content.tokens) ++ .flowSequenceEnd :: tokens) := by
  refine yields_parts rfl ?_ hfree hallowed ((reaches_of_rest hrest).skip hfree)
    fun t ht hclose => yields_closing .brackets (Or.inl rfl) ht hclose h
  intro item hitem t c text p tokens ht _ hc hreaches h
  have htext : (item.map Tree.chars).chars ++ c :: text =
      item.before.chars ++ (item.content.chars ++ (item.after.chars ++ c :: text)) := by
    simp [Spaced.chars, Spaced.map]
  rw [htext] at hreaches
  exact hitems item hitem t item.after c text p tokens ht hc (hreaches.skip ht) h

/-- The members of an object are passed up to its closing brace. -/
theorem yields_members {space : Space} {members : List (Member Tree)}
    (hmembers : ∀ member ∈ members, PassesTree depth member.part.content)
    (hfree : s.IsFree (depth + 1)) (hallowed : s.keyAllowed = true)
    (hrest : s.cursor.rest = space.chars ++
      (separated [','] (members.map fun member => (member.map Tree.chars).chars) ++ '}' :: text))
    (h : ∀ t : Scanner, t.IsFree depth → t.cursor.rest = text → t.keyAllowed = false →
      t.Yields p tokens) :
    s.Yields ((∀ member ∈ members, (quotedText? member.key.letters).isSome = true ∧
        member.part.content.IsScanned) ∧ p)
      (Json.commas (members.map fun member => member.key.tokens ++ member.part.content.tokens)
        ++ .flowMappingEnd :: tokens) := by
  refine yields_parts rfl ?_ hfree hallowed ((reaches_of_rest hrest).skip hfree)
    fun t ht hclose => yields_closing .braces (Or.inr rfl) ht hclose h
  intro member hmember t c text p tokens ht hkey hc hreaches h
  have htext : (member.map Tree.chars).chars ++ c :: text =
      member.key.before.chars ++ (member.key.chars ++ ':' :: (member.part.before.chars ++
        (member.part.content.chars ++ (member.part.after.chars ++ c :: text)))) := by
    simp [Member.chars, Member.map, Spaced.chars, Spaced.map]
  rw [htext] at hreaches
  rw [List.append_assoc, and_assoc]
  exact yields_key ht hkey (hreaches.skip ht) fun u hu hrest =>
    hmembers member hmember u member.part.after c text p tokens hu hc
      ((reaches_of_rest hrest).skip hu) h

/-- The scan of a tree.  Each bracket and brace takes one from the nesting and adds one to
the depth. -/
theorem passesTree (tree : Tree) {n : Nat} (hnests : tree.NestsIn n)
    (hdepth : depth + n ≤ maxDepth) : PassesTree depth tree := by
  induction tree using Tree.inductionOn generalizing depth n with
  | scalar scalar =>
    intro s after c text p tokens hfree hc hreaches h
    rw [Tree.chars_scalar] at hreaches
    rw [Tree.tokens_scalar]
    exact (yields_scalar hc hfree hreaches h).of_iff (by rw [Tree.IsScanned, Tree.all_scalar])
  | array space items ih =>
    intro s after c text p tokens hfree hc hreaches h
    obtain ⟨n, rfl, hitems⟩ := Tree.nestsIn_array.mp hnests
    rw [Tree.chars_array, List.cons_append, List.append_assoc, List.append_assoc] at hreaches
    rw [Tree.tokens_array, Tree.isScanned_array, List.cons_append, List.append_assoc]
    refine yields_opening .brackets (Or.inl rfl) hfree (by omega) hreaches
      fun t ht hrest hallowed => yields_items (fun item hitem =>
        ih item hitem (hitems item hitem) (by omega)) ht hallowed hrest fun u hu hrest _ => ?_
    exact h u hu ((reaches_of_rest hrest).skip hu)
  | object space members ih =>
    intro s after c text p tokens hfree hc hreaches h
    obtain ⟨n, rfl, hmembers⟩ := Tree.nestsIn_object.mp hnests
    rw [Tree.chars_object, List.cons_append, List.append_assoc, List.append_assoc] at hreaches
    rw [Tree.tokens_object, Tree.isScanned_object, List.cons_append, List.append_assoc]
    refine yields_opening .braces (Or.inr rfl) hfree (by omega) hreaches
      fun t ht hrest hallowed => yields_members (fun member hmember =>
        ih member hmember (hmembers member hmember) (by omega)) ht hallowed hrest
          fun u hu hrest _ => ?_
    exact h u hu ((reaches_of_rest hrest).skip hu)

/-! ## Documents -/

theorem not_inFlow (h : s.IsFree 0) : s.inFlow = false := by
  simp [h.inFlow]

/-- Where a key may start, no tab fits. -/
theorem tabsFit_start_iff (hfree : s.IsFree 0) (hallowed : s.keyAllowed = true)
    {space : List Char} : s.TabsFit space ↔ '\t' ∉ space := by
  have hmem : '\t' ∈ space ↔ _ := mem_iff_takeWhile_or_dropWhile (!isBreak ·)
  rw [TabsFit, not_inFlow hfree, hallowed, hmem]
  simp [not_or]

/-- Behind a token, tabs fit up to the next line. -/
theorem tabsFit_end_iff (hfree : s.IsFree 0) (hallowed : s.keyAllowed = false)
    {space : List Char} : s.TabsFit space ↔ '\t' ∉ space.dropWhile (!isBreak ·) := by
  rw [TabsFit, not_inFlow hfree, hallowed]
  simp

/-- Nothing is yielded by white space whose tabs fit. -/
theorem yields_nil {space : Space} (hfree : s.IsFree 0) (hrest : s.cursor.rest = space.chars) :
    s.Yields (s.TabsFit space.chars) [] := by
  intro steps hsteps
  obtain ⟨steps, rfl⟩ := Nat.exists_eq_succ_of_ne_zero (Nat.ne_zero_of_lt hsteps)
  have hrest' : s.cursor.rest = space.chars ++ [] := by rw [hrest, List.append_nil]
  have hstarts : StartsToken [] := fun _ h => nomatch h
  by_cases hfit : s.TabsFit space.chars
  · obtain ⟨cursor, keyAllowed, -, hcursor, -, hrun⟩ := run_of_free hfree hrest' hstarts hfit hsteps
    rw [hrun, hcursor, List.append_nil]
    exact .of_eq_some rfl hfit
  · exact .of_eq_none (run_of_tab hfree hrest' hstarts hfit hsteps) hfit _

/-- The scan of a root and the white space behind it.  A plain scalar takes the white space
along; behind any other root it is passed as the space in front of the end. -/
theorem yields_root {tree : Tree} {after : Space} {n : Nat} (hnests : tree.NestsIn n)
    (hdepth : n ≤ maxDepth) (hfree : s.IsFree 0)
    (hreaches : s.Reaches (tree.chars ++ after.chars)) :
    s.Yields (tree.IsScanned ∧
        (tree.isWord = true ∨ '\t' ∉ after.chars.dropWhile (!isBreak ·))) tree.tokens := by
  have hend : ∀ t : Scanner, t.IsFree 0 → t.cursor.rest = after.chars → t.keyAllowed = false →
      t.Yields ('\t' ∉ after.chars.dropWhile (!isBreak ·)) [] := fun t ht hrest hallowed =>
    (yields_nil ht hrest).of_iff (tabsFit_end_iff ht hallowed)
  cases tree with
  | scalar scalar =>
    rw [Tree.chars_scalar] at hreaches
    rw [Tree.tokens_scalar, Tree.IsScanned, Tree.all_scalar]
    by_cases hstring : ∃ letters, scalar = .string letters
    · obtain ⟨letters, rfl⟩ := hstring
      exact (yields_quoted hfree hreaches hend).of_iff (by simp [Tree.isWord, Scalar.IsScanned])
    · obtain ⟨hstarts, hplain, htoken, hscanned⟩ := isWord_chars (not_exists.mp hstring)
      have hword : (Tree.scalar scalar).isWord = true := by
        cases scalar with
        | string letters => exact absurd ⟨letters, rfl⟩ hstring
        | _ => rfl
      have hnil : ∀ t : Scanner, t.IsFree 0 → t.cursor.rest = [] → t.Yields True [] :=
        fun t ht (hrest : t.cursor.rest = Space.none.chars) =>
          (yields_nil ht hrest).of_iff (by simp [TabsFit, Space.none])
      rw [← List.append_nil after.chars] at hreaches
      rw [htoken]
      exact (yields_word hfree hstarts hplain (by simp) hreaches hnil).of_iff
        (by simp [hscanned, hword])
  | array space items =>
    obtain ⟨n, rfl, hitems⟩ := Tree.nestsIn_array.mp hnests
    rw [Tree.chars_array, List.cons_append, List.append_assoc, List.append_assoc] at hreaches
    rw [Tree.tokens_array, Tree.isScanned_array]
    refine (yields_opening .brackets (Or.inl rfl) hfree (by omega) hreaches
      fun t ht hrest hallowed => yields_items (fun item hitem =>
        passesTree item.content (hitems item hitem) (by omega)) ht hallowed hrest hend).of_iff ?_
    simp [Tree.isWord]
  | object space members =>
    obtain ⟨n, rfl, hmembers⟩ := Tree.nestsIn_object.mp hnests
    rw [Tree.chars_object, List.cons_append, List.append_assoc, List.append_assoc] at hreaches
    rw [Tree.tokens_object, Tree.isScanned_object]
    refine (yields_opening .braces (Or.inr rfl) hfree (by omega) hreaches
      fun t ht hrest hallowed => yields_members (fun member hmember =>
        passesTree member.part.content (hmembers member hmember) (by omega)) ht hallowed hrest
          hend).of_iff ?_
    simp [Tree.isWord]

theorem startsToken_chars (tree : Tree) (rest : List Char) : StartsToken (tree.chars ++ rest) := by
  cases tree with
  | scalar scalar =>
    rw [Tree.chars_scalar]
    by_cases hstring : ∃ letters, scalar = .string letters
    · obtain ⟨letters, rfl⟩ := hstring
      rintro _ ⟨⟩
      decide
    · exact startsToken_of_word ((isWord_chars (not_exists.mp hstring)).1.append rest)
  | array space items =>
    rw [Tree.chars_array]
    rintro _ ⟨⟩
    decide
  | object space members =>
    rw [Tree.chars_object]
    rintro _ ⟨⟩
    decide

end Yaml.Scanner

/-- The tokens of a document, of which the scan finds all or fails. -/
theorem Yaml.tokens?_document {document : Json.Document} {n : Nat}
    (hnests : document.content.NestsIn n) (hdepth : n ≤ Yaml.maxDepth) :
    Yaml.Gives (Yaml.tokens? document.chars)
      ((∀ c ∈ document.chars, Yaml.isAllowed c = true) ∧ document.TabsFit ∧
        document.content.IsScanned) document.content.tokens := by
  have hchars : document.chars =
      document.before.chars ++ (document.content.chars ++ document.after.chars) := by
    simp [Json.Document.chars, Json.Spaced.map, Json.Spaced.chars]
  let start : Yaml.Scanner := { cursor := { rest := document.chars } }
  have hfree : start.IsFree 0 := ⟨rfl, by simp [start], by simp [start], rfl⟩
  have hfit : start.TabsFit document.before.chars ↔ '\t' ∉ document.before.chars :=
    Yaml.Scanner.tabsFit_start_iff hfree rfl
  by_cases hallowed : ∀ c ∈ document.chars, Yaml.isAllowed c = true
  swap
  · rw [Yaml.tokens?, if_neg (by simpa using hallowed)]
    exact .of_eq_none rfl (fun h => hallowed h.1) _
  have hsteps : start.cursor.rest.length < document.chars.length + 1 := Nat.lt_succ_self _
  rw [Yaml.tokens?, if_pos (List.all_eq_true.mpr hallowed)]
  by_cases htabs : '\t' ∈ document.before.chars
  · exact .of_eq_none (Yaml.Scanner.run_of_tab hfree hchars (Yaml.Scanner.startsToken_chars _ _)
      (fun hfits => hfit.mp hfits htabs) hsteps) (fun h => h.2.1.before htabs) _
  · have hyields := Yaml.Scanner.yields_root hnests hdepth hfree
      ⟨document.before, hchars, hfit.mpr htabs⟩
    refine (hyields _ hsteps).of_iff ⟨fun h => ⟨hallowed, ⟨htabs, h.2⟩, h.1⟩,
      fun h => ⟨h.2.2, h.2.1.after⟩⟩

end GoldenFixtures
