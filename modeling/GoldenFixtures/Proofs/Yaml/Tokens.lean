import GoldenFixtures.Proofs.Yaml.Gives
import GoldenFixtures.Proofs.Yaml.Quoted
import GoldenFixtures.Proofs.Yaml.Step

/-!
# The tokens of brackets, braces and scalars

What one token does to a state in which no block is open.  `Scanner.Yields` says which
tokens the scan of the rest of a text adds, and under which condition; each lemma about a
token goes from what the scan yields behind it to what it yields in front of it.
-/

namespace GoldenFixtures.Yaml

open Json (Letter Space)

namespace Scanner

variable {s : Scanner} {depth steps : Nat}

/-! ## States behind a token -/

/-- The state in which the place of the cursor is kept, if a key may start there. -/
def saved (s : Scanner) : Scanner :=
  { s with
    keyPlace :=
      if s.keyAllowed then some ⟨s.count, false, s.cursor.index, s.cursor.line, s.cursor.column⟩
      else s.keyPlace }

theorem saveKeyPlace_of_free (h : s.IsFree depth) : s.saveKeyPlace = some s.saved := by
  cases hallowed : s.keyAllowed with
  | false =>
    obtain ⟨cursor, tokens, count, indents, _, keyPlace, outerPlaces⟩ := s
    obtain rfl : _ = false := hallowed
    rfl
  | true => simp [saveKeyPlace, saved, hallowed, dropKeyPlace_of_free h, h.indents]

theorem IsFree.saved (h : s.IsFree depth) : s.saved.IsFree depth where
  indents := h.indents
  keyPlace := by
    intro place hplace
    unfold Scanner.saved at hplace
    split at hplace
    · cases hplace
      rfl
    · exact h.keyPlace place hplace
  outerPlaces := h.outerPlaces
  length_outerPlaces := h.length_outerPlaces

/-- The state behind a token, in which the scan goes on at a cursor. -/
structure Follows (s t : Scanner) (depth : Nat) (token : Token) (cursor : Cursor) : Prop where
  isFree : t.IsFree depth
  cursor_eq : t.cursor = cursor
  tokens_eq : t.tokens = token :: s.tokens

theorem flowStart_of_free (h : s.IsFree depth) (hdepth : depth ≤ maxDepth) (token : Token) :
    ∃ t, s.flowStart token = some t ∧ s.Follows t (depth + 1) token (s.cursor.skip 1) ∧
      t.keyAllowed = true := by
  have hbound : ¬ maxDepth < s.outerPlaces.length := by
    rw [h.length_outerPlaces]
    omega
  let behind : Scanner := { s.saved with
    cursor := s.cursor.skip 1
    keyAllowed := true
    keyPlace := none
    outerPlaces := s.saved.keyPlace :: s.outerPlaces }
  have hbehind : behind.IsFree (depth + 1) :=
    { indents := h.indents
      keyPlace := fun _ hplace => nomatch hplace
      outerPlaces := List.forall_mem_cons.mpr ⟨h.saved.keyPlace, h.outerPlaces⟩
      length_outerPlaces := congrArg (· + 1) h.length_outerPlaces }
  refine ⟨behind.emit token, ?_, ⟨⟨hbehind.indents, hbehind.keyPlace, hbehind.outerPlaces,
    hbehind.length_outerPlaces⟩, rfl, rfl⟩, rfl⟩
  simp [flowStart, hbound, saveKeyPlace_of_free h, behind, saved]

theorem flowEnd_of_free (h : s.IsFree (depth + 1)) (token : Token) :
    ∃ t, s.flowEnd token = some t ∧ s.Follows t depth token (s.cursor.skip 1) ∧
      t.keyAllowed = false := by
  obtain ⟨outer, places, houter⟩ := List.exists_cons_of_length_eq_add_one h.length_outerPlaces
  have hplaces := h.outerPlaces
  have hlength := h.length_outerPlaces
  rw [houter] at hplaces hlength
  obtain ⟨hfirst, hothers⟩ := List.forall_mem_cons.mp hplaces
  let behind : Scanner := { s with
    cursor := s.cursor.skip 1
    keyAllowed := false
    keyPlace := outer
    outerPlaces := places }
  have hbehind : (behind.emit token).IsFree depth :=
    { indents := h.indents
      keyPlace := hfirst
      outerPlaces := hothers
      length_outerPlaces := Nat.succ.inj hlength }
  exact ⟨behind.emit token, by simp [flowEnd, dropKeyPlace_of_free h, houter, behind],
    ⟨hbehind, rfl, rfl⟩, rfl⟩

theorem flowEntry_of_free (h : s.IsFree depth) :
    ∃ t, s.flowEntry = some t ∧ s.Follows t depth .flowEntry (s.cursor.skip 1) ∧
      t.keyAllowed = true := by
  let behind : Scanner := { s with
    cursor := s.cursor.skip 1
    keyAllowed := true
    keyPlace := none }
  have hbehind : (behind.emit .flowEntry).IsFree depth :=
    { indents := h.indents
      keyPlace := fun _ hplace => nomatch hplace
      outerPlaces := h.outerPlaces
      length_outerPlaces := h.length_outerPlaces }
  exact ⟨behind.emit .flowEntry, by simp [flowEntry, dropKeyPlace_of_free h, behind],
    ⟨hbehind, rfl, rfl⟩, rfl⟩

/-- The state behind a scalar. -/
def behindScalar (s : Scanner) (token : Token) (cursor : Cursor) (keyAllowed : Bool) : Scanner :=
  { s.saved with cursor, keyAllowed }.emit token

theorem follows_behindScalar (h : s.IsFree depth) (token : Token) (cursor : Cursor)
    (keyAllowed : Bool) :
    s.Follows (s.behindScalar token cursor keyAllowed) depth token cursor :=
  ⟨⟨h.indents, h.saved.keyPlace, h.outerPlaces, h.length_outerPlaces⟩, rfl, rfl⟩

theorem quoted_of_free (h : s.IsFree depth) (steps : Nat) (quote : Char) :
    s.quoted steps quote =
      (readQuoted quote steps (s.cursor.skip 1)).map fun read =>
        s.behindScalar (.scalar false read.1) read.2 false := by
  simp [quoted, saveKeyPlace_of_free h, Option.map_eq_bind, behindScalar, saved]

theorem plain_of_free (h : s.IsFree depth) (steps : Nat) :
    s.plain steps =
      (readPlain s.inFlow 0 steps s.cursor).map fun scalar =>
        s.behindScalar (.scalar true scalar.text) scalar.cursor scalar.broken := by
  simp [plain, saveKeyPlace_of_free h, h.indents, Option.map_eq_bind,
    behindScalar, saved, inFlow]

/-! ## Which token stands here -/

section

variable {rest : List Char}

theorem token_openBracket (hrest : s.cursor.rest = '[' :: rest) :
    s.token steps '[' rest = s.flowStart .flowSequenceStart := by
  simp [token, Cursor.atMarker, hrest]

theorem token_openBrace (hrest : s.cursor.rest = '{' :: rest) :
    s.token steps '{' rest = s.flowStart .flowMappingStart := by
  simp [token, Cursor.atMarker, hrest]

theorem token_closeBracket (hrest : s.cursor.rest = ']' :: rest) :
    s.token steps ']' rest = s.flowEnd .flowSequenceEnd := by
  simp [token, Cursor.atMarker, hrest]

theorem token_closeBrace (hrest : s.cursor.rest = '}' :: rest) :
    s.token steps '}' rest = s.flowEnd .flowMappingEnd := by
  simp [token, Cursor.atMarker, hrest]

theorem token_comma (hrest : s.cursor.rest = ',' :: rest) :
    s.token steps ',' rest = s.flowEntry := by
  simp [token, Cursor.atMarker, hrest]

theorem token_colon (hflow : s.inFlow = true) (hrest : s.cursor.rest = ':' :: rest) :
    s.token steps ':' rest = s.value := by
  simp [token, Cursor.atMarker, hrest, hflow]

theorem token_quote (hrest : s.cursor.rest = '"' :: rest) :
    s.token steps '"' rest = s.quoted steps '"' := by
  simp [token, Cursor.atMarker, hrest]

/-- A text starts like a plain scalar: with a letter or a digit, or with a minus in front of
a digit. -/
def StartsWord (text : List Char) : Prop :=
  ∃ c rest, text = c :: rest ∧
    ((isIndicator c = false ∧ isWhite c = false ∧ c ≠ '.' ∧ c ≠ '\ufeff') ∨
      c = '-' ∧ ∃ d more, rest = d :: more ∧ isWhite d = false ∧ d ≠ '-')

theorem StartsWord.append {text : List Char} (h : StartsWord text) (more : List Char) :
    StartsWord (text ++ more) := by
  obtain ⟨c, rest, rfl, hc | ⟨rfl, d, last, rfl, hd⟩⟩ := h
  · exact ⟨c, rest ++ more, rfl, Or.inl hc⟩
  · exact ⟨'-', _, rfl, Or.inr ⟨rfl, d, last ++ more, rfl, hd⟩⟩

theorem token_word {c : Char} (hrest : s.cursor.rest = c :: rest) (hword : StartsWord (c :: rest)) :
    s.token steps c rest = s.plain steps := by
  obtain ⟨_, _, ⟨⟩, ⟨hindicator, hwhite, hpoint, -⟩ | ⟨rfl, d, more, rfl, hdigit, hminus⟩⟩ := hword
  · simp only [isIndicator, List.mem_cons, List.not_mem_nil, or_false, not_or,
      decide_eq_false_iff_not] at hindicator
    simp [token, Cursor.atMarker, hrest, startsPlain, isIndicator, hwhite, hpoint, hindicator]
  · have hblank : isBlank d = false := (Bool.or_eq_false_iff.mp hdigit).1
    simp [token, Cursor.atMarker, hrest, startsPlain, endsWord, hdigit, hminus, hblank]

theorem startsToken_of_word (h : StartsWord rest) : StartsToken rest := by
  obtain ⟨c, rest, rfl, ⟨hindicator, hwhite, -, hmark⟩ | ⟨rfl, -⟩⟩ := h
  · rintro _ ⟨⟩
    refine ⟨hwhite, ?_, hmark⟩
    rintro rfl
    cases hindicator
  · rintro _ ⟨⟩
    decide

theorem startsMarker_of_word (h : StartsWord rest) : startsMarker rest = false := by
  obtain ⟨c, rest, rfl, ⟨hindicator, -, hpoint, -⟩ | ⟨rfl, d, more, rfl, -, hminus⟩⟩ := h
  · have hminus : c ≠ '-' := by
      rintro rfl
      cases hindicator
    simp [startsMarker, hminus, hpoint]
  · simp [startsMarker, hminus]

end

/-! ## What the scan yields -/

/-- In front of a text there is only white space that the scan passes. -/
def Reaches (s : Scanner) (text : List Char) : Prop :=
  ∃ space : Space, s.cursor.rest = space.chars ++ text ∧ s.TabsFit space.chars

/-- The scan of the rest of the text adds these tokens under a condition, and fails
otherwise. -/
def Yields (s : Scanner) (p : Prop) (tokens : List Token) : Prop :=
  ∀ steps, s.cursor.rest.length < steps → Gives (run steps s) p (s.tokens.reverse ++ tokens)

theorem reaches_of_rest {text : List Char} (h : s.cursor.rest = text) : s.Reaches text :=
  ⟨Space.none, h, by simp [TabsFit, Space.none]⟩

/-- Inside brackets and braces the scan passes any white space. -/
theorem Reaches.skip {text : List Char} {space : Space} (hfree : s.IsFree (depth + 1))
    (h : s.Reaches (space.chars ++ text)) : s.Reaches text := by
  obtain ⟨before, hrest, -⟩ := h
  have hflow : s.inFlow = true := by simp [hfree.inFlow]
  exact ⟨before.append space, by simp [hrest, Space.append],
    fun _ => Or.inl hflow, fun _ => hflow⟩

variable {p : Prop} {tokens : List Token} {c : Char} {text : List Char}

theorem Yields.of_iff {q : Prop} (h : s.Yields p tokens) (hiff : p ↔ q) : s.Yields q tokens :=
  fun steps hsteps => (h steps hsteps).of_iff hiff

/-- What is yielded is told by what the token yields that the scan reaches. -/
theorem yields_of_token (hfree : s.IsFree depth) (hreaches : s.Reaches (c :: text))
    (hstarts : StartsToken (c :: text))
    (h : ∀ t : Scanner, t.IsFree depth → t.cursor.rest = c :: text → t.tokens = s.tokens →
      (s.inFlow = true → t.keyAllowed = s.keyAllowed) → ∀ steps, text.length < steps →
        Gives ((t.token (steps + 1) c text).bind (run steps)) p (t.tokens.reverse ++ tokens)) :
    s.Yields p tokens := by
  intro steps hsteps
  obtain ⟨space, hrest, hfit⟩ := hreaches
  obtain ⟨steps, rfl⟩ := Nat.exists_eq_succ_of_ne_zero (Nat.ne_zero_of_lt hsteps)
  obtain ⟨cursor, keyAllowed, -, hcursor, hallowed, hrun⟩ :=
    run_of_free hfree hrest hstarts hfit hsteps
  have hlength : text.length < steps := by
    rw [hrest, List.length_append, List.length_cons] at hsteps
    omega
  rw [hrun, hcursor]
  exact h _ (hfree.moveTo cursor keyAllowed) hcursor rfl hallowed steps hlength

/-- A token adds itself to what is yielded behind it. -/
theorem Follows.gives {t : Scanner} {token : Token} {cursor : Cursor}
    (h : s.Follows t depth token cursor) (hyields : t.Yields p tokens)
    (hsteps : cursor.rest.length < steps) :
    Gives (run steps t) p (s.tokens.reverse ++ token :: tokens) := by
  have hgives := hyields steps (by rwa [h.cursor_eq])
  rwa [h.tokens_eq, List.reverse_cons, List.append_assoc] at hgives

theorem skip_one (cursor : Cursor) (hrest : cursor.rest = c :: text) :
    (cursor.skip 1).rest = text := by
  have hused : cursor.rest = [c] ++ text := hrest
  exact Cursor.rest_skip hused

/-- Behind one mark the scan goes on. -/
theorem yields_of_mark {token : Token} {next : Nat} {allowed : Bool} (hfree : s.IsFree depth)
    (hreaches : s.Reaches (c :: text)) (hstarts : StartsToken (c :: text))
    (hmark : ∀ t : Scanner, t.IsFree depth → t.cursor.rest = c :: text →
      ∃ after, (∀ steps, t.token steps c text = some after) ∧
        t.Follows after next token (t.cursor.skip 1) ∧ after.keyAllowed = allowed)
    (h : ∀ t : Scanner, t.IsFree next → t.cursor.rest = text → t.keyAllowed = allowed →
      t.Yields p tokens) :
    s.Yields p (token :: tokens) := by
  refine yields_of_token hfree hreaches hstarts fun t ht hrest _ _ steps hsteps => ?_
  obtain ⟨after, hafter, hfollows, hallowed⟩ := hmark t ht hrest
  have hskip := skip_one t.cursor hrest
  rw [hafter, Option.bind_some]
  exact hfollows.gives (h after hfollows.isFree (by rw [hfollows.cursor_eq, hskip]) hallowed)
    (by rwa [hskip])

/-- The scan goes on behind a comma, where a key may start. -/
theorem yields_comma (hfree : s.IsFree depth) (hreaches : s.Reaches (',' :: text))
    (h : ∀ t : Scanner, t.IsFree depth → t.cursor.rest = text → t.keyAllowed = true →
      t.Yields p tokens) :
    s.Yields p (.flowEntry :: tokens) := by
  refine yields_of_mark hfree hreaches (by rintro _ ⟨⟩; decide) (fun t ht hrest => ?_) h
  obtain ⟨after, hafter, hfollows, hallowed⟩ := flowEntry_of_free ht
  exact ⟨after, fun steps => by rw [token_comma hrest, hafter], hfollows, hallowed⟩

/-! ## Brackets and braces -/

/-- A pair of brackets or braces, with their tokens. -/
structure Pair where
  opening : Char
  closing : Char
  start : Token
  stop : Token

/-- The two brackets. -/
def Pair.brackets : Pair := ⟨'[', ']', .flowSequenceStart, .flowSequenceEnd⟩

/-- The two braces. -/
def Pair.braces : Pair := ⟨'{', '}', .flowMappingStart, .flowMappingEnd⟩

theorem yields_opening (pair : Pair) (hpair : pair = .brackets ∨ pair = .braces)
    (hfree : s.IsFree depth) (hdepth : depth ≤ maxDepth)
    (hreaches : s.Reaches (pair.opening :: text))
    (h : ∀ t : Scanner, t.IsFree (depth + 1) → t.cursor.rest = text → t.keyAllowed = true →
      t.Yields p tokens) :
    s.Yields p (pair.start :: tokens) := by
  refine yields_of_mark hfree hreaches ?_ (fun t ht hrest => ?_) h
  · rcases hpair with rfl | rfl <;> (rintro _ ⟨⟩; decide)
  · obtain ⟨after, hafter, hfollows, hallowed⟩ := flowStart_of_free ht hdepth pair.start
    refine ⟨after, fun steps => ?_, hfollows, hallowed⟩
    rw [← hafter]
    rcases hpair with rfl | rfl
    · exact token_openBracket hrest
    · exact token_openBrace hrest

theorem yields_closing (pair : Pair) (hpair : pair = .brackets ∨ pair = .braces)
    (hfree : s.IsFree (depth + 1)) (hreaches : s.Reaches (pair.closing :: text))
    (h : ∀ t : Scanner, t.IsFree depth → t.cursor.rest = text → t.keyAllowed = false →
      t.Yields p tokens) :
    s.Yields p (pair.stop :: tokens) := by
  refine yields_of_mark hfree hreaches ?_ (fun t ht hrest => ?_) h
  · rcases hpair with rfl | rfl <;> (rintro _ ⟨⟩; decide)
  · obtain ⟨after, hafter, hfollows, hallowed⟩ := flowEnd_of_free ht pair.stop
    refine ⟨after, fun steps => ?_, hfollows, hallowed⟩
    rw [← hafter]
    rcases hpair with rfl | rfl
    · exact token_closeBracket hrest
    · exact token_closeBrace hrest

/-! ## Scalars -/

/-- A string in quotes is read up to its closing quote, if it means anything. -/
theorem gives_quoted {letters : List Letter} {rest : List Char} {steps : Nat} {tokens : List Token}
    (hfree : s.IsFree depth) (hquoted : Json.quoted letters ++ text = '"' :: rest)
    (hrest : s.cursor.rest = '"' :: rest) (hsteps : rest.length < steps)
    (h : ∀ after, Cursor.Passes (Json.quoted letters) s.cursor after → after.rest = text →
      Gives (run steps (s.behindScalar (.scalar false (foldedText letters)) after false)) p
        tokens) :
    Gives ((s.token (steps + 1) '"' rest).bind (run steps))
      ((quotedText? letters).isSome = true ∧ p) tokens := by
  have hused : s.cursor.rest = ['"'] ++ rest := hrest
  have hopen : Cursor.Passes ['"'] s.cursor (s.cursor.skip 1) :=
    Cursor.passes_skip hused (List.forall_mem_singleton.mpr rfl)
  have hbehind : (s.cursor.skip 1).rest = letters.flatMap Json.Letter.chars ++ '"' :: text := by
    rw [skip_one s.cursor hrest, ← (List.cons.inj hquoted).2]
    simp
  have hmarker : (s.cursor.skip 1).atDocumentMarker = false := by
    have hcolumn : (s.cursor.skip 1).column ≠ 0 := Nat.succ_ne_zero _
    rw [atDocumentMarker_eq, beq_eq_false_iff_ne.mpr hcolumn, Bool.false_and]
  have hlength : (s.cursor.skip 1).rest.length < steps + 1 := by
    rw [skip_one s.cursor hrest]
    omega
  obtain ⟨after, hpass, hread⟩ := readQuoted_letters letters hbehind hlength hmarker
  have hpasses : Cursor.Passes (Json.quoted letters) s.cursor after := hopen.trans hpass
  have hafter : after.rest = text := by
    have hboth := hpasses.rest.symm.trans (hrest.trans hquoted.symm)
    exact List.append_cancel_left hboth
  have hgiven := Gives.getD (quotedText? letters) []
  rw [token_quote hrest, quoted_of_free hfree, hread, Option.bind_map, Option.bind_map]
  exact hgiven.bind fun _ => h after hpasses hafter

theorem yields_quoted {letters : List Letter} (hfree : s.IsFree depth)
    (hreaches : s.Reaches (Json.quoted letters ++ text))
    (h : ∀ t : Scanner, t.IsFree depth → t.cursor.rest = text → t.keyAllowed = false →
      t.Yields p tokens) :
    s.Yields ((quotedText? letters).isSome = true ∧ p)
      (.scalar false (foldedText letters) :: tokens) := by
  have hquoted : Json.quoted letters ++ text =
      '"' :: ((letters.flatMap Json.Letter.chars ++ ['"']) ++ text) := rfl
  rw [hquoted] at hreaches
  refine yields_of_token hfree hreaches (by rintro _ ⟨⟩; decide) fun t ht hrest _ _ steps hsteps =>
    gives_quoted ht hquoted hrest hsteps fun after hpass hafter => ?_
  have hfollows := follows_behindScalar ht (.scalar false (foldedText letters)) after false
  refine hfollows.gives (h _ hfollows.isFree hafter rfl) ?_
  have hlength := hpass.length_eq
  rw [hrest, List.length_cons] at hlength
  have hpos : 1 ≤ (Json.quoted letters).length := Nat.succ_pos _
  omega

/-- A word is read as a plain scalar with the white space behind it, if nothing else follows
or, inside brackets and braces, one of their marks. -/
theorem yields_word {word left : List Char} {after : Space} (hfree : s.IsFree depth)
    (hstarts : StartsWord word) (hword : ∀ c ∈ word, isPlainChar c = true)
    (hleft : ∀ c ∈ left.head?, s.inFlow = true ∧ isFlowMark c = true)
    (hreaches : s.Reaches (word ++ (after.chars ++ left)))
    (h : ∀ t : Scanner, t.IsFree depth → t.cursor.rest = left → t.Yields p tokens) :
    s.Yields p (.scalar true word :: tokens) := by
  have hmore := hstarts.append (after.chars ++ left)
  obtain ⟨c, rest, htext, -⟩ := id hmore
  rw [htext] at hreaches hmore
  refine yields_of_token hfree hreaches (startsToken_of_word hmore)
    fun t ht hrest _ _ steps hsteps => ?_
  have hflow : t.inFlow = s.inFlow := by rw [ht.inFlow, hfree.inFlow]
  have hmarker : t.cursor.atDocumentMarker = false := by
    rw [atDocumentMarker_eq, hrest, startsMarker_of_word hmore, Bool.and_false]
  have hne : word ≠ [] := by
    obtain ⟨_, _, rfl, -⟩ := hstarts
    exact List.cons_ne_nil _ _
  obtain ⟨cursor, broken, hpass, hread⟩ := readPlain_word steps hword hne
    (hflow ▸ hleft) (hrest.trans htext.symm) hmarker
  have hcursor : cursor.rest = left := by
    have hboth := hpass.rest.symm.trans (hrest.trans htext.symm)
    rw [← List.append_assoc] at hboth
    exact List.append_cancel_left hboth
  have hfollows := follows_behindScalar ht (.scalar true word) cursor broken
  rw [token_word hrest hmore, plain_of_free ht, hread, Option.map_some, Option.bind_some]
  refine hfollows.gives (h _ hfollows.isFree hcursor) ?_
  have hlength := hpass.length_eq
  have hpos := List.length_pos_iff.mpr hne
  rw [hrest, List.length_cons, List.length_append] at hlength
  omega

end Scanner

end GoldenFixtures.Yaml
