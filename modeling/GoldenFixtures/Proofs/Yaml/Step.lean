import GoldenFixtures.Proofs.Json.Tree
import GoldenFixtures.Proofs.Yaml.Cursor
import GoldenFixtures.Proofs.Yaml.Plain
import GoldenFixtures.Yaml.Scan

/-!
# One step of a scan without blocks

A text in which all collections stand between brackets and braces opens no block, and no
key in it is required; `Scanner.IsFree` says so of a state.  From such a state a step of the
scan moves behind white space, gives up the places of keys that are too far away
(`Scanner.moveTo`) and reads one token: `run_of_free`.
-/

namespace GoldenFixtures.Yaml

open Json (isSpace)

namespace Scanner

/-- No block is open, no key is required, and so many brackets and braces are open. -/
structure IsFree (s : Scanner) (depth : Nat) : Prop where
  indents : s.indents = []
  keyPlace : ∀ place ∈ s.keyPlace, place.required = false
  outerPlaces : ∀ outer ∈ s.outerPlaces, ∀ place ∈ outer, place.required = false
  length_outerPlaces : s.outerPlaces.length = depth

theorem IsFree.inFlow {s : Scanner} {depth : Nat} (h : s.IsFree depth) :
    s.inFlow = decide (0 < depth) := by
  rw [Scanner.inFlow, ← h.length_outerPlaces]
  cases s.outerPlaces <;> simp

/-! ## White space -/

/-- The tabs of white space stand where the scan passes them: in front of the first line end
if no key may start there, and behind it only inside brackets and braces. -/
def TabsFit (s : Scanner) (space : List Char) : Prop :=
  ('\t' ∈ space.takeWhile (!isBreak ·) → s.inFlow = true ∨ s.keyAllowed = false) ∧
    ('\t' ∈ space.dropWhile (!isBreak ·) → s.inFlow = true)

theorem mem_iff_takeWhile_or_dropWhile {c : Char} (p : Char → Bool) {text : List Char} :
    c ∈ text ↔ c ∈ text.takeWhile p ∨ c ∈ text.dropWhile p := by
  rw [← List.mem_append, List.takeWhile_append_dropWhile]

/-- At a line of its own, tabs fit only inside brackets and braces. -/
theorem tabsFit_nextLine_iff (s : Scanner) (cursor : Cursor) {c : Char} {extra : List Char}
    (space : List Char) (hc : isBreak c = true) (hextra : ∀ d ∈ extra, isBreak d = true) :
    ({ s with cursor, keyAllowed := s.keyAllowed || !s.inFlow } : Scanner).TabsFit space ↔
      ('\t' ∈ c :: (extra ++ space) → s.inFlow = true) := by
  have hc' : '\t' ≠ c := by
    rintro rfl
    cases hc
  have hextra' : '\t' ∉ extra := fun htab => nomatch hextra _ htab
  have hflow : ({ s with cursor, keyAllowed := s.keyAllowed || !s.inFlow } : Scanner).inFlow =
      s.inFlow := rfl
  have hmem : '\t' ∈ c :: (extra ++ space) ↔
      '\t' ∈ space.takeWhile (!isBreak ·) ∨ '\t' ∈ space.dropWhile (!isBreak ·) := by
    rw [← mem_iff_takeWhile_or_dropWhile]
    simp [hc', hextra']
  rw [hmem, TabsFit, hflow]
  cases s.inFlow <;> simp [not_or]

/-- The text ends, or a token starts here. -/
def StartsToken (text : List Char) : Prop :=
  ∀ c ∈ text.head?, isWhite c = false ∧ c ≠ '#' ∧ c ≠ '\ufeff'

theorem isBlank_of_isSpace {c : Char} (h : isSpace c = true) (hbreak : isBreak c = false) :
    c = ' ' ∨ c = '\t' := by
  simp only [isSpace, Bool.or_eq_true, beq_iff_eq] at h
  rcases h with ((rfl | rfl) | rfl) | rfl
  · exact Or.inl rfl
  · exact Or.inr rfl
  · cases hbreak
  · cases hbreak

/-- The scan passes spaces here, and tabs where they fit. -/
def PassesBlanks (s : Scanner) (blanks : List Char) : Prop :=
  ∀ c ∈ blanks, c = ' ' ∨ (s.inFlow || !s.keyAllowed) = true ∧ c = '\t'

/-- The cursor moves behind blanks, and on from there if a line ends. -/
theorem skipToToken_blanks {s : Scanner} {blanks rest : List Char} {steps : Nat}
    (hrest : s.cursor.rest = blanks ++ rest)
    (hblanks : s.PassesBlanks blanks)
    (hhead : ∀ c ∈ rest.head?, c ≠ ' ' ∧ c ≠ '#' ∧ c ≠ '\ufeff' ∧
      ((s.inFlow || !s.keyAllowed) = true → c ≠ '\t')) :
    s.skipToToken (steps + 1) =
      if rest.head?.any isBreak then
        skipToToken steps
          { s with
            cursor := (s.cursor.skip blanks.length).skipBreak
            keyAllowed := s.keyAllowed || !s.inFlow }
      else { s with cursor := s.cursor.skip blanks.length } := by
  have hmark : (s.cursor.next? == some '\ufeff') = false := by
    rw [Cursor.next?, hrest, beq_eq_false_iff_ne]
    intro hmark
    cases blanks with
    | nil => exact (hhead _ hmark).2.2.1 rfl
    | cons c blanks =>
      obtain rfl := Option.some.inj hmark
      simpa using hblanks _ (List.mem_cons_self)
  have hbehind := Cursor.rest_skip hrest
  have hcomment : ((s.cursor.skip blanks.length).next? == some '#') = false := by
    rw [Cursor.next?, hbehind, beq_eq_false_iff_ne]
    exact fun hcomment => (hhead _ hcomment).2.1 rfl
  have htake : s.cursor.rest.takeWhile
      (fun c => c == ' ' || (s.inFlow || !s.keyAllowed) && c == '\t') = blanks := by
    rw [hrest, List.takeWhile_append_of_pos fun c hc => by
      rcases hblanks c hc with rfl | ⟨htabs, rfl⟩ <;> simp [*]]
    cases rest with
    | nil => simp
    | cons c rest =>
      obtain ⟨hspace, -, -, htab⟩ := hhead c rfl
      have hc : (c == ' ' || (s.inFlow || !s.keyAllowed) && c == '\t') = false := by
        cases htabs : (s.inFlow || !s.keyAllowed) <;> simp_all
      rw [List.takeWhile_cons, hc]
      exact List.append_nil blanks
  rw [skipToToken]
  simp only [hmark, Bool.and_false, Bool.false_eq_true, if_false, Cursor.skipWhile, htake, hcomment]
  rw [Cursor.next?, hbehind]

theorem skipToToken_last {s : Scanner} {blanks left : List Char} {steps : Nat}
    (hrest : s.cursor.rest = blanks ++ left) (hblanks : s.PassesBlanks blanks)
    (hleft : StartsToken left) :
    s.skipToToken (steps + 1) = { s with cursor := s.cursor.skip blanks.length } := by
  have hwhite : left.head?.any isBreak = false := by
    cases left with
    | nil => rfl
    | cons c left =>
      exact Bool.eq_false_iff.mpr fun hbreak =>
        Bool.eq_false_iff.mp (hleft c rfl).1 (isWhite_of_isBreak hbreak)
  rw [skipToToken_blanks hrest hblanks, if_neg (by simp [hwhite])]
  intro c hc
  obtain ⟨hnot, hcomment, hmark⟩ := hleft c hc
  have hspace : c ≠ ' ' ∧ c ≠ '\t' := by
    constructor <;> (rintro rfl; cases hnot)
  exact ⟨hspace.1, hcomment, hmark, fun _ => hspace.2⟩

theorem skipToToken_line {s : Scanner} {blanks rest : List Char} {c : Char} {steps : Nat}
    (hrest : s.cursor.rest = blanks ++ c :: rest) (hblanks : s.PassesBlanks blanks)
    (hbreak : isBreak c = true) :
    s.skipToToken (steps + 1) =
      skipToToken steps
        { s with
          cursor := (s.cursor.skip blanks.length).skipBreak
          keyAllowed := s.keyAllowed || !s.inFlow } := by
  rw [skipToToken_blanks hrest hblanks, if_pos (by simpa using hbreak)]
  intro d hd
  obtain rfl : c = d := Option.some.inj hd
  refine ⟨?_, ?_, ?_, fun _ => ?_⟩ <;> (rintro rfl; cases hbreak)

/-- In front of the first tab of a line there is nothing but spaces. -/
theorem exists_tab {space : List Char} (hspace : ∀ c ∈ space, isSpace c = true)
    (htab : '\t' ∈ space.takeWhile (!isBreak ·)) :
    ∃ blanks more, space = blanks ++ '\t' :: more ∧ ∀ c ∈ blanks, c = ' ' := by
  induction space with
  | nil => cases htab
  | cons c space ih =>
    obtain ⟨hc, hmore⟩ := List.forall_mem_cons.mp hspace
    rw [List.takeWhile_cons] at htab
    split at htab
    · rename_i hbreak
      rcases isBlank_of_isSpace hc (by simpa using hbreak) with rfl | rfl
      · obtain ⟨blanks, more, rfl, hblanks⟩ := ih hmore (by simpa using htab)
        exact ⟨' ' :: blanks, more, rfl, by simpa using hblanks⟩
      · exact ⟨[], space, rfl, by simp⟩
    · cases htab

/-- The scan stops at a tab that stands where a key may start. -/
theorem skipToToken_tab {s : Scanner} {space left : List Char} (steps : Nat)
    (hrest : s.cursor.rest = space ++ left) (hspace : ∀ c ∈ space, isSpace c = true)
    (htab : '\t' ∈ space.takeWhile (!isBreak ·)) (htabs : (s.inFlow || !s.keyAllowed) = false) :
    ∃ cursor, s.skipToToken (steps + 1) = { s with cursor } ∧ cursor.next? = some '\t' := by
  obtain ⟨blanks, more, rfl, hblanks⟩ := exists_tab hspace htab
  have hrest' : s.cursor.rest = blanks ++ ('\t' :: (more ++ left)) := by simp [hrest]
  have hbreak : isBreak '\t' = false := rfl
  refine ⟨s.cursor.skip blanks.length, ?_, by rw [Cursor.next?, Cursor.rest_skip hrest']; rfl⟩
  rw [skipToToken_blanks hrest' (fun c hc => Or.inl (hblanks c hc)) (by simp [htabs])]
  simp [hbreak]

/-- The white space behind a line end starts at a line of its own. -/
theorem exists_skipBreak_space {cursor : Cursor} {c : Char} {more left : List Char}
    (hrest : cursor.rest = c :: (more ++ left)) (hbreak : isBreak c = true)
    (hleft : StartsToken left) :
    ∃ extra space, more = extra ++ space ∧ (∀ d ∈ extra, isBreak d = true) ∧
      cursor.skipBreak.rest = space ++ left ∧
        Cursor.Passes (c :: extra) cursor cursor.skipBreak := by
  obtain ⟨extra, hpass, hextra⟩ := Cursor.exists_passes_skipBreak hrest hbreak
  have happend : extra ++ cursor.skipBreak.rest = more ++ left :=
    (List.cons.inj (hpass.rest.symm.trans hrest)).2
  rcases List.append_eq_append_iff.mp happend with ⟨space, rfl, hspace⟩ | ⟨beyond, rfl, hbeyond⟩
  · exact ⟨extra, space, rfl, hextra, hspace, hpass⟩
  · cases beyond with
    | nil =>
      exact ⟨more, [], by simp, by simpa using hextra, by simpa using hbeyond.symm,
        by simpa using hpass⟩
    | cons d beyond =>
      have hd : isBreak d = true := hextra d (by simp)
      have hwhite := (hleft d (by rw [hbeyond]; rfl)).1
      rw [isWhite_of_isBreak hd] at hwhite
      cases hwhite

/-- The scan passes white space whose tabs fit, and stops at a tab otherwise.  One step
passes the rest of a line and its break; what tabs may do on the next line is decided there,
by the state behind the break. -/
theorem exists_skipToToken {s : Scanner} {space left : List Char} {steps : Nat}
    (hrest : s.cursor.rest = space ++ left) (hspace : ∀ c ∈ space, isSpace c = true)
    (hleft : StartsToken left) (hsteps : space.length < steps) :
    ∃ cursor keyAllowed, s.skipToToken steps = { s with cursor, keyAllowed } ∧
      (s.TabsFit space →
        Cursor.Passes space s.cursor cursor ∧ (s.inFlow = true → keyAllowed = s.keyAllowed)) ∧
      (¬ s.TabsFit space → cursor.next? = some '\t') := by
  induction steps generalizing s space with
  | zero => cases hsteps
  | succ steps ih =>
  by_cases htabs : '\t' ∈ space.takeWhile (!isBreak ·) → s.inFlow = true ∨ s.keyAllowed = false
  swap
  · obtain ⟨htab, hnot⟩ := Classical.not_imp.mp htabs
    obtain ⟨cursor, hskip, hnext⟩ := skipToToken_tab steps hrest hspace htab
      (by simpa [not_or] using hnot)
    exact ⟨cursor, s.keyAllowed, hskip, fun hfit => absurd hfit.1 htabs, fun _ => hnext⟩
  have hsplit : space.takeWhile (!isBreak ·) ++ space.dropWhile (!isBreak ·) = space :=
    List.takeWhile_append_dropWhile
  have hbreaks : ∀ c ∈ space.takeWhile (!isBreak ·), isBreak c = false := fun c hc => by
    simpa using List.mem_takeWhile_imp hc
  have hend : ∀ c ∈ (space.dropWhile (!isBreak ·)).head?, isBreak c = true := fun c hc => by
    have hnot := List.head?_dropWhile_not (!isBreak ·) space
    rw [Option.mem_def.mp hc] at hnot
    simpa using hnot
  unfold TabsFit
  generalize space.takeWhile (!isBreak ·) = blanks at hsplit htabs hbreaks ⊢
  generalize space.dropWhile (!isBreak ·) = behind at hsplit hend ⊢
  subst hsplit
  rw [List.append_assoc] at hrest
  have hblanks : s.PassesBlanks blanks := by
    intro c hc
    rcases isBlank_of_isSpace (hspace c (by simp [hc])) (hbreaks c hc) with rfl | rfl
    · exact Or.inl rfl
    · exact Or.inr ⟨by simpa using htabs hc, rfl⟩
  have hpass := Cursor.passes_skip hrest hbreaks
  cases behind with
  | nil =>
    exact ⟨_, s.keyAllowed, skipToToken_last hrest hblanks hleft,
      fun _ => ⟨by simpa using hpass, fun _ => rfl⟩, fun hnot => absurd ⟨htabs, by simp⟩ hnot⟩
  | cons c behind =>
    have hc : isBreak c = true := hend c rfl
    obtain ⟨extra, space, rfl, hextra, hrest', hpass'⟩ :=
      exists_skipBreak_space (Cursor.rest_skip hrest) hc hleft
    rw [skipToToken_line hrest hblanks hc]
    have hfuel : space.length < steps := by
      simp only [List.length_append, List.length_cons] at hsteps
      omega
    obtain ⟨cursor, keyAllowed, hskip, hfit, htab⟩ := ih (s := { s with
      cursor := (s.cursor.skip blanks.length).skipBreak
      keyAllowed := s.keyAllowed || !s.inFlow }) hrest' (fun d hd => hspace d (by simp [hd])) hfuel
    have hnext := tabsFit_nextLine_iff s (s.cursor.skip blanks.length).skipBreak space hc hextra
    refine ⟨cursor, keyAllowed, hskip, fun h => ?_, fun h => ?_⟩
    · obtain ⟨hspaces, hallowed⟩ := hfit (hnext.mpr h.2)
      refine ⟨by simpa using (hpass.trans hpass').trans hspaces, fun hflow => ?_⟩
      rw [hallowed hflow]
      change (s.keyAllowed || !s.inFlow) = s.keyAllowed
      rw [hflow, Bool.not_true, Bool.or_false]
    · exact htab fun hfits => h ⟨htabs, hnext.mp hfits⟩

/-! ## Places of keys -/

/-- The state at a cursor, where places that are too far in front are given up. -/
def moveTo (s : Scanner) (cursor : Cursor) (keyAllowed : Bool) : Scanner :=
  let moved : Scanner := { s with cursor, keyAllowed }
  { moved with
    keyPlace := moved.keyPlace.filter moved.isNear
    outerPlaces := moved.outerPlaces.map (·.filter moved.isNear) }

theorem dropFarPlace?_of_free {s : Scanner} {place : Option KeyPlace}
    (h : ∀ p ∈ place, p.required = false) :
    s.dropFarPlace? place = some (place.filter s.isNear) := by
  cases place with
  | none => rfl
  | some place =>
    have hrequired : place.required = false := h place rfl
    rw [dropFarPlace?, Option.filter_some, hrequired]
    split <;> simp_all

/-- No place of a key is required, so that none is missing. -/
theorem dropFarPlaces_of_free {s : Scanner} {depth : Nat} (h : s.IsFree depth) :
    s.dropFarPlaces =
      some { s with
        keyPlace := s.keyPlace.filter s.isNear
        outerPlaces := s.outerPlaces.map (·.filter s.isNear) } := by
  have hplaces : ∀ places : List (Option KeyPlace),
      (∀ outer ∈ places, ∀ place ∈ outer, place.required = false) →
        places.mapM s.dropFarPlace? = some (places.map (·.filter s.isNear)) := by
    intro places
    induction places with
    | nil => exact fun _ => rfl
    | cons outer places ih =>
      intro hall
      obtain ⟨houter, hplaces⟩ := List.forall_mem_cons.mp hall
      simp [List.mapM_cons, dropFarPlace?_of_free houter, ih hplaces]
  simp [dropFarPlaces, dropFarPlace?_of_free h.keyPlace, hplaces _ h.outerPlaces]

theorem IsFree.moveTo {s : Scanner} {depth : Nat} (h : s.IsFree depth) (cursor : Cursor)
    (keyAllowed : Bool) : (s.moveTo cursor keyAllowed).IsFree depth where
  indents := h.indents
  keyPlace := fun place hplace => h.keyPlace place (Option.filter_eq_some_iff.mp hplace).1
  outerPlaces := by
    intro outer houter place hplace
    obtain ⟨before, hbefore, rfl⟩ := List.mem_map.mp houter
    exact h.outerPlaces before hbefore place (Option.filter_eq_some_iff.mp hplace).1
  length_outerPlaces := (List.length_map _).trans h.length_outerPlaces

/-! ## One step -/

theorem closeBlocks_of_free {s : Scanner} {depth : Nat} (h : s.IsFree depth) (column : Nat) :
    s.closeBlocks column = s := by
  rw [closeBlocks]
  split
  · rfl
  · simp only [h.indents, List.takeWhile_nil, List.foldl_nil, List.drop_nil]
    rw [← h.indents]

theorem closeAllBlocks_of_free {s : Scanner} {depth : Nat} (h : s.IsFree depth) :
    s.closeAllBlocks = s := by
  rw [closeAllBlocks]
  split
  · rfl
  · simp only [h.indents, List.foldl_nil]
    rw [← h.indents]

theorem dropKeyPlace_of_free {s : Scanner} {depth : Nat} (h : s.IsFree depth) :
    s.dropKeyPlace = some { s with keyPlace := none } := by
  rw [dropKeyPlace, if_neg]
  cases hplace : s.keyPlace with
  | none => simp
  | some place => simpa using h.keyPlace place hplace

variable {s : Scanner} {depth steps : Nat} {space : Json.Space} {left : List Char}

/-- Behind white space a step reads a token, if there is one. -/
theorem run_of_skip (hfree : s.IsFree depth) {cursor : Cursor} {keyAllowed : Bool}
    (hskip : s.skipToToken (steps + 1) = { s with cursor, keyAllowed }) :
    run (steps + 1) s =
      match cursor.rest with
      | [] => some s.tokens.reverse
      | c :: rest => ((s.moveTo cursor keyAllowed).token (steps + 1) c rest).bind (run steps) := by
  have hmoved := hfree.moveTo cursor keyAllowed
  have hfree' : ({ s with cursor, keyAllowed } : Scanner).IsFree depth :=
    ⟨hfree.indents, hfree.keyPlace, hfree.outerPlaces, hfree.length_outerPlaces⟩
  have hdrop : ({ s with cursor, keyAllowed } : Scanner).dropFarPlaces =
      some (s.moveTo cursor keyAllowed) := dropFarPlaces_of_free hfree'
  have hcursor : (s.moveTo cursor keyAllowed).cursor = cursor := rfl
  rw [run, hskip, hdrop, Option.bind_eq_bind, Option.bind_some, hcursor]
  cases cursor.rest with
  | nil =>
    simp only [closeAllBlocks_of_free hmoved, dropKeyPlace_of_free hmoved, Option.bind_some]
    rfl
  | cons c rest => simp only [closeBlocks_of_free hmoved]

/-- A step moves behind white space whose tabs fit. -/
theorem run_of_free (hfree : s.IsFree depth) (hrest : s.cursor.rest = space.chars ++ left)
    (hleft : StartsToken left) (hfit : s.TabsFit space.chars)
    (hsteps : s.cursor.rest.length < steps + 1) :
    ∃ cursor keyAllowed, Cursor.Passes space.chars s.cursor cursor ∧ cursor.rest = left ∧
      (s.inFlow = true → keyAllowed = s.keyAllowed) ∧
        run (steps + 1) s =
          match cursor.rest with
          | [] => some s.tokens.reverse
          | c :: rest =>
            ((s.moveTo cursor keyAllowed).token (steps + 1) c rest).bind (run steps) := by
  have hlength : space.chars.length < steps + 1 := by
    rw [hrest, List.length_append] at hsteps
    omega
  obtain ⟨cursor, keyAllowed, hskip, hpasses, -⟩ :=
    exists_skipToToken hrest space.isSpace_of_mem hleft hlength
  obtain ⟨hpass, hallowed⟩ := hpasses hfit
  have hcursor : cursor.rest = left := List.append_cancel_left (hpass.rest.symm.trans hrest)
  exact ⟨cursor, keyAllowed, hpass, hcursor, hallowed, run_of_skip hfree hskip⟩

/-- Outside brackets and braces no token starts with a tab. -/
theorem token_tab (hflow : s.inFlow = false) {rest : List Char}
    (hrest : s.cursor.rest = '\t' :: rest) : s.token steps '\t' rest = none := by
  have hwhite : isWhite '\t' = true := rfl
  simp [token, Cursor.atMarker, startsPlain, hrest, hflow, hwhite]

/-- The scan fails at a tab that stands where a key may start. -/
theorem run_of_tab (hfree : s.IsFree depth) (hrest : s.cursor.rest = space.chars ++ left)
    (hleft : StartsToken left) (hfit : ¬ s.TabsFit space.chars)
    (hsteps : s.cursor.rest.length < steps + 1) : run (steps + 1) s = none := by
  have hlength : space.chars.length < steps + 1 := by
    rw [hrest, List.length_append] at hsteps
    omega
  have hflow : s.inFlow = false :=
    Bool.eq_false_iff.mpr fun hflow => hfit ⟨fun _ => Or.inl hflow, fun _ => hflow⟩
  obtain ⟨cursor, keyAllowed, hskip, -, htab⟩ :=
    exists_skipToToken hrest space.isSpace_of_mem hleft hlength
  obtain ⟨rest, hcursor⟩ := List.head?_eq_some_iff.mp (htab hfit)
  have hflow' : (s.moveTo cursor keyAllowed).inFlow = false := by
    rw [(hfree.moveTo cursor keyAllowed).inFlow, ← hfree.inFlow, hflow]
  rw [run_of_skip hfree hskip, hcursor]
  exact congrArg (Option.bind · (run steps)) (token_tab hflow' hcursor)

end Scanner

end GoldenFixtures.Yaml
