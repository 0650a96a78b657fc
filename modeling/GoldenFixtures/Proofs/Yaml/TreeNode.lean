import GoldenFixtures.Proofs.Yaml.TreeTokens
import GoldenFixtures.Yaml.Node

/-!
# The node of a JSON text

What the tokens of a tree are read as: one node for each scalar, array and object.  A key
without a mark is read as an entry without a value, and then its colon is in the way, so
`document?_tokens` holds under the condition that every key is short.
-/

namespace GoldenFixtures

open Yaml (Token Node foldedText)

namespace Json

/-- The node of a scalar. -/
def Scalar.node : Scalar → Node
  | .string letters => .scalar none false (foldedText letters)
  | scalar => .scalar none true scalar.chars

/-- The node of a key. -/
def Key.node (key : Key) : Node := .scalar none false (foldedText key.letters)

namespace Tree

/-- The node of a tree. -/
def node : Tree → Node :=
  fold Scalar.node (fun _ items => .sequence none (items.map Spaced.content))
    (fun _ members =>
      .mapping none (members.map fun member => (member.key.node, member.part.content)))

/-- Every key of a tree is short. -/
def KeysShort : Tree → Prop := All (fun _ => True) fun keys => ∀ key ∈ keys, key.isShort = true

@[simp] theorem node_scalar (s : Scalar) : node (.scalar s) = s.node := by
  rw [node, fold_scalar]

@[simp] theorem node_array (space : Space) (items : List (Spaced Tree)) :
    node (.array space items) = .sequence none (items.map fun item => item.content.node) := by
  rw [node, fold_array, List.map_map]
  rfl

@[simp] theorem node_object (space : Space) (members : List (Member Tree)) :
    node (.object space members) =
      .mapping none (members.map fun member => (member.key.node, member.part.content.node)) := by
  rw [node, fold_object, List.map_map]
  rfl

theorem keysShort_array {space : Space} {items : List (Spaced Tree)} :
    (array space items).KeysShort ↔ ∀ item ∈ items, item.content.KeysShort :=
  all_array

theorem keysShort_object {space : Space} {members : List (Member Tree)} :
    (object space members).KeysShort ↔
      ∀ member ∈ members, member.key.isShort = true ∧ member.part.content.KeysShort := by
  rw [KeysShort, all_object, List.forall_mem_map]
  exact forall₂_and.symm

end Tree

end Json

namespace Yaml.Reader

open Json (Space Key Scalar Tree Spaced Member)

variable {r : Reader} {rest : List Token}

/-! ## Single tokens -/

theorem run_dropIf (token : Token) (r : Reader) :
    (dropIf token).run r =
      if r.tokens.head? = some token then some (true, { r with tokens := r.tokens.tail })
      else some (false, r) := by
  by_cases h : r.tokens.head? = some token <;> simp [dropIf, peek, drop, h]

theorem run_nodeUnless (node : Read Node) (ends : Option Token → Bool) (r : Reader)
    (h : ends r.tokens.head? = false) : (nodeUnless node ends).run r = node.run r := by
  simp [nodeUnless, peek, h]

theorem run_node_scalar (depth : Nat) (setting : Setting) {plain : Bool} {text : List Char}
    (h : r.tokens = .scalar plain text :: rest) :
    (node depth setting).run r = some (.scalar none plain text, { r with tokens := rest }) := by
  rw [node.eq_def]
  simp [peek, properties, anchor, tag, stepBound, anchored, drop, h]

theorem run_node_sequence {depth : Nat} {setting : Setting}
    (h : r.tokens = .flowSequenceStart :: rest) :
    (node (depth + 1) setting).run r =
      ((flowParts (flowItem (node depth .flow)) .flowSequenceEnd r.steps).run
        { r with tokens := rest }).map fun read => (.sequence none read.1, read.2) := by
  rw [node]
  simp [peek, properties, anchor, tag, stepBound, anchored, drop, h, Option.map_eq_bind]

theorem run_node_mapping {depth : Nat} {setting : Setting}
    (h : r.tokens = .flowMappingStart :: rest) :
    (node (depth + 1) setting).run r =
      ((flowParts (flowPair (node depth .flow)) .flowMappingEnd r.steps).run
        { r with tokens := rest }).map fun read => (.mapping none read.1, read.2) := by
  rw [node]
  simp [peek, properties, anchor, tag, stepBound, anchored, drop, h, Option.map_eq_bind]

/-! ## Parts -/

/-- A part is read as its value under a condition.  Otherwise nothing is read, or something
else that a colon follows. -/
def Parses {β : Type} (read : Option (β × Reader)) (p : Prop) (result : β × Reader) : Prop :=
  (p → read = some result) ∧
    (¬ p → ∀ wrong, read = some wrong → wrong.2.tokens.head? = some .value)

theorem parses_of_gives {β : Type} {read : Option (β × Reader)} {p : Prop} {result : β × Reader}
    (h : Gives read p result) : Parses read p result :=
  ⟨h.eq_some, fun hp wrong hwrong => by rw [h.eq_none hp] at hwrong; cases hwrong⟩

section

variable {α β : Type} {part : Read β} {close : Token} {toks : α → List Token} {value : α → β}
  {P : α → Prop}

theorem run_flowParts_succ {steps : Nat} (hne : close ≠ .flowEntry)
    (hopen : r.tokens.head? ≠ some close) :
    (flowParts part close (steps + 1)).run r =
      (part.run r).bind fun read =>
        if read.2.tokens.head? = some .flowEntry then
          ((flowParts part close steps).run { read.2 with tokens := read.2.tokens.tail }).map
            fun others => (read.1 :: others.1, others.2)
        else if read.2.tokens.head? = some close then
          some ([read.1], { read.2 with tokens := read.2.tokens.tail })
        else none := by
  cases hread : part.run r with
  | none => simp [flowParts, run_dropIf, hopen, hread]
  | some read =>
    by_cases hentry : read.2.tokens.head? = some .flowEntry <;>
      by_cases hclose : read.2.tokens.head? = some close <;>
        simp [flowParts, run_dropIf, hopen, hread, hentry, hclose, hne, Option.map_eq_bind]

/-- Where a colon follows what was read, the parts do not go on. -/
theorem bind_wrong {read : Option (β × Reader)} {more : β × Reader → Option (List β × Reader)}
    (hclose : close ≠ .value)
    (hwrong : ∀ wrong, read = some wrong → wrong.2.tokens.head? = some .value) :
    (read.bind fun read =>
      if read.2.tokens.head? = some .flowEntry then more read
      else if read.2.tokens.head? = some close then
        some ([read.1], { read.2 with tokens := read.2.tokens.tail })
      else none) = none := by
  cases read with
  | none => rfl
  | some wrong => simp [hwrong wrong rfl, hclose.symm]

/-- Parts with commas between them are read one after the other. -/
theorem gives_flowParts (hcloseEntry : close ≠ .flowEntry) (hcloseValue : close ≠ .value)
    {parts : List α} (hstart : ∀ a ∈ parts, ∀ more, (toks a ++ more).head? ≠ some close)
    (hpart : ∀ a ∈ parts, ∀ (r : Reader) (more : List Token), r.tokens = toks a ++ more →
      r.tokens.length < r.steps → (more.head? = some .flowEntry ∨ more.head? = some close) →
        Parses (part.run r) (P a) (value a, { r with tokens := more }))
    (htokens : r.tokens = Json.commas (parts.map toks) ++ close :: rest)
    (hlength : r.tokens.length < r.steps) {steps : Nat} (hsteps : parts.length < steps) :
    Gives ((flowParts part close steps).run r) (∀ a ∈ parts, P a)
      (parts.map value, { r with tokens := rest }) := by
  induction parts generalizing r steps with
  | nil =>
    obtain ⟨steps, rfl⟩ := Nat.exists_eq_succ_of_ne_zero (Nat.ne_zero_of_lt hsteps)
    have hnil : Json.commas (([] : List α).map toks) = [] := rfl
    rw [hnil, List.nil_append] at htokens
    exact .of_eq_some (by simp [flowParts, run_dropIf, htokens]) (by simp)
  | cons a parts ih =>
    obtain ⟨steps, rfl⟩ := Nat.exists_eq_succ_of_ne_zero (Nat.ne_zero_of_lt hsteps)
    obtain ⟨hhead, hheads⟩ := List.forall_mem_cons.mp hstart
    obtain ⟨hfirst, hothers⟩ := List.forall_mem_cons.mp hpart
    cases parts with
    | nil =>
      rw [List.map_singleton, Json.commas_singleton] at htokens
      obtain ⟨hright, hwrong⟩ := hfirst r (close :: rest) htokens hlength (Or.inr rfl)
      rw [run_flowParts_succ hcloseEntry (htokens ▸ hhead (close :: rest))]
      by_cases ha : P a
      · exact .of_eq_some (by simp [hright ha, hcloseEntry]) (by simpa using ha)
      · refine .of_eq_none (bind_wrong hcloseValue (hwrong ha)) (by simpa using ha) _
    | cons b parts =>
      rw [List.map_cons, List.map_cons, Json.commas_cons_cons, ← List.map_cons,
        List.append_assoc, List.cons_append] at htokens
      obtain ⟨hright, hwrong⟩ := hfirst r _ htokens hlength (Or.inl rfl)
      rw [run_flowParts_succ hcloseEntry (htokens ▸ hhead _)]
      by_cases ha : P a
      · have hshort : (Json.commas ((b :: parts).map toks) ++ close :: rest).length < r.steps := by
          rw [htokens, List.length_append, List.length_cons] at hlength
          omega
        have hmore := ih hheads hothers (r := { r with
          tokens := Json.commas ((b :: parts).map toks) ++ close :: rest }) rfl hshort
          (Nat.lt_of_succ_lt_succ hsteps)
        rw [hright ha]
        refine (hmore.map fun others => (value a :: others.1, others.2)).of_iff ?_
        simp [ha]
      · refine .of_eq_none (bind_wrong hcloseValue (hwrong ha)) ?_ _
        exact fun hall => ha (hall a List.mem_cons_self)

end

/-! ## Trees -/

/-- A node starts with the token. -/
def startsNode : Token → Bool
  | .scalar _ _ | .flowSequenceStart | .flowMappingStart => true
  | _ => false

theorem exists_tokens_cons (tree : Tree) :
    ∃ t more, tree.tokens = t :: more ∧ startsNode t = true := by
  cases tree with
  | scalar scalar => exact ⟨scalar.token, [], Tree.tokens_scalar scalar, by cases scalar <;> rfl⟩
  | array space items => exact ⟨_, _, Tree.tokens_array space items, rfl⟩
  | object space members => exact ⟨_, _, Tree.tokens_object space members, rfl⟩

/-- What a tree starts with is none of the tokens between trees. -/
theorem head?_tokens_ne (tree : Tree) (more : List Token) (token : Token)
    (h : startsNode token = false) : (tree.tokens ++ more).head? ≠ some token := by
  obtain ⟨t, others, htokens, ht⟩ := exists_tokens_cons tree
  rw [htokens, List.cons_append, List.head?_cons, ne_eq, Option.some_inj]
  rintro rfl
  rw [ht] at h
  cases h

theorem length_le_commas {α : Type} (parts : List α) (toks : α → List Token) :
    parts.length ≤ (Json.commas (parts.map toks)).length + 1 := by
  induction parts with
  | nil => exact Nat.zero_le _
  | cons a parts ih =>
    cases parts with
    | nil => simp
    | cons b parts =>
      rw [List.map_cons, List.map_cons, Json.commas_cons_cons, ← List.map_cons]
      simp only [List.length_append, List.length_cons] at ih ⊢
      omega

/-- The node of a tree is read off the front of the tokens, if every key is short. -/
def ReadsTree (depth : Nat) (tree : Tree) : Prop :=
  ∀ (setting : Setting) (r : Reader) (rest : List Token), r.tokens = tree.tokens ++ rest →
    r.tokens.length < r.steps →
      Gives ((node depth setting).run r) tree.KeysShort (tree.node, { r with tokens := rest })

/-- An element of an array is read as a node. -/
theorem parses_item {depth : Nat} {tree : Tree} (htree : ReadsTree depth tree)
    (htokens : r.tokens = tree.tokens ++ rest) (hlength : r.tokens.length < r.steps) :
    Parses ((flowItem (node depth .flow)).run r) tree.KeysShort
      (tree.node, { r with tokens := rest }) := by
  have hkey : r.tokens.head? ≠ some .key := htokens ▸ head?_tokens_ne tree rest .key rfl
  have hrun : (flowItem (node depth .flow)).run r = (node depth .flow).run r := by
    simp [flowItem, run_dropIf, hkey]
  rw [hrun]
  exact parses_of_gives (htree .flow r rest htokens hlength)

/-- The value of a member is read behind the colon. -/
theorem run_flowValue {depth : Nat} {tree : Tree}
    (hr : r.tokens = .value :: (tree.tokens ++ rest)) :
    (flowValue (node depth .flow) .flowMappingEnd).run r =
      (node depth .flow).run { r with tokens := tree.tokens ++ rest } := by
  have hentry := head?_tokens_ne tree rest .flowEntry rfl
  have hclose := head?_tokens_ne tree rest .flowMappingEnd rfl
  have hends : ((tree.tokens ++ rest).head? == some .flowEntry ||
      (tree.tokens ++ rest).head? == some .flowMappingEnd) = false := by
    simp only [Bool.or_eq_false_iff, beq_eq_false_iff_ne]
    exact ⟨hentry, hclose⟩
  have hnode := run_nodeUnless (node depth .flow)
    (fun t => t == some .flowEntry || t == some .flowMappingEnd)
    { r with tokens := tree.tokens ++ rest } hends
  simp [flowValue, run_dropIf, hr, hnode]

/-- A marked key is read as a key, and its value behind the colon. -/
theorem run_flowPair_of_short {depth : Nat} {key : Key} {tree : Tree} (hshort : key.isShort = true)
    (htokens : r.tokens = key.tokens ++ (tree.tokens ++ rest)) :
    (flowPair (node depth .flow)).run r =
      ((node depth .flow).run { r with tokens := tree.tokens ++ rest }).map fun read =>
        ((key.node, read.1), read.2) := by
  have htokens' : r.tokens =
      .key :: .scalar false (foldedText key.letters) :: .value :: (tree.tokens ++ rest) := by
    rw [htokens, Key.tokens, if_pos hshort]
    rfl
  have hkey := run_nodeUnless (node depth .flow)
    (fun t => t == some .value || t == some .flowEntry || t == some .flowMappingEnd)
    { r with tokens := .scalar false (foldedText key.letters) :: .value :: (tree.tokens ++ rest) }
    rfl
  have hnode := run_node_scalar depth .flow (r := { r with
    tokens := .scalar false (foldedText key.letters) :: .value :: (tree.tokens ++ rest) }) rfl
  have hvalue : (flowValue (node depth .flow) .flowMappingEnd).run
      { r with tokens := .value :: (tree.tokens ++ rest) } =
        (node depth .flow).run { r with tokens := tree.tokens ++ rest } := run_flowValue rfl
  simp [flowPair, run_dropIf, htokens', hkey, hnode, hvalue, Option.map_eq_bind,
    Key.node]

/-- A member of an object is read as an entry, if its key is short. -/
theorem parses_pair {depth : Nat} {key : Key} {tree : Tree} (htree : ReadsTree depth tree)
    (htokens : r.tokens = key.tokens ++ (tree.tokens ++ rest))
    (hlength : r.tokens.length < r.steps) :
    Parses ((flowPair (node depth .flow)).run r) (key.isShort = true ∧ tree.KeysShort)
      ((key.node, tree.node), { r with tokens := rest }) := by
  have hless : (tree.tokens ++ rest).length < r.steps := by
    rw [htokens, List.length_append] at hlength
    omega
  cases hshort : key.isShort with
  | true =>
    have hvalue := htree .flow { r with tokens := tree.tokens ++ rest } rest rfl hless
    rw [run_flowPair_of_short hshort htokens]
    exact parses_of_gives ((hvalue.map fun read => ((key.node, read.1), read.2)).of_iff (by simp))
  | false =>
    have htokens' : r.tokens =
        .scalar false (foldedText key.letters) :: .value :: (tree.tokens ++ rest) := by
      rw [htokens, Key.tokens, hshort]
      rfl
    have hnode := run_node_scalar depth .flow htokens'
    refine ⟨fun h => (Bool.false_ne_true h.1).elim, fun _ wrong hwrong => ?_⟩
    simp [flowPair, run_dropIf, htokens', hnode] at hwrong
    rw [← hwrong]
    rfl

theorem gives_items {depth : Nat} {items : List (Spaced Tree)}
    (hitems : ∀ item ∈ items, ReadsTree depth item.content)
    (htokens : r.tokens = Json.commas (items.map fun item => item.content.tokens) ++
      .flowSequenceEnd :: rest)
    (hlength : r.tokens.length < r.steps) :
    Gives ((flowParts (flowItem (node depth .flow)) .flowSequenceEnd r.steps).run r)
      (∀ item ∈ items, item.content.KeysShort)
      (items.map fun item => item.content.node, { r with tokens := rest }) := by
  have hcount := length_le_commas items fun item => item.content.tokens
  have hsteps : items.length < r.steps := by
    rw [htokens, List.length_append, List.length_cons] at hlength
    omega
  exact gives_flowParts (by decide) (by decide)
    (fun item _ more => head?_tokens_ne item.content more _ rfl)
    (fun item hitem t more ht hless _ => parses_item (hitems item hitem) ht hless)
    htokens hlength hsteps

theorem gives_members {depth : Nat} {members : List (Member Tree)}
    (hmembers : ∀ member ∈ members, ReadsTree depth member.part.content)
    (htokens : r.tokens = Json.commas (members.map fun member =>
      member.key.tokens ++ member.part.content.tokens) ++ .flowMappingEnd :: rest)
    (hlength : r.tokens.length < r.steps) :
    Gives ((flowParts (flowPair (node depth .flow)) .flowMappingEnd r.steps).run r)
      (∀ member ∈ members, member.key.isShort = true ∧ member.part.content.KeysShort)
      (members.map fun member => (member.key.node, member.part.content.node),
        { r with tokens := rest }) := by
  have hcount := length_le_commas members fun member =>
    member.key.tokens ++ member.part.content.tokens
  have hsteps : members.length < r.steps := by
    rw [htokens, List.length_append, List.length_cons] at hlength
    omega
  refine gives_flowParts (by decide) (by decide) (fun member _ more => ?_)
    (fun member hmember t more ht hless _ =>
      parses_pair (hmembers member hmember) (by rw [ht, List.append_assoc]) hless)
    htokens hlength hsteps
  unfold Key.tokens
  cases member.key.isShort <;> simp

/-- The tokens of a tree are read as its node, if every key is short.  Both readers count the
brackets and braces that are open, so the depth falls with the nesting. -/
theorem readsTree (tree : Tree) {n depth : Nat} (hnests : tree.NestsIn n) (hdepth : n ≤ depth) :
    ReadsTree depth tree := by
  induction tree using Tree.inductionOn generalizing n depth with
  | scalar scalar =>
    intro setting r rest htokens _
    have hnode : ∃ plain text, scalar.token = .scalar plain text ∧
        scalar.node = .scalar none plain text := by
      cases scalar <;> exact ⟨_, _, rfl, rfl⟩
    obtain ⟨plain, text, htoken, hnode⟩ := hnode
    rw [Tree.tokens_scalar, htoken] at htokens
    rw [Tree.node_scalar, hnode]
    exact .of_eq_some (run_node_scalar depth setting htokens) (Tree.all_scalar.mpr trivial)
  | array space items ih =>
    intro setting r rest htokens hlength
    obtain ⟨n, rfl, hitems⟩ := Tree.nestsIn_array.mp hnests
    obtain ⟨depth, rfl⟩ := Nat.exists_eq_succ_of_ne_zero (Nat.ne_zero_of_lt hdepth)
    rw [Tree.tokens_array, List.cons_append, List.append_assoc] at htokens
    rw [htokens, List.length_cons] at hlength
    rw [run_node_sequence htokens, Tree.node_array, Tree.keysShort_array]
    have hread := gives_items (r := { r with tokens := _ }) (fun item hitem =>
      ih item hitem (hitems item hitem) (Nat.le_of_succ_le_succ hdepth)) rfl
        (Nat.lt_of_succ_lt hlength)
    exact hread.map fun read => (Node.sequence none read.1, read.2)
  | object space members ih =>
    intro setting r rest htokens hlength
    obtain ⟨n, rfl, hmembers⟩ := Tree.nestsIn_object.mp hnests
    obtain ⟨depth, rfl⟩ := Nat.exists_eq_succ_of_ne_zero (Nat.ne_zero_of_lt hdepth)
    rw [Tree.tokens_object, List.cons_append, List.append_assoc] at htokens
    rw [htokens, List.length_cons] at hlength
    rw [run_node_mapping htokens, Tree.node_object, Tree.keysShort_object]
    have hread := gives_members (r := { r with tokens := _ }) (fun member hmember =>
      ih member hmember (hmembers member hmember) (Nat.le_of_succ_le_succ hdepth)) rfl
        (Nat.lt_of_succ_lt hlength)
    exact hread.map fun read => (Node.mapping none read.1, read.2)

/-! ## Documents -/

/-- A node without a marker in front of it is the only document, if nothing follows it. -/
theorem run_document {depth : Nat} {t : Token} {more : List Token} (ht : startsNode t = true)
    (htokens : r.tokens = t :: more) {p : Prop} {root : Node}
    (hroot : Gives ((node depth .block).run r) p (root, { r with tokens := [] })) :
    Gives ((document depth).run r) p (root, { r with tokens := [] }) := by
  have hexplicit : startsExplicitly t = false := by
    cases t <;> first | rfl | cases ht
  have hends : (dropEnds r.steps).run { r with tokens := [] } =
      some ((), { r with tokens := [] }) := by
    cases r.steps with
    | zero => rfl
    | succ steps => simp [dropEnds, run_dropIf]
  by_cases hp : p
  · refine .of_eq_some ?_ hp
    simp [document, peek, htokens, hexplicit, hroot.eq_some hp, stepBound, hends]
  · refine .of_eq_none ?_ hp _
    simp [document, peek, htokens, hexplicit, hroot.eq_none hp]

end Yaml.Reader

/-- The tokens of a tree are one document without anchors, if every key is short. -/
theorem Yaml.document?_tokens {tree : Json.Tree} {n depth : Nat} (hnests : tree.NestsIn n)
    (hdepth : n ≤ depth) :
    Yaml.Gives (Yaml.document? depth tree.tokens) tree.KeysShort (tree.node, {}) := by
  obtain ⟨t, more, htokens, ht⟩ := Yaml.Reader.exists_tokens_cons tree
  let start : Yaml.Reader :=
    { tokens := tree.tokens
      steps := tree.tokens.length + 1
      handles := Yaml.Reader.standardHandles }
  have hroot := Yaml.Reader.readsTree tree hnests hdepth .block start [] (List.append_nil _).symm
    (Nat.lt_succ_self _)
  have hread := Yaml.Reader.run_document ht htokens hroot
  have hdocument : Yaml.document? depth tree.tokens =
      ((Yaml.Reader.document depth).run start).map fun read => (read.1, read.2.anchors) := by
    simp [Yaml.document?, start, Option.map_eq_bind]
  rw [hdocument]
  exact hread.map fun read => (read.1, read.2.anchors)

end GoldenFixtures
