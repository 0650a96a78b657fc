import GoldenFixtures.Proofs.Yaml.TreeNode
import GoldenFixtures.Yaml.Document

/-!
# The value of a JSON text

What YAML makes of a whole document: `read?_document` gives the value, and the condition
under which there is one.  No alias is followed, and the keys of a mapping are the strings
that the keys of the object mean in YAML.
-/

namespace GoldenFixtures

open Yaml (Node foldedText)

namespace Json

/-- The string that a key means in YAML. -/
def Key.folded (key : Key) : String := String.ofList (foldedText key.letters)

/-- The value of a scalar in YAML; null stands for none. -/
def Scalar.yaml : Scalar → Yaml.Value
  | .null => .null
  | .bool flag => .bool flag
  | .number n style => (Yaml.plain? (n.spell style)).getD .null
  | .string letters => .string (String.ofList (foldedText letters))

/-- The scalar has a value in YAML, if it is a number. -/
def Scalar.HasYaml : Scalar → Prop
  | .number n style => (Yaml.plain? (n.spell style)).isSome = true
  | _ => True

namespace Tree

/-- The value of a tree in YAML. -/
def yaml : Tree → Yaml.Value :=
  fold Scalar.yaml (fun _ items => .sequence (items.map Spaced.content))
    (fun _ members =>
      .mapping (members.map fun member => (.string member.key.folded, member.part.content)))

/-- Every number of a tree has a value in YAML, and no key repeats there. -/
def HasYaml : Tree → Prop := All Scalar.HasYaml fun keys => (keys.map Key.folded).Nodup

@[simp] theorem yaml_scalar (s : Scalar) : yaml (.scalar s) = s.yaml := by
  rw [yaml, fold_scalar]

@[simp] theorem yaml_array (space : Space) (items : List (Spaced Tree)) :
    yaml (.array space items) = .sequence (items.map fun item => item.content.yaml) := by
  rw [yaml, fold_array, List.map_map]
  rfl

@[simp] theorem yaml_object (space : Space) (members : List (Member Tree)) :
    yaml (.object space members) =
      .mapping (members.map fun member =>
        (.string member.key.folded, member.part.content.yaml)) := by
  rw [yaml, fold_object, List.map_map]
  rfl

end Tree

end Json

namespace Yaml.Compose

open Json (Key Scalar Tree Spaced Member)

variable {anchors : Anchors} {depth count : Nat}

theorem run_value_scalar {plain : Bool} {text : List Char} :
    (value anchors depth (.scalar none plain text)).run count =
      (untaggedScalar? plain text).map fun found => (found, count) := by
  rw [value.eq_def]
  simp [target, scalar?, Option.map_eq_bind]

theorem run_value_sequence {items : List Node} :
    (value anchors (depth + 1) (.sequence none items)).run count =
      ((items.mapM (value anchors depth)).run count).map fun read =>
        (.sequence read.1, read.2) := by
  rw [value.eq_def]
  simp [target, withTag, Option.map_eq_bind]

theorem run_value_mapping {content : List (Node × Node)} :
    (value anchors (depth + 1) (.mapping none content)).run count =
      ((entries (value anchors depth) content []).run count).map fun read =>
        (.mapping read.1, read.2) := by
  rw [value.eq_def]
  simp [target, withTag, Option.map_eq_bind]

/-- The value of a scalar is that of its node. -/
theorem gives_scalar (scalar : Scalar) :
    Gives ((value anchors depth scalar.node).run count) scalar.HasYaml (scalar.yaml, count) := by
  cases scalar with
  | null => exact .of_eq_some (run_value_scalar.trans rfl) trivial
  | bool flag => cases flag <;> exact .of_eq_some (run_value_scalar.trans rfl) trivial
  | string letters => exact .of_eq_some (run_value_scalar.trans rfl) trivial
  | number n style =>
    have hrun : (value anchors depth (Scalar.number n style).node).run count =
        (plain? (n.spell style)).map fun found => (found, count) := run_value_scalar
    rw [hrun]
    exact (Gives.getD (plain? (n.spell style)) .null).map fun found => (found, count)

/-- Values are composed one after the other. -/
theorem gives_mapM {α : Type} {f : Node → Compose Value} {parts : List α} {node : α → Node}
    {val : α → Value} {P : α → Prop}
    (h : ∀ a ∈ parts, Gives ((f (node a)).run count) (P a) (val a, count)) :
    Gives (((parts.map node).mapM f).run count) (∀ a ∈ parts, P a) (parts.map val, count) := by
  induction parts with
  | nil => exact .of_eq_some rfl (by simp)
  | cons a parts ih =>
    obtain ⟨ha, hparts⟩ := List.forall_mem_cons.mp h
    have hrun : (((a :: parts).map node).mapM f).run count =
        ((f (node a)).run count).bind fun first =>
          (((parts.map node).mapM f).run first.2).map fun others =>
            (first.1 :: others.1, others.2) := by
      simp [Option.map_eq_bind]
    rw [hrun]
    refine (ha.bind fun _ => ?_).of_iff List.forall_mem_cons.symm
    exact (ih hparts).map fun others => (val a :: others.1, others.2)

/-- A string is one of some keys exactly if it is one of their texts. -/
theorem any_same_string {before : List (Value × Value)} {names : List String}
    (hbefore : before.map Prod.fst = names.map Value.string) (text : String) :
    (before.any fun entry => (Value.string text).same entry.1) = decide (text ∈ names) := by
  have hany : (before.any fun entry => (Value.string text).same entry.1) =
      (before.map Prod.fst).any (Value.string text).same := by
    rw [List.any_map]
    rfl
  rw [hany, hbefore, Bool.eq_iff_iff, List.any_eq_true, decide_eq_true_eq]
  simp [Value.same]

/-- An entry is composed behind others, unless its key is one of theirs. -/
theorem run_entries_cons {f : Node → Compose Value} {key content : Node} {text : String}
    (hkey : (f key).run count = some (.string text, count)) {before : List (Value × Value)}
    {names : List String} (hbefore : before.map Prod.fst = names.map Value.string)
    (rest : List (Node × Node)) :
    (entries f ((key, content) :: rest) before).run count =
      if text ∈ names then none
      else ((f content).run count).bind fun read =>
        (entries f rest ((.string text, read.1) :: before)).run read.2 := by
  have hany := any_same_string hbefore text
  split_ifs with hname <;> simp [entries, hkey, hany, hname]

/-- Entries are composed one after the other, while no key comes again. -/
theorem gives_entries {f : Node → Compose Value} {members : List (Member Tree)}
    {P : Member Tree → Prop}
    (hkey : ∀ key : Key, (f key.node).run count = some (.string key.folded, count))
    (h : ∀ member ∈ members, Gives ((f member.part.content.node).run count) (P member)
      (member.part.content.yaml, count))
    {before : List (Value × Value)} {names : List String}
    (hbefore : before.map Prod.fst = names.map Value.string) :
    Gives ((entries f (members.map fun member => (member.key.node, member.part.content.node))
        before).run count)
      ((∀ member ∈ members, member.key.folded ∉ names) ∧
        (members.map fun member => member.key.folded).Nodup ∧ ∀ member ∈ members, P member)
      (before.reverse ++ members.map fun member =>
        (.string member.key.folded, member.part.content.yaml), count) := by
  induction members generalizing before names with
  | nil => exact .of_eq_some (by simp [entries]) (by simp)
  | cons member members ih =>
    obtain ⟨hmember, hmembers⟩ := List.forall_mem_cons.mp h
    rw [List.map_cons, run_entries_cons (hkey member.key) hbefore]
    by_cases hname : member.key.folded ∈ names
    · rw [if_pos hname]
      exact .of_eq_none rfl (fun hall => hall.1 member List.mem_cons_self hname) _
    · have hbefore' : ((Value.string member.key.folded, member.part.content.yaml) :: before).map
          Prod.fst = (member.key.folded :: names).map Value.string := by
        rw [List.map_cons, List.map_cons, hbefore]
      rw [if_neg hname]
      refine ((hmember.bind fun _ => ih hmembers hbefore').of_iff ?_).of_eq ?_
      · simp only [List.mem_cons, not_or, forall_eq_or_imp, List.map_cons, List.nodup_cons,
          List.mem_map, not_exists, not_and, forall_and]
        tauto
      · simp

/-- The value of a tree's node. -/
theorem gives_value (tree : Tree) {n : Nat} (hnests : tree.NestsIn n) (hdepth : n ≤ depth) :
    Gives ((value anchors depth tree.node).run count) tree.HasYaml (tree.yaml, count) := by
  induction tree using Tree.inductionOn generalizing n depth with
  | scalar scalar =>
    rw [Tree.node_scalar, Tree.yaml_scalar]
    exact (gives_scalar scalar).of_iff Tree.all_scalar.symm
  | array space items ih =>
    obtain ⟨n, rfl, hitems⟩ := Tree.nestsIn_array.mp hnests
    obtain ⟨depth, rfl⟩ := Nat.exists_eq_succ_of_ne_zero (Nat.ne_zero_of_lt hdepth)
    rw [Tree.node_array, Tree.yaml_array, run_value_sequence]
    refine ((gives_mapM fun item hitem => ?_).map _).of_iff Tree.all_array.symm
    exact ih item hitem (hitems item hitem) (Nat.le_of_succ_le_succ hdepth)
  | object space members ih =>
    obtain ⟨n, rfl, hmembers⟩ := Tree.nestsIn_object.mp hnests
    obtain ⟨depth, rfl⟩ := Nat.exists_eq_succ_of_ne_zero (Nat.ne_zero_of_lt hdepth)
    rw [Tree.node_object, Tree.yaml_object, run_value_mapping]
    have hnone : ([] : List (Value × Value)).map Prod.fst = [].map Value.string := rfl
    have hentries := gives_entries (f := value anchors depth) (P := fun member =>
      member.part.content.HasYaml) (fun key => run_value_scalar.trans rfl) (fun member hmember =>
        ih member hmember (hmembers member hmember) (Nat.le_of_succ_le_succ hdepth)) hnone
    refine (hentries.map _).of_iff ?_
    rw [Tree.HasYaml, Tree.all_object, List.map_map]
    simp [Function.comp_def]

end Yaml.Compose

namespace Json

/-- The document has a value in YAML. -/
structure Document.HasYaml (document : Document) : Prop where
  allowed : ∀ c ∈ document.chars, Yaml.isAllowed c = true
  tabs : document.TabsFit
  scanned : document.content.IsScanned
  short : document.content.KeysShort
  values : document.content.HasYaml

end Json

/-- The value of a document in YAML, of which there is none if a condition fails. -/
theorem Yaml.read?_document {document : Json.Document} {n : Nat}
    (hnests : document.content.NestsIn n) (hdepth : n ≤ Yaml.maxDepth) :
    Yaml.Gives (Yaml.Value.read? document.chars) document.HasYaml document.content.yaml := by
  have hread : Yaml.Value.read? document.chars =
      (Yaml.tokens? document.chars).bind fun tokens =>
        (Yaml.document? Yaml.maxDepth tokens).bind fun read =>
          ((Yaml.Compose.value read.2 Yaml.maxDepth read.1).run
            (Yaml.aliasesPerNode * read.1.size)).map Prod.fst := rfl
  rw [hread]
  refine ((Yaml.tokens?_document hnests hdepth).bind fun _ =>
    (Yaml.document?_tokens hnests hdepth).bind fun _ =>
      (Yaml.Compose.gives_value document.content hnests hdepth).map Prod.fst).of_iff ?_
  exact ⟨fun h => ⟨h.1.1, h.1.2.1, h.1.2.2, h.2.1, h.2.2⟩,
    fun h => ⟨⟨h.allowed, h.tabs, h.scanned⟩, h.short, h.values⟩⟩

end GoldenFixtures
