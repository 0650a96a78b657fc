import GoldenFixtures.Proofs.FileTree.Overwrite
import GoldenFixtures.Proofs.Sbom.Discover
import GoldenFixtures.Proofs.Sbom.Merge
import GoldenFixtures.Proofs.Text.Lines

/-!
# The merged document among its inputs

If the merged document is stored where documents are searched for, the next merge
finds it: at a new path, at that of an input, at several paths over links.  It
writes the same text again (`render_mergeTree_of_write`).

There are three parts to it.

* Writing a file changes none of the documents that are found but those at its own
  place, and the documents of before are found in the same order
  (`discover_eq_filter`, `componentsAt_set_file`).
* The document is read back as it was written (`read_render_mergeTree`).
* Its components are those that count, and these may be shown again in the place of
  any of the inputs (`firstShown_flatMap_of_shown`).
-/

namespace GoldenFixtures.Sbom

open Json (Value Members)

section

variable {tree : FileTree} {root path : Path} {location place : Location}
  {names front : List String} {name : String} {bytes contents : List UInt8}

/-! ## What is found -/

theorem isLink_set_file (hplace : tree.IsFilePlace location) :
    isLink (tree.set location (.file bytes)) place = isLink tree place := by
  unfold isLink
  by_cases hsame : place = location
  · rw [hsame, FileTree.entryAt_set_self hplace.ne_nil]
    cases hentry : tree.entry? location with
    | none => rfl
    | some entry =>
      cases entry with
      | file others => rfl
      | directory => rfl
      | link target => exact absurd hentry (hplace.notLink target)
  · rw [FileTree.entryAt_set_of_ne hsame]

theorem leadsBack_set_file_iff (hplace : tree.IsFilePlace location) (bytes : List UInt8) :
    LeadsBack (tree.set location (.file bytes)) root front name ↔
      LeadsBack tree root front name := by
  unfold LeadsBack
  simp only [FileTree.locate_set_directory_iff hplace, isLink_set_file hplace]

theorem isDirectory_set_file (hplace : tree.IsFilePlace location) (bytes : List UInt8) :
    (tree.set location (.file bytes)).isDirectory path = tree.isDirectory path := by
  rw [Bool.eq_iff_iff, FileTree.isDirectory_eq_true_iff, FileTree.isDirectory_eq_true_iff]
  simp only [FileTree.locate_set_directory_iff hplace]

theorem isFile_set_file_of_isFile (hplace : tree.IsFilePlace location)
    (h : tree.isFile path = true) : (tree.set location (.file bytes)).isFile path = true := by
  obtain ⟨there, contents, hlocate⟩ := FileTree.isFile_eq_true_iff.mp h
  obtain ⟨entry, hentry, hafter⟩ :=
    FileTree.locate_of_extends (hplace.extends bytes) (FileTree.file_ne_link contents) hlocate
  have hfile := FileTree.entryAt_of_locate hlocate
  obtain ⟨others, hothers⟩ := (hplace.extends bytes).file there contents hfile
  rw [Option.some.inj (hentry.symm.trans hothers)] at hafter
  exact FileTree.isFile_eq_true_iff.mpr ⟨there, others, hafter⟩

theorem isFileEntry_set_file (hplace : tree.IsFilePlace location)
    (h : tree.IsFileEntry path place name) :
    (tree.set location (.file bytes)).IsFileEntry path place name := by
  cases h with
  | file hentry =>
    obtain ⟨others, hothers⟩ := (hplace.extends bytes).file _ _ hentry
    exact .file hothers
  | link hentry hlocate =>
    have hother : place ++ [name] ≠ location := by
      rintro rfl
      exact hplace.notLink _ hentry
    have hfile : (tree.set location (.file bytes)).isFile (Path.join path name) = true :=
      isFile_set_file_of_isFile hplace (FileTree.isFile_eq_true_iff.mpr ⟨_, _, hlocate⟩)
    obtain ⟨_, _, hafter⟩ := FileTree.isFile_eq_true_iff.mp hfile
    rw [← FileTree.entryAt_set_of_ne hother (.file bytes)] at hentry
    exact .link hentry hafter

theorem isFileBelow_set_file (hplace : tree.IsFilePlace location)
    (h : IsFileBelow tree root names) :
    IsFileBelow (tree.set location (.file bytes)) root names := by
  cases h with
  | root hroot => exact .root (isFile_set_file_of_isFile hplace hroot)
  | entry hhere hentry =>
    exact .entry ((FileTree.locate_set_directory_iff hplace).mpr hhere)
      (isFileEntry_set_file hplace hentry)

/-- Paths of documents are told apart by files alone after one was written. -/
theorem isDocumentBelow_set_file_iff (hplace : tree.IsFilePlace location)
    (hfile : IsFileBelow tree root names) :
    IsDocumentBelow (tree.set location (.file bytes)) root names ↔
      IsDocumentBelow tree root names := by
  constructor
  · rintro ⟨-, hdocument, hname, hvisible, hdirectories, hleadsOn⟩
    simp only [isDirectory_set_file hplace bytes, leadsBack_set_file_iff hplace bytes]
      at hdirectories hleadsOn
    exact ⟨hfile, hdocument, hname, hvisible, hdirectories, hleadsOn⟩
  · rintro ⟨-, hdocument, hname, hvisible, hdirectories, hleadsOn⟩
    simp only [← isDirectory_set_file hplace bytes, ← leadsBack_set_file_iff hplace bytes]
      at hdirectories hleadsOn
    exact ⟨isFileBelow_set_file hplace hfile, hdocument, hname, hvisible, hdirectories, hleadsOn⟩

theorem mem_discover_set_file (hwf : tree.IsWellFormed) (hplace : tree.IsFilePlace location)
    (h : path ∈ discover tree root) :
    path ∈ discover (tree.set location (.file bytes)) root := by
  obtain ⟨names, rfl, hdocument⟩ := (mem_discover_iff hwf).mp h
  exact (mem_discover_iff (hplace.isWellFormed_set hwf bytes)).mpr
    ⟨names, rfl, (isDocumentBelow_set_file_iff hplace hdocument.file).mpr hdocument⟩

/-- The documents of before are among those of now, in the same order. -/
theorem discover_eq_filter (hwf : tree.IsWellFormed) (hplace : tree.IsFilePlace location) :
    discover tree root =
      (discover (tree.set location (.file bytes)) root).filter fun path =>
        decide (path ∈ discover tree root) := by
  refine eq_of_pairwise_partsPrecede (pairwise_discover hwf root)
    ((pairwise_discover (hplace.isWellFormed_set hwf bytes) root).filter _) fun path => ?_
  rw [List.mem_filter, decide_eq_true_iff]
  exact ⟨fun h => ⟨mem_discover_set_file hwf hplace h, h⟩, And.right⟩

/-! ## What is read -/

theorem document?_of_locate (h : tree.locate path = .ok (place, .file contents)) :
    document? tree path =
      (Text.decode? contents).bind fun text => (Value.read text).toOption := by
  unfold document?
  rw [FileTree.readText_of_locate h]
  cases Text.decode? contents with
  | none => rfl
  | some text => simp [Except.toOption, String.toList_ofList]

theorem isFile_of_document? {document : Value} (h : document? tree path = some document) :
    tree.isFile path = true := by
  obtain ⟨text, htext, -⟩ := Option.bind_eq_some_iff.mp h
  cases hread : tree.readText path with
  | error error =>
    rw [hread] at htext
    cases htext
  | ok found =>
    obtain ⟨there, hlocate⟩ := FileTree.exists_of_readText hread
    exact FileTree.isFile_eq_true_iff.mpr ⟨there, _, hlocate⟩

/-- The components in the file of a path, if it holds a document. -/
def componentsAt (tree : FileTree) (path : Path) : List Members :=
  ((document? tree path).map listed).getD []

theorem componentsAt_of_isFile_eq_false (h : tree.isFile path = false) :
    componentsAt tree path = [] := by
  unfold componentsAt
  cases hdocument : document? tree path with
  | none => rfl
  | some document => exact nomatch (isFile_of_document? hdocument).symm.trans h

theorem componentsOfAll_filterMap (tree : FileTree) (paths : List Path) :
    componentsOfAll (paths.filterMap (document? tree)) = paths.flatMap (componentsAt tree) := by
  induction paths with
  | nil => rfl
  | cons path paths ih =>
    rw [List.flatMap_cons, ← ih]
    unfold componentsAt
    cases hdocument : document? tree path with
    | none => rw [List.filterMap_cons_none hdocument]; rfl
    | some document => rw [List.filterMap_cons_some hdocument]; rfl

theorem components_mergeTree (tree : FileTree) (root : Path) :
    (mergeTree tree root).components =
      firstShown ((discover tree root).flatMap (componentsAt tree)) := by
  rw [← componentsOfAll_filterMap]
  exact (Merge.holds_merged _).components

/-! ## The document read back -/

/-- A component of a document can be written and read back if the document can. -/
theorem isReadable_of_mem_listed {depth : Nat} {document : Value} {component : Members}
    (h : Json.IsReadable (depth + 2) document) (hmem : component ∈ listed document) :
    Json.IsReadable depth (.object component) := by
  rw [← componentsOf_eq_listed] at hmem
  unfold Merge.componentsOf at hmem
  split at hmem
  · rename_i items hitems
    obtain ⟨item, hitem, hobject⟩ := List.mem_filterMap.mp hmem
    have hitemEq : item = .object component := by
      unfold Merge.object? at hobject
      split at hobject
      · rw [Option.some.inj hobject]
      · cases hobject
    unfold Value.get? at hitems
    split at hitems
    · have hmember := Json.Members.mem_of_get? hitems
      have harray := (Json.isReadable_object_iff.mp h).2 _ hmember
      rw [← hitemEq]
      exact Json.isReadable_array_iff.mp harray item hitem
    · cases hitems
  · cases hmem

/-- A merged document can be written and read back if its components can. -/
theorem isReadable_toValue {merge : Merge} {depth : Nat}
    (h : ∀ component ∈ merge.components, Json.IsReadable (depth + 1) (.object component)) :
    Json.IsReadable (depth + 3) merge.toValue := by
  have hscalar : ∀ n text, Json.IsReadable n (.string text) := fun n text =>
    Json.IsScalar.isReadable ⟨by simp, by simp⟩ n
  have hnumber : ∀ n number, Json.IsReadable n (.number number) := fun n number =>
    Json.IsScalar.isReadable ⟨by simp, by simp⟩ n
  have hmetadata : Json.IsReadable (depth + 2) (.object
      [("component", .object
        [("type", .string "application"), ("name", .string "zaevrynth-workspace")])]) := by
    simp [Json.isReadable_object_iff, hscalar, Json.ReadableKeys, Json.Members.keys,
      Json.numberKey]
  have hcomponents : Json.IsReadable (depth + 2) (.array (merge.components.map Value.object)) := by
    rw [Json.isReadable_array_iff, List.forall_mem_map]
    exact h
  unfold Merge.toValue
  rw [Json.isReadable_object_iff]
  constructor
  · simp [Json.ReadableKeys, Json.Members.keys, Json.numberKey]
  · simp only [List.forall_mem_cons, hscalar, hnumber, hmetadata, hcomponents, true_and]
    simp

/-- What is found in the file of a path was read. -/
theorem isReadable_of_mem_componentsAt {component : Members}
    (h : component ∈ componentsAt tree path) : Json.IsReadable 125 (.object component) := by
  unfold componentsAt at h
  cases hdocument : document? tree path with
  | none =>
    rw [hdocument] at h
    cases h
  | some document =>
    rw [hdocument] at h
    unfold document? at hdocument
    obtain ⟨text, -, hread⟩ := Option.bind_eq_some_iff.mp hdocument
    have hok : Value.read text.toList = .ok document := by
      cases hresult : Value.read text.toList with
      | error error =>
        rw [hresult] at hread
        cases hread
      | ok value =>
        rw [hresult] at hread
        rw [Option.some.inj hread]
    exact isReadable_of_mem_listed (Json.read_readable hok) h

theorem read_render_mergeTree (tree : FileTree) (root : Path) :
    Value.read (mergeTree tree root).render.toList = .ok (mergeTree tree root).toValue := by
  have hreadable : Json.IsReadable (124 + 3) (mergeTree tree root).toValue := by
    refine isReadable_toValue fun component hcomponent => ?_
    rw [components_mergeTree] at hcomponent
    obtain ⟨path, -, hmem⟩ := List.mem_flatMap.mp (mem_of_mem_firstShown hcomponent)
    exact isReadable_of_mem_componentsAt hmem
  exact Json.read_toPretty hreadable.1 hreadable.2

theorem listed_toValue (merge : Merge) : listed merge.toValue = merge.components := by
  rw [← componentsOf_eq_listed]
  unfold Merge.componentsOf
  rw [Merge.get?_toValue_components]
  have hobject : Merge.object? ∘ Value.object = some := rfl
  simp only [List.filterMap_map, hobject, List.filterMap_some]

/-- The merged document is the document of the file that it was written to. -/
theorem componentsAt_of_locate {other : FileTree}
    (h : other.locate path =
      .ok (place, .file (Text.encode (mergeTree tree root).render.toList))) :
    componentsAt other path = (mergeTree tree root).components := by
  unfold componentsAt
  rw [document?_of_locate h, Text.decode?_encode, Option.bind_some, read_render_mergeTree]
  exact listed_toValue _

/-! ## The next merge -/

theorem flatMap_filter {α β : Type} (p : α → Bool) (f : α → List β) (items : List α) :
    (items.filter p).flatMap f = items.flatMap fun item => if p item then f item else [] := by
  induction items with
  | nil => rfl
  | cons item items ih =>
    rw [List.filter_cons, List.flatMap_cons, ← ih]
    split
    · rw [List.flatMap_cons]
    · rfl

/-- A document that is found denotes the file that was written, or it holds what it held,
which is nothing if it was not found before. -/
theorem componentsAt_set_file (hwf : tree.IsWellFormed) (hplace : tree.IsFilePlace location)
    (h : path ∈ discover (tree.set location (.file bytes)) root) :
    (tree.set location (.file bytes)).locate path = .ok (location, .file bytes) ∨
      componentsAt (tree.set location (.file bytes)) path =
        if path ∈ discover tree root then componentsAt tree path else [] := by
  cases hafter : (tree.set location (.file bytes)).isFile path with
  | false =>
    have hbefore : tree.isFile path = false := by
      rw [Bool.eq_false_iff]
      intro hfile
      exact nomatch hafter.symm.trans (isFile_set_file_of_isFile hplace hfile)
    right
    rw [componentsAt_of_isFile_eq_false hafter, componentsAt_of_isFile_eq_false hbefore, ite_self]
  | true =>
    obtain ⟨there, contents, hlocate⟩ := FileTree.isFile_eq_true_iff.mp hafter
    by_cases hthere : there = location
    · left
      have hentry := FileTree.entryAt_of_locate hlocate
      rw [hthere, FileTree.entryAt_set_self hplace.ne_nil] at hentry
      rw [hlocate, hthere, ← Option.some.inj hentry]
    · right
      have hbefore := (FileTree.locate_set_file_iff hplace hthere).mp hlocate
      have hfound : path ∈ discover tree root := by
        obtain ⟨names, rfl, hdocument⟩ :=
          (mem_discover_iff (hplace.isWellFormed_set hwf bytes)).mp h
        have hfile := isFileBelow_of_isFile hdocument.root_ne_empty hdocument.isName
          (FileTree.isFile_eq_true_iff.mpr ⟨there, contents, hbefore⟩)
        exact (mem_discover_iff hwf).mpr
          ⟨names, rfl, (isDocumentBelow_set_file_iff hplace hfile).mp hdocument⟩
      rw [if_pos hfound]
      unfold componentsAt
      rw [document?_of_locate hlocate, document?_of_locate hbefore]

theorem components_mergeTree_of_write {after : FileTree} (hwf : tree.IsWellFormed)
    (h : tree.write path (Text.encode (mergeTree tree root).render.toList) = .ok after) :
    (mergeTree after root).components = (mergeTree tree root).components := by
  obtain ⟨location, hlocation, rfl⟩ := FileTree.write_eq_ok_iff.mp h
  have hplace := FileTree.isFilePlace_of_writable hwf hlocation
  have hshown := components_mergeTree tree root
  rw [discover_eq_filter hwf hplace, flatMap_filter] at hshown
  rw [components_mergeTree]
  refine firstShown_flatMap_of_shown [] hshown.symm fun source hsource => ?_
  rcases componentsAt_set_file hwf hplace hsource with hstored | hsame
  · exact Or.inl (componentsAt_of_locate hstored)
  · right
    rw [hsame]
    simp only [decide_eq_true_eq]

/-- **Merging again.**  If the merged document is written to a file, the next merge
writes the same text. -/
theorem render_mergeTree_of_write {after : FileTree} (hwf : tree.IsWellFormed)
    (h : tree.write path (Text.encode (mergeTree tree root).render.toList) = .ok after) :
    (mergeTree after root).render = (mergeTree tree root).render := by
  unfold Merge.render Merge.toValue
  rw [components_mergeTree_of_write hwf h]

/-- A directory with a document of one component, and a link to a document in front
of it that is not there yet. -/
def waitingTree : FileTree where
  entries := [(["box"], .directory),
    (["box", "b.cdx.json"],
      .file (Text.encode "\x7b\"components\": [\x7b\"name\": \"tar\"\x7d]\x7d".toList)),
    (["box", "c.cdx.json"], .link "a.cdx.json")]

/-- What the first merge writes. -/
def waitingText : List UInt8 := Text.encode (mergeTree waitingTree "box").render.toList

theorem render_mergeTree_waitingTree :
    waitingTree.IsWellFormed ∧
      waitingTree.write "box/a.cdx.json" waitingText =
        .ok (waitingTree.set ["box", "a.cdx.json"] (.file waitingText)) ∧
      (mergeTree (waitingTree.set ["box", "a.cdx.json"] (.file waitingText)) "box").render =
        (mergeTree waitingTree "box").render := by
  have hwf : waitingTree.IsWellFormed := by decide
  have hwrite : waitingTree.write "box/a.cdx.json" waitingText =
      .ok (waitingTree.set ["box", "a.cdx.json"] (.file waitingText)) :=
    FileTree.write_eq_ok_iff.mpr ⟨["box", "a.cdx.json"], by decide, rfl⟩
  exact ⟨hwf, hwrite, render_mergeTree_of_write hwf hwrite⟩

end

end GoldenFixtures.Sbom
