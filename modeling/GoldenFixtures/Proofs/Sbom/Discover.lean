import Mathlib.Data.Set.Finite.List
import GoldenFixtures.Proofs.FileTree.Listing
import GoldenFixtures.Proofs.Text.Order
import GoldenFixtures.Sbom.Discover

/-!
# Which documents are discovered

`Sbom.Walks` is the search for documents without a bound on its depth: the
directories that it comes to, and those that it is then inside of.  Its
directories are those of `IsDirectoryBelow` (`exists_walks_iff`), which speaks
about the tree alone, and they are less deep than the bound of `search`
(`Walks.length_lt`), so that the bound leaves nothing out.

`IsDocumentBelow` says of names below the root that they lead to a document.  What
is found below a directory is what the specification has there
(`isDocumentBelow_of_mem_search`, `mem_search_of_isDocumentBelow`), and
`discover_spec` is the whole.
-/

namespace GoldenFixtures.Sbom

section

variable {tree : FileTree} {root : Path} {chain : List Location} {here there place : Location}
  {names front below : List String} {name : String} {entry : Entry}

/-! ## Specification -/

/-- Some names below a root lead to a directory, and one more name is that of a
link from there to a directory that the root or fewer of the names denote. -/
def LeadsBack (tree : FileTree) (root : Path) (front : List String) (name : String) : Prop :=
  ∃ here there shorter,
    tree.locate (Path.joinAll root front) = .ok (here, .directory) ∧
      isLink tree (here ++ [name]) = true ∧
      tree.locate (Path.joinAll root (front ++ [name])) = .ok (there, .directory) ∧
      shorter <+: front ∧ tree.locate (Path.joinAll root shorter) = .ok (there, .directory)

/-- Names below a root lead to a directory that is searched. -/
structure IsDirectoryBelow (tree : FileTree) (root : Path) (names : List String) : Prop where
  isName : ∀ name ∈ names, Path.IsName name
  visible : ∀ name ∈ names, isHidden name = false
  directories : ∀ front, front <+: names → tree.isDirectory (Path.joinAll root front) = true
  leadsOn : ∀ front name, front ++ [name] <+: names → ¬ LeadsBack tree root front name

/-- Names below a root lead to a file, over links or not: the root denotes one, or the
last name is that of one in the directory which the others denote. -/
inductive IsFileBelow (tree : FileTree) (root : Path) : List String → Prop where
  | root : tree.isFile root = true → IsFileBelow tree root []
  | entry {names : List String} {name : String} {here : Location} :
    tree.locate (Path.joinAll root names) = .ok (here, .directory) →
    tree.IsFileEntry (Path.joinAll root names) here name →
    IsFileBelow tree root (names ++ [name])

/-- Names below a root lead to a document that is found. -/
structure IsDocumentBelow (tree : FileTree) (root : Path) (names : List String) : Prop where
  file : IsFileBelow tree root names
  /-- Its last name, which may be that of the root, is that of a document. -/
  document : isDocumentName (names.getLast?.getD ((Path.fileName? root).getD root)) = true
  isName : ∀ name ∈ names, Path.IsName name
  visible : ∀ name ∈ names, isHidden name = false
  /-- What is in front of the last name leads to directories. -/
  directories : ∀ front, front <+: names → front ≠ names →
    tree.isDirectory (Path.joinAll root front) = true
  /-- No name in front of the last one leads back. -/
  leadsOn : ∀ front name, front ++ [name] <+: names → front ++ [name] ≠ names →
    ¬ LeadsBack tree root front name

theorem isFileBelow_nil_iff : IsFileBelow tree root [] ↔ tree.isFile root = true := by
  constructor
  · intro h
    generalize hnames : ([] : List String) = names at h
    cases h with
    | root hroot => exact hroot
    | entry _ _ => simp at hnames
  · exact .root

theorem isFileBelow_append_singleton_iff :
    IsFileBelow tree root (names ++ [name]) ↔
      ∃ here, tree.locate (Path.joinAll root names) = .ok (here, .directory) ∧
        tree.IsFileEntry (Path.joinAll root names) here name := by
  constructor
  · intro h
    generalize hnames : names ++ [name] = below at h
    cases h with
    | root _ => simp at hnames
    | entry hhere hentry =>
      obtain ⟨rfl, hname⟩ := List.append_inj' hnames rfl
      obtain rfl := List.singleton_inj.mp hname
      exact ⟨_, hhere, hentry⟩
  · rintro ⟨here, hhere, hentry⟩
    exact .entry hhere hentry

/-- Names whose path denotes a file lead to one. -/
theorem isFileBelow_of_isFile (hroot : root ≠ "") (hnames : ∀ name ∈ names, Path.IsName name)
    (h : tree.isFile (Path.joinAll root names) = true) : IsFileBelow tree root names := by
  induction names using List.reverseRecOn with
  | nil => exact .root h
  | append_singleton names name _ =>
    rw [List.forall_mem_append, List.forall_mem_singleton] at hnames
    rw [Path.joinAll_append_singleton] at h
    obtain ⟨place, bytes, hplace⟩ := FileTree.isFile_eq_true_iff.mp h
    obtain ⟨here, hhere, -⟩ := FileTree.exists_of_locate_join
      (Path.joinAll_ne_empty hroot hnames.1) hnames.2 (FileTree.file_ne_link _) hplace
    exact .entry hhere (FileTree.isFileEntry_of_isFile hnames.2 hhere h)

/-- Names lead to a file exactly if their path denotes one, where it is not too long. -/
theorem isFileBelow_iff_isFile (hroot : root ≠ "")
    (hnames : ∀ name ∈ names, Path.IsName name ∧ name.utf8ByteSize ≤ FileTree.maxNameSize)
    (hsize : (Path.joinAll root names).utf8ByteSize ≤ FileTree.maxPathSize) :
    IsFileBelow tree root names ↔ tree.isFile (Path.joinAll root names) = true := by
  refine ⟨fun h => ?_, isFileBelow_of_isFile hroot fun name hname => (hnames name hname).1⟩
  cases h with
  | root h => exact h
  | @entry names name here hhere hentry =>
    obtain ⟨hname, hshort⟩ := hnames name (by simp)
    rw [Path.joinAll_append_singleton] at hsize ⊢
    exact (FileTree.isFileEntry_iff_isFile hname hhere hshort hsize).mp hentry

/-- A directory is searched if the one above it is and its own name does not lead
back. -/
theorem isDirectoryBelow_append_singleton_iff :
    IsDirectoryBelow tree root (names ++ [name]) ↔
      IsDirectoryBelow tree root names ∧ Path.IsName name ∧ isHidden name = false ∧
        tree.isDirectory (Path.joinAll root (names ++ [name])) = true ∧
        ¬ LeadsBack tree root names name := by
  constructor
  · intro h
    refine ⟨⟨fun other hother => h.isName other (List.mem_append_left _ hother),
      fun other hother => h.visible other (List.mem_append_left _ hother),
      fun front hfront => h.directories front (hfront.trans (List.prefix_append _ _)),
      fun front other hfront => h.leadsOn front other (hfront.trans (List.prefix_append _ _))⟩,
      h.isName name (by simp), h.visible name (by simp), h.directories _ (List.prefix_refl _),
      h.leadsOn names name (List.prefix_refl _)⟩
  · rintro ⟨habove, hname, hvisible, hdirectory, hback⟩
    constructor
    · simpa [or_imp, forall_and] using ⟨habove.isName, hname⟩
    · simpa [or_imp, forall_and] using ⟨habove.visible, hvisible⟩
    · intro front hfront
      rcases List.prefix_concat_iff.mp hfront with rfl | hfront
      · exact hdirectory
      · exact habove.directories front hfront
    · intro front other hfront
      rcases List.prefix_concat_iff.mp hfront with hsame | hfront
      · obtain ⟨rfl, hlast⟩ := List.append_inj' hsame rfl
        rwa [List.singleton_inj.mp hlast]
      · exact habove.leadsOn front other hfront

theorem isDocumentBelow_nil_iff :
    IsDocumentBelow tree root [] ↔
      tree.isFile root = true ∧ isDocumentName ((Path.fileName? root).getD root) = true := by
  constructor
  · intro h
    exact ⟨isFileBelow_nil_iff.mp h.file, h.document⟩
  · rintro ⟨hfile, hdocument⟩
    refine ⟨.root hfile, hdocument, by simp, by simp, fun front hfront hne => ?_,
      fun front name hfront => ?_⟩
    · exact absurd (List.prefix_nil.mp hfront) hne
    · exact absurd (List.prefix_nil.mp hfront) (by simp)

theorem IsDocumentBelow.root_ne_empty (h : IsDocumentBelow tree root names) : root ≠ "" := by
  rintro rfl
  cases names with
  | nil => exact nomatch isFileBelow_nil_iff.mp h.file
  | cons name rest =>
    exact nomatch h.directories [] List.nil_prefix (List.cons_ne_nil name rest).symm

/-- The directories in front of a document are searched. -/
theorem IsDocumentBelow.isDirectoryBelow (h : IsDocumentBelow tree root names)
    (hfront : front <+: names) (hne : front ≠ names) : IsDirectoryBelow tree root front := by
  have hshort : ∀ {shorter : List String}, shorter <+: front → shorter ≠ names := by
    rintro shorter hshorter rfl
    exact hne (hfront.eq_of_length_le hshorter.length_le)
  exact ⟨fun name hname => h.isName name (hfront.subset hname),
    fun name hname => h.visible name (hfront.subset hname),
    fun shorter hshorter => h.directories shorter (hshorter.trans hfront) (hshort hshorter),
    fun shorter name hshorter => h.leadsOn shorter name (hshorter.trans hfront)
      (hshort hshorter)⟩

/-- A document is found if the directory that it lies in is searched. -/
theorem isDocumentBelow_append_singleton_iff :
    IsDocumentBelow tree root (names ++ [name]) ↔
      IsDirectoryBelow tree root names ∧ Path.IsName name ∧ isHidden name = false ∧
        IsFileBelow tree root (names ++ [name]) ∧ isDocumentName name = true := by
  constructor
  · intro h
    exact ⟨h.isDirectoryBelow (List.prefix_append _ _) (by simp), h.isName name (by simp),
      h.visible name (by simp), h.file, by simpa using h.document⟩
  · rintro ⟨habove, hname, hvisible, hfile, hdocument⟩
    refine ⟨hfile, by simpa using hdocument, ?_, ?_, fun front hfront hne => ?_,
      fun front other hfront hne => ?_⟩
    · simpa [or_imp, forall_and] using ⟨habove.isName, hname⟩
    · simpa [or_imp, forall_and] using ⟨habove.visible, hvisible⟩
    · exact habove.directories front ((List.prefix_concat_iff.mp hfront).resolve_left hne)
    · exact habove.leadsOn front other ((List.prefix_concat_iff.mp hfront).resolve_left hne)

/-! ## The search without a bound -/

/-- The search comes to the directory `names` below its root; `chain` are the
places of the directories that it is then inside of, this one first. -/
inductive Walks (tree : FileTree) (root : Path) : List Location → List String → Prop where
  | root {here : Location} : tree.locate root = .ok (here, .directory) → Walks tree root [here] []
  | enter {here there : Location} {chain : List Location} {names : List String} {name : String} :
    Walks tree root (here :: chain) names → name ∈ tree.names here → isHidden name = false →
    tree.locate (Path.joinAll root (names ++ [name])) = .ok (there, .directory) →
    (isLink tree (here ++ [name]) && (here :: chain).contains there) = false →
    Walks tree root (there :: here :: chain) (names ++ [name])

namespace Walks

theorem locate (h : Walks tree root (here :: chain) names) :
    tree.locate (Path.joinAll root names) = .ok (here, .directory) := by
  cases h with
  | root hroot => exact hroot
  | enter _ _ _ hthere _ => exact hthere

/-- The search is inside of the directories that are denoted on the way. -/
theorem mem_chain_iff (h : Walks tree root chain names) :
    place ∈ chain ↔ ∃ front, front <+: names ∧
      tree.locate (Path.joinAll root front) = .ok (place, .directory) := by
  induction h generalizing place with
  | @root here hroot =>
    simp only [List.mem_singleton, List.prefix_nil]
    constructor
    · rintro rfl
      exact ⟨[], rfl, hroot⟩
    · rintro ⟨front, rfl, hplace⟩
      exact FileTree.location_unique hplace hroot
  | @enter here there chain names name _ _ _ hthere _ ih =>
    rw [List.mem_cons, ih]
    constructor
    · rintro (rfl | ⟨front, hfront, hplace⟩)
      · exact ⟨_, List.prefix_refl _, hthere⟩
      · exact ⟨front, hfront.trans (List.prefix_append _ _), hplace⟩
    · rintro ⟨front, hfront, hplace⟩
      rcases List.prefix_concat_iff.mp hfront with rfl | hfront
      · exact Or.inl (FileTree.location_unique hplace hthere)
      · exact Or.inr ⟨front, hfront, hplace⟩

/-- The test of the search for a link that leads back. -/
theorem leadsBack_iff (h : Walks tree root (here :: chain) names)
    (hthere : tree.locate (Path.joinAll root (names ++ [name])) = .ok (there, .directory)) :
    LeadsBack tree root names name ↔
      (isLink tree (here ++ [name]) && (here :: chain).contains there) = true := by
  rw [Bool.and_eq_true, List.contains_iff_mem, h.mem_chain_iff]
  constructor
  · rintro ⟨source, target, shorter, hsource, hlink, htarget, hshorter, hplace⟩
    obtain rfl := FileTree.location_unique hsource h.locate
    obtain rfl := FileTree.location_unique htarget hthere
    exact ⟨hlink, shorter, hshorter, hplace⟩
  · rintro ⟨hlink, shorter, hshorter, hplace⟩
    exact ⟨here, there, shorter, h.locate, hlink, hthere, hshorter, hplace⟩

theorem root_ne_empty (h : Walks tree root chain names) : root ≠ "" := by
  induction h with
  | root hroot =>
    exact (FileTree.checkPath_eq_ok_iff.mp
      ((FileTree.locate_eq_ok_iff FileTree.directory_ne_link).mp hroot).1).1
  | enter _ _ _ _ _ ih => exact ih

/-- The directories that the search comes to are those of the specification. -/
theorem isDirectoryBelow (hwf : tree.IsWellFormed) (h : Walks tree root chain names) :
    IsDirectoryBelow tree root names := by
  induction h with
  | root hroot =>
    refine ⟨by simp, by simp, fun front hfront => ?_, fun front name hfront => ?_⟩
    · rw [List.prefix_nil.mp hfront]
      exact FileTree.isDirectory_eq_true_iff.mpr ⟨_, hroot⟩
    · exact absurd (List.prefix_nil.mp hfront) (by simp)
  | enter hwalks hname hvisible hthere hleads ih =>
    refine isDirectoryBelow_append_singleton_iff.mpr ⟨ih, hwf.isName_of_mem_names hname, hvisible,
      FileTree.isDirectory_eq_true_iff.mpr ⟨_, hthere⟩, ?_⟩
    rw [hwalks.leadsBack_iff hthere, hleads]
    exact Bool.false_ne_true

/-- The bound on the search is not reached. -/
theorem length_lt (hwf : tree.IsWellFormed) (h : Walks tree root chain names) :
    names.length < maxSearchDepth tree := by
  obtain ⟨here, hhere⟩ := FileTree.isDirectory_eq_true_iff.mp
    ((h.isDirectoryBelow hwf).directories names (List.prefix_refl _))
  exact FileTree.length_lt_of_locate_joinAll (h.isDirectoryBelow hwf).isName
    FileTree.directory_ne_link hhere

/-- The next name of a path that denotes anything is listed where the search is. -/
theorem mem_names (h : Walks tree root (here :: chain) names) (hname : Path.IsName name)
    (hlink : ∀ target, entry ≠ .link target)
    (hlocate : tree.locate (Path.joinAll root (names ++ [name])) = .ok (there, entry))
    (hnames : ∀ name ∈ names, Path.IsName name) : name ∈ tree.names here := by
  rw [Path.joinAll_append_singleton] at hlocate
  obtain ⟨source, hsource, hmem⟩ := FileTree.exists_of_locate_join
    (Path.joinAll_ne_empty h.root_ne_empty hnames) hname hlink hlocate
  rwa [FileTree.location_unique h.locate hsource]

/-- What is a directory at the next name is no file in the listing. -/
theorem not_isFileEntry (h : Walks tree root (here :: chain) names) (hname : Path.IsName name)
    (hthere : tree.locate (Path.joinAll root (names ++ [name])) = .ok (there, .directory)) :
    ¬ tree.IsFileEntry (Path.joinAll root names) here name := by
  intro hentry
  rw [Path.joinAll_append_singleton] at hthere
  have hfile := FileTree.isDirectory_join_of_isFileEntry hname h.locate hentry
  rw [FileTree.isDirectory_eq_true_iff.mpr ⟨there, hthere⟩] at hfile
  exact nomatch hfile

/-- Where the specification has a directory below one that the search is in, the
search goes on to it. -/
theorem exists_enter (h : Walks tree root (here :: chain) names)
    (hbelow : IsDirectoryBelow tree root (names ++ [name])) :
    ∃ there, name ∈ tree.names here ∧ isHidden name = false ∧
      tree.locate (Path.joinAll root (names ++ [name])) = .ok (there, .directory) ∧
      (isLink tree (here ++ [name]) && (here :: chain).contains there) = false := by
  obtain ⟨habove, hname, hvisible, hdirectory, hback⟩ :=
    isDirectoryBelow_append_singleton_iff.mp hbelow
  obtain ⟨there, hthere⟩ := FileTree.isDirectory_eq_true_iff.mp hdirectory
  rw [h.leadsBack_iff hthere, Bool.not_eq_true] at hback
  exact ⟨there, h.mem_names hname FileTree.directory_ne_link hthere habove.isName, hvisible,
    hthere, hback⟩

end Walks

theorem exists_walks_iff (hwf : tree.IsWellFormed) :
    (∃ chain, Walks tree root chain names) ↔ IsDirectoryBelow tree root names := by
  constructor
  · rintro ⟨chain, hwalks⟩
    exact hwalks.isDirectoryBelow hwf
  · intro h
    suffices ∃ here chain, Walks tree root (here :: chain) names by
      obtain ⟨here, chain, hwalks⟩ := this
      exact ⟨_, hwalks⟩
    induction names using List.reverseRecOn with
    | nil =>
      obtain ⟨here, hroot⟩ := FileTree.isDirectory_eq_true_iff.mp
        (h.directories [] (List.prefix_refl _))
      exact ⟨here, [], .root hroot⟩
    | append_singleton names name ih =>
      obtain ⟨here, chain, hwalks⟩ := ih (isDirectoryBelow_append_singleton_iff.mp h).1
      obtain ⟨there, hname, hvisible, hthere, hleads⟩ := hwalks.exists_enter h
      exact ⟨there, here :: chain, .enter hwalks hname hvisible hthere hleads⟩

/-- The search comes to finitely many directories, since their paths are short and made of
the names of entries. -/
theorem finite_walks (hwf : tree.IsWellFormed) (root : Path) :
    {names | ∃ chain, Walks tree root chain names}.Finite := by
  let known := (tree.entries.map Prod.fst).flatten
  have : Finite {name // name ∈ known} := known.finite_toSet
  refine ((List.finite_length_lt {name // name ∈ known} (maxSearchDepth tree)).image
    (List.map Subtype.val)).subset ?_
  rintro names ⟨chain, hwalks⟩
  have hknown : ∀ name ∈ names, name ∈ known := by
    induction hwalks with
    | root _ => simp
    | @enter here _ _ _ name _ hname _ _ _ ih =>
      have hlast : name ∈ known := by
        obtain ⟨entry, hentry⟩ := Option.ne_none_iff_exists'.mp (FileTree.mem_names_iff.mp hname)
        have hplace :=
          List.mem_map_of_mem (f := Prod.fst) (FileTree.mem_of_entryAt hentry (by simp))
        exact List.mem_flatten_of_mem hplace (by simp)
      simpa [or_imp, forall_and] using ⟨ih, hlast⟩
  lift names to List {name // name ∈ known} using hknown
  refine ⟨names, ?_, rfl⟩
  simpa using hwalks.length_lt hwf

/-! ## The search -/

/-- What the search finds at a name of a directory; `searchOn` is the search of the
directories that it goes on to. -/
def searchName (tree : FileTree) (root : Path)
    (searchOn : List Location → List String → List (List String)) (here : Location)
    (chain : List Location) (names : List String) (name : String) : List (List String) :=
  if tree.isFileIn (Path.joinAll root names) here name then
    if isDocumentName name then [names ++ [name]] else []
  else
    match tree.locate (Path.joinAll root (names ++ [name])) with
    | .ok (location, .directory) =>
      if isLink tree (here ++ [name]) && (here :: chain).contains location then []
      else searchOn (location :: here :: chain) (names ++ [name])
    | _ => []

theorem search_succ (tree : FileTree) (root : Path) (depth : Nat) (here : Location)
    (chain : List Location) (names : List String) :
    search tree root (depth + 1) (here :: chain) names =
      ((tree.names here).filter fun name => !isHidden name).flatMap
        (searchName tree root (search tree root depth) here chain names) :=
  rfl

theorem mem_searchName_iff {searchOn : List Location → List String → List (List String)} :
    below ∈ searchName tree root searchOn here chain names name ↔
      (tree.IsFileEntry (Path.joinAll root names) here name ∧ isDocumentName name = true ∧
          below = names ++ [name]) ∨
        (¬ tree.IsFileEntry (Path.joinAll root names) here name ∧
          ∃ there, tree.locate (Path.joinAll root (names ++ [name])) = .ok (there, .directory) ∧
            (isLink tree (here ++ [name]) && (here :: chain).contains there) = false ∧
            below ∈ searchOn (there :: here :: chain) (names ++ [name])) := by
  unfold searchName
  rw [← FileTree.isFileIn_eq_true_iff]
  by_cases hfile : tree.isFileIn (Path.joinAll root names) here name = true
  · by_cases hdocument : isDocumentName name = true <;> simp [hfile, hdocument]
  · cases hlocate : tree.locate (Path.joinAll root (names ++ [name])) with
    | error error => simp [hfile]
    | ok found =>
      obtain ⟨there, entry⟩ := found
      cases entry with
      | file bytes => simp [hfile]
      | link target => simp [hfile]
      | directory =>
        cases hleads : isLink tree (here ++ [name]) && (here :: chain).contains there with
        | true => simp [hfile]
        | false => simp [hfile]

/-- What the search finds in a directory: a document at one of its names, or what it
finds in a directory that it goes on to. -/
theorem mem_search_succ_iff {depth : Nat} :
    below ∈ search tree root (depth + 1) (here :: chain) names ↔
      ∃ name ∈ tree.names here, isHidden name = false ∧
        below ∈ searchName tree root (search tree root depth) here chain names name := by
  rw [search_succ, List.mem_flatMap]
  simp only [List.mem_filter, Bool.not_eq_true', and_assoc]

/-- What is found lies below the directory that is searched. -/
theorem exists_of_mem_search {depth : Nat} (h : below ∈ search tree root depth chain names) :
    ∃ name rest, below = names ++ name :: rest := by
  induction depth generalizing chain names with
  | zero => exact nomatch h
  | succ depth ih =>
    cases chain with
    | nil => exact nomatch h
    | cons here chain =>
      obtain ⟨name, -, -, hmem⟩ := mem_search_succ_iff.mp h
      rcases mem_searchName_iff.mp hmem with ⟨-, -, rfl⟩ | ⟨-, there, -, -, hmem⟩
      · exact ⟨name, [], rfl⟩
      · obtain ⟨next, rest, rfl⟩ := ih hmem
        exact ⟨name, next :: rest, List.append_assoc _ _ _⟩

/-- What is found is a document of the specification. -/
theorem isDocumentBelow_of_mem_search (hwf : tree.IsWellFormed) {depth : Nat}
    (hwalks : Walks tree root (here :: chain) names)
    (h : below ∈ search tree root depth (here :: chain) names) :
    IsDocumentBelow tree root below := by
  induction depth generalizing here chain names with
  | zero => exact nomatch h
  | succ depth ih =>
    obtain ⟨name, hname, hvisible, hmem⟩ := mem_search_succ_iff.mp h
    rcases mem_searchName_iff.mp hmem with ⟨hentry, hdocument, rfl⟩ |
      ⟨-, there, hthere, hleads, hmem⟩
    · exact isDocumentBelow_append_singleton_iff.mpr ⟨hwalks.isDirectoryBelow hwf,
        hwf.isName_of_mem_names hname, hvisible, .entry hwalks.locate hentry, hdocument⟩
    · exact ih (.enter hwalks hname hvisible hthere hleads) hmem

/-- A document of the specification that lies below a directory is found there, if
the search may go deep enough. -/
theorem mem_search_of_isDocumentBelow (hwf : tree.IsWellFormed) {depth : Nat}
    {rest : List String} (hwalks : Walks tree root (here :: chain) names)
    (hdepth : maxSearchDepth tree ≤ names.length + depth)
    (h : IsDocumentBelow tree root (names ++ name :: rest)) :
    names ++ name :: rest ∈ search tree root depth (here :: chain) names := by
  induction depth generalizing here chain names name rest with
  | zero => exact absurd (hwalks.length_lt hwf) (Nat.not_lt.mpr hdepth)
  | succ depth ih =>
    cases rest with
    | nil =>
      obtain ⟨-, -, hvisible, hfile, hdocument⟩ := isDocumentBelow_append_singleton_iff.mp h
      obtain ⟨there, hthere, hentry⟩ := isFileBelow_append_singleton_iff.mp hfile
      obtain rfl := FileTree.location_unique hwalks.locate hthere
      exact mem_search_succ_iff.mpr ⟨name, hentry.mem_names, hvisible,
        mem_searchName_iff.mpr (Or.inl ⟨hentry, hdocument, rfl⟩)⟩
    | cons next rest =>
      have hbelow : IsDirectoryBelow tree root (names ++ [name]) :=
        h.isDirectoryBelow ((List.prefix_append_right_inj _).mpr (by simp)) (by simp)
      obtain ⟨there, hname, hvisible, hthere, hleads⟩ := hwalks.exists_enter hbelow
      refine mem_search_succ_iff.mpr ⟨name, hname, hvisible, mem_searchName_iff.mpr
        (Or.inr ⟨hwalks.not_isFileEntry (hwf.isName_of_mem_names hname) hthere,
          there, hthere, hleads, ?_⟩)⟩
      rw [List.append_cons names name (next :: rest)] at h ⊢
      refine ih (.enter hwalks hname hvisible hthere hleads) ?_ h
      rw [List.length_append, List.length_singleton]
      omega

/-- However much deeper the search may go, it finds the same. -/
theorem search_eq_of_le (hwf : tree.IsWellFormed) {depth more : Nat}
    (hwalks : Walks tree root (here :: chain) names)
    (hdepth : maxSearchDepth tree ≤ names.length + depth) (hmore : depth ≤ more) :
    search tree root more (here :: chain) names = search tree root depth (here :: chain) names := by
  induction depth generalizing here chain names more with
  | zero => exact absurd (hwalks.length_lt hwf) (Nat.not_lt.mpr hdepth)
  | succ depth ih =>
    obtain ⟨more, rfl⟩ := Nat.exists_eq_add_of_le' (Nat.le_trans (Nat.le_add_left 1 _) hmore)
    rw [search_succ, search_succ]
    refine List.flatMap_congr fun name hmem => ?_
    obtain ⟨hname, hvisible⟩ := List.mem_filter.mp hmem
    rw [Bool.not_eq_true'] at hvisible
    unfold searchName
    split
    · rfl
    · split
      · rename_i there hthere
        split
        · rfl
        · rename_i hleads
          rw [Bool.not_eq_true] at hleads
          refine ih (.enter hwalks hname hvisible hthere hleads) ?_ (Nat.le_of_succ_le_succ hmore)
          rw [List.length_append, List.length_singleton]
          omega
      · rfl

/-- What is found at a name starts with it. -/
theorem prefix_of_mem_searchName {depth : Nat}
    (h : below ∈ searchName tree root (search tree root depth) here chain names name) :
    names ++ [name] <+: below := by
  rcases mem_searchName_iff.mp h with ⟨-, -, rfl⟩ | ⟨-, there, -, -, hmem⟩
  · exact List.prefix_refl _
  · obtain ⟨next, rest, rfl⟩ := exists_of_mem_search hmem
    exact List.prefix_append _ _

/-- No document is found twice. -/
theorem nodup_search (hwf : tree.IsWellFormed) (depth : Nat) (chain : List Location)
    (names : List String) : (search tree root depth chain names).Nodup := by
  induction depth generalizing chain names with
  | zero => exact List.nodup_nil
  | succ depth ih =>
    cases chain with
    | nil => exact List.nodup_nil
    | cons here chain =>
      rw [search_succ, List.nodup_flatMap]
      constructor
      · intro name _
        unfold searchName
        split
        · split
          · exact List.nodup_singleton _
          · exact List.nodup_nil
        · split
          · split
            · exact List.nodup_nil
            · exact ih _ _
          · exact List.nodup_nil
      · refine ((hwf.nodup_names here).filter _).imp fun {name other} hne below hname hother => ?_
        apply hne
        have hsame : names ++ [name] = names ++ [other] :=
          (List.prefix_of_prefix_length_le (prefix_of_mem_searchName hname)
            (prefix_of_mem_searchName hother) (by simp)).eq_of_length (by simp)
        simpa using hsame

theorem mem_documentsBelow_iff (hwf : tree.IsWellFormed) :
    names ∈ documentsBelow tree root ↔ IsDocumentBelow tree root names := by
  unfold documentsBelow
  constructor
  · intro h
    split at h
    · rename_i place bytes hroot
      split at h
      · rename_i hdocument
        rw [List.mem_singleton.mp h]
        exact isDocumentBelow_nil_iff.mpr
          ⟨FileTree.isFile_eq_true_iff.mpr ⟨place, bytes, hroot⟩, hdocument⟩
      · exact nomatch h
    · rename_i here hroot
      exact isDocumentBelow_of_mem_search hwf (.root hroot) h
    · exact nomatch h
  · intro h
    cases names with
    | nil =>
      obtain ⟨hfile, hdocument⟩ := isDocumentBelow_nil_iff.mp h
      obtain ⟨place, bytes, hroot⟩ := FileTree.isFile_eq_true_iff.mp hfile
      rw [hroot]
      simp [hdocument]
    | cons name rest =>
      obtain ⟨here, hroot⟩ := FileTree.isDirectory_eq_true_iff.mp
        (h.directories [] List.nil_prefix (List.cons_ne_nil name rest).symm)
      rw [Path.joinAll, List.foldl_nil] at hroot
      rw [hroot]
      exact mem_search_of_isDocumentBelow hwf (.root hroot) (by simp) h

theorem nodup_documentsBelow (hwf : tree.IsWellFormed) (root : Path) :
    (documentsBelow tree root).Nodup := by
  unfold documentsBelow
  split
  · split
    · exact List.nodup_singleton _
    · exact List.nodup_nil
  · exact nodup_search hwf _ _ _
  · exact List.nodup_nil

/-! ## The order of paths -/

/-- Name by name, the bytes of a path come before those of another. -/
def PartsPrecede (path other : Path) : Prop :=
  path.parts.map (fun part => Text.encode part.toList) <
    other.parts.map fun part => Text.encode part.toList

theorem namesPrecede_iff {others : List String} :
    namesPrecede names others = true ↔ names = others ∨ names < others := by
  induction names generalizing others with
  | nil =>
    cases others with
    | nil => simp [namesPrecede]
    | cons other others => simp [namesPrecede]
  | cons name names ih =>
    cases others with
    | nil => simp [namesPrecede]
    | cons other others =>
      rw [namesPrecede, List.cons_lt_cons_iff, List.cons.injEq]
      by_cases hsame : name = other
      · subst hsame
        rw [if_pos rfl, ih]
        simp only [true_and, String.lt_irrefl, false_or]
      · simp [hsame]

theorem namesPrecede_trans (names others more : List String)
    (h : namesPrecede names others = true) (hmore : namesPrecede others more = true) :
    namesPrecede names more = true := by
  rw [namesPrecede_iff] at h hmore ⊢
  rcases h with rfl | h
  · exact hmore
  · rcases hmore with rfl | hmore
    · exact Or.inr h
    · exact Or.inr (List.lt_trans h hmore)

theorem namesPrecede_total (names others : List String) :
    (namesPrecede names others || namesPrecede others names) = true := by
  rw [Bool.or_eq_true, namesPrecede_iff, namesPrecede_iff]
  rcases Std.lt_trichotomy names others with h | rfl | h
  · exact Or.inl (Or.inr h)
  · exact Or.inl (Or.inl rfl)
  · exact Or.inr (Or.inr h)

theorem partsPrecede_joinAll {others : List String} (hnames : ∀ name ∈ names, Path.IsName name)
    (hothers : ∀ name ∈ others, Path.IsName name) (h : names < others) :
    PartsPrecede (Path.joinAll root names) (Path.joinAll root others) := by
  unfold PartsPrecede
  rw [Path.parts_joinAll hnames, Path.parts_joinAll hothers, List.map_append, List.map_append]
  exact List.append_left_lt (List.map_lt (fun _ _ => Text.encode_lt_encode) h)

theorem PartsPrecede.ne {path other : Path} (h : PartsPrecede path other) : path ≠ other := by
  rintro rfl
  exact List.lt_irrefl _ h

theorem PartsPrecede.trans {path other more : Path} (h : PartsPrecede path other)
    (hmore : PartsPrecede other more) : PartsPrecede path more := List.lt_trans h hmore

/-- Ascending paths are told by which they are. -/
theorem eq_of_pairwise_partsPrecede {paths others : List Path}
    (hpaths : paths.Pairwise PartsPrecede) (hothers : others.Pairwise PartsPrecede)
    (h : ∀ path, path ∈ paths ↔ path ∈ others) :
    paths = others := by
  have hperm : paths.Perm others :=
    (List.perm_ext_iff_of_nodup (hpaths.imp PartsPrecede.ne) (hothers.imp PartsPrecede.ne)).mpr h
  exact hperm.eq_of_pairwise (fun _ _ _ _ hlt hgt => absurd rfl (hlt.trans hgt).ne) hpaths hothers

/-! ## Discovery -/

theorem mem_discover_iff (hwf : tree.IsWellFormed) {path : Path} :
    path ∈ discover tree root ↔
      ∃ names, path = Path.joinAll root names ∧ IsDocumentBelow tree root names := by
  unfold discover
  simp only [List.mem_map, List.mem_mergeSort, mem_documentsBelow_iff hwf]
  refine exists_congr fun names => ?_
  rw [and_comm, eq_comm]

theorem pairwise_discover (hwf : tree.IsWellFormed) (root : Path) :
    (discover tree root).Pairwise PartsPrecede := by
  have hsorted := List.pairwise_mergeSort namesPrecede_trans namesPrecede_total
    (documentsBelow tree root)
  have hnodup : ((documentsBelow tree root).mergeSort namesPrecede).Nodup :=
    (List.mergeSort_perm _ _).nodup_iff.mpr (nodup_documentsBelow hwf root)
  have hnames : ∀ names ∈ (documentsBelow tree root).mergeSort namesPrecede,
      ∀ name ∈ names, Path.IsName name := by
    intro names hmem
    rw [List.mem_mergeSort, mem_documentsBelow_iff hwf] at hmem
    exact hmem.isName
  unfold discover
  rw [List.pairwise_map]
  refine (hsorted.and hnodup).imp_of_mem fun {names others} hmem hother ⟨hle, hne⟩ => ?_
  exact partsPrecede_joinAll (hnames _ hmem) (hnames _ hother)
    ((namesPrecede_iff.mp hle).resolve_left hne)

/-- **Discovery.**  The search comes to finitely many directories, so that the bound on
its depth leaves nothing out.  The paths that it finds are strictly ascending, and
they are those of the specification.  There a path leads to a file exactly if it denotes
one, unless it is too long. -/
theorem discover_spec (hwf : tree.IsWellFormed) (root : Path) :
    {names | ∃ chain, Walks tree root chain names}.Finite ∧
      (∀ here depth, tree.locate root = .ok (here, .directory) → maxSearchDepth tree ≤ depth →
        search tree root depth [here] [] = search tree root (maxSearchDepth tree) [here] []) ∧
      (discover tree root).Pairwise PartsPrecede ∧
      (∀ path, path ∈ discover tree root ↔
        ∃ names, path = Path.joinAll root names ∧ IsDocumentBelow tree root names) ∧
      ∀ names, root ≠ "" →
        (∀ name ∈ names, Path.IsName name ∧ name.utf8ByteSize ≤ FileTree.maxNameSize) →
        (Path.joinAll root names).utf8ByteSize ≤ FileTree.maxPathSize →
        (IsFileBelow tree root names ↔ tree.isFile (Path.joinAll root names) = true) :=
  ⟨finite_walks hwf root,
    fun _ _ hroot hdepth => search_eq_of_le hwf (.root hroot) (by simp) hdepth,
    pairwise_discover hwf root, fun _ => mem_discover_iff hwf,
    fun _ hroot hnames hsize => isFileBelow_iff_isFile hroot hnames hsize⟩

/-- A directory with a document and a link to the document below it.  There are also
a link to the directory itself, a link that leads nowhere, and a hidden file. -/
def loopTree : FileTree where
  entries := [(["box"], .directory), (["box", "b.cdx.json"], .file []),
    (["box", "loop"], .link "."), (["box", "gone.cdx.json"], .link "../none"),
    (["box", "a"], .directory), (["box", "a", "up.cdx.json"], .link "../b.cdx.json"),
    (["box", ".cdx.json"], .file [])]

example : documentsBelow loopTree "box" = [["b.cdx.json"], ["a", "up.cdx.json"]] := by
  decide +kernel

theorem isWellFormed_loopTree : loopTree.IsWellFormed := by decide

theorem discover_spec_loopTree :
    loopTree.IsWellFormed ∧ (discover loopTree "box").Pairwise PartsPrecede ∧
      "box/a/up.cdx.json" ∈ discover loopTree "box" := by
  obtain ⟨-, -, hpairwise, hmem, -⟩ := discover_spec isWellFormed_loopTree "box"
  refine ⟨isWellFormed_loopTree, hpairwise, (hmem _).mpr ⟨["a", "up.cdx.json"], by decide, ?_⟩⟩
  exact (mem_documentsBelow_iff isWellFormed_loopTree).mp (by decide +kernel)

end

end GoldenFixtures.Sbom
