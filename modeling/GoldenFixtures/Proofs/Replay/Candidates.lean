import Mathlib.Data.List.TakeWhile
import Mathlib.Data.String.Basic
import GoldenFixtures.Proofs.FileTree.Listing
import GoldenFixtures.Proofs.Text.Order
import GoldenFixtures.Replay.Verify

/-!
# What a path stands for

`AreDocumentNames` says which entries of a directory are its documents, and in which
order, from the tree alone.  `candidates_spec` says that a path stands for these, or for
itself.

The listing of a directory and the resolution of a path are two things: the first one
looks at an entry, the second follows a path.  They agree in that no listed file is taken
for a directory when its path is resolved (`FileTree.isDirectory_join_of_isFileEntry`),
links included, so that what a path stands for stands for itself.
-/

namespace GoldenFixtures.Replay

/-! ## Specification -/

/-- Behind the last point of a name is the extension of a document, in any letter case,
and there is something in front of the point. -/
def HasDocumentExtension (name : String) : Prop :=
  ∃ front extension, name = front ++ "." ++ extension ∧ front ≠ "" ∧ '.' ∉ extension.toList ∧
    extension.map Char.toLower ∈ ["yaml", "yml", "json"]

/-- The names of the documents in the directory of a path, in the order of their bytes. -/
structure AreDocumentNames (tree : FileTree) (path : Path) (location : Location)
    (names : List String) : Prop where
  ascending : names.Pairwise fun name other =>
    Text.encode name.toList < Text.encode other.toList
  mem_iff : ∀ name, name ∈ names ↔
    tree.IsFileEntry path location name ∧ HasDocumentExtension name

section

variable {tree : FileTree} {path : Path} {location : Location} {name : String}

/-! ## Extensions -/

/-- The characters of a name with a last point in it. -/
theorem toList_eq_iff {front extension : String} :
    name = front ++ "." ++ extension ↔
      name.toList.reverse = extension.toList.reverse ++ '.' :: front.toList.reverse := by
  have hpoint : ("." : String).toList = ['.'] := rfl
  rw [← String.toList_inj, String.toList_append, String.toList_append, hpoint,
    ← List.reverse_inj]
  simp

theorem extension?_eq_some_iff {extension : String} :
    Path.extension? name = some extension ↔
      ∃ front, name = front ++ "." ++ extension ∧ front ≠ "" ∧ '.' ∉ extension.toList := by
  unfold Path.extension?
  constructor
  · intro h
    simp only at h
    split at h
    · rename_i point last front hdrop
      have hpoint := List.head?_dropWhile_not (· ≠ '.') name.toList.reverse
      rw [hdrop] at hpoint
      obtain rfl : point = '.' := by simpa using hpoint
      have hname := List.takeWhile_append_dropWhile (p := (· ≠ '.')) (l := name.toList.reverse)
      rw [hdrop] at hname
      cases h
      refine ⟨String.ofList (last :: front).reverse, ?_, ?_, ?_⟩
      · rw [toList_eq_iff, String.toList_ofList, String.toList_ofList, List.reverse_reverse,
          List.reverse_reverse]
        exact hname.symm
      · simp
      · rw [String.toList_ofList, List.mem_reverse]
        intro hmem
        simpa using List.mem_takeWhile_imp hmem
    · exact nomatch h
  · rintro ⟨front, hname, hfront, hextension⟩
    have hplain : ∀ c ∈ extension.toList.reverse, decide (c ≠ '.') = true := by
      intro c hc
      rw [decide_eq_true_iff]
      rintro rfl
      exact hextension (List.mem_reverse.mp hc)
    obtain ⟨last, others, hlast⟩ : ∃ last others, front.toList.reverse = last :: others :=
      List.exists_cons_of_ne_nil (by simpa using hfront)
    rw [toList_eq_iff.mp hname, hlast]
    simp only [List.dropWhile_append_of_pos hplain, List.takeWhile_append_of_pos hplain]
    simp

theorem isDocumentName_eq_true_iff : isDocumentName name = true ↔ HasDocumentExtension name := by
  unfold isDocumentName HasDocumentExtension
  constructor
  · intro h
    split at h
    · rename_i extension hextension
      obtain ⟨front, hname, hfront, hpoint⟩ := extension?_eq_some_iff.mp hextension
      exact ⟨front, extension, hname, hfront, hpoint, List.contains_iff_mem.mp h⟩
    · exact nomatch h
  · rintro ⟨front, extension, hname, hfront, hpoint, hmem⟩
    rw [extension?_eq_some_iff.mpr ⟨front, hname, hfront, hpoint⟩]
    exact List.contains_iff_mem.mpr hmem

/-! ## Candidates -/

/-- The names of the documents in a directory, in the order in which they are listed. -/
def documentNames (tree : FileTree) (path : Path) (location : Location) : List String :=
  (sortNames (tree.names location)).filter fun name =>
    isDocumentName name && tree.isFileIn path location name

theorem pairwise_sortNames {names : List String} (h : names.Nodup) :
    (sortNames names).Pairwise fun name other =>
      Text.encode name.toList < Text.encode other.toList := by
  have hsorted : (sortNames names).Pairwise fun a b => decide (a ≤ b) = true := by
    apply List.pairwise_mergeSort
    · intro a b c hab hbc
      simp only [decide_eq_true_eq] at hab hbc ⊢
      exact String.le_trans hab hbc
    · intro a b
      simpa using String.le_total a b
  have hnodup : (sortNames names).Nodup := (List.mergeSort_perm _ _).nodup_iff.mpr h
  refine (hsorted.and hnodup).imp ?_
  rintro a b ⟨hle, hne⟩
  have hlt : a < b := lt_of_le_of_ne (of_decide_eq_true hle) hne
  exact Text.encode_lt_encode (String.lt_iff_toList_lt.mp hlt)

theorem areDocumentNames_documentNames (hwf : tree.IsWellFormed) :
    AreDocumentNames tree path location (documentNames tree path location) := by
  constructor
  · exact (pairwise_sortNames (hwf.nodup_names location)).filter _
  · intro name
    unfold documentNames sortNames
    rw [List.mem_filter, List.mem_mergeSort, Bool.and_eq_true, isDocumentName_eq_true_iff,
      FileTree.isFileIn_eq_true_iff]
    constructor
    · rintro ⟨_, hextension, hfile⟩
      exact ⟨hfile, hextension⟩
    · rintro ⟨hfile, hextension⟩
      exact ⟨hfile.mem_names, hextension, hfile⟩

theorem candidates_of_directory (hhere : tree.locate path = .ok (location, .directory)) :
    candidates tree path =
      if documentNames tree path location = [] then [path]
      else (documentNames tree path location).map (Path.join path) := by
  have hdocuments : documentsIn tree path =
      (documentNames tree path location).map (Path.join path) := by
    unfold documentsIn
    rw [hhere]
    rfl
  unfold candidates
  rw [hdocuments]
  cases documentNames tree path location with
  | nil => rfl
  | cons name names => rfl

theorem candidates_of_isDirectory_eq_false (h : tree.isDirectory path = false) :
    candidates tree path = [path] := by
  have hdocuments : documentsIn tree path = [] := by
    unfold documentsIn
    split
    · rename_i location hlocate
      have hdirectory := FileTree.isDirectory_eq_true_iff.mpr ⟨location, hlocate⟩
      exact nomatch h.symm.trans hdirectory
    · rfl
  unfold candidates
  rw [hdocuments]

/-- A path stands for itself, or for files that are no directories. -/
theorem candidates_cases (hwf : tree.IsWellFormed) :
    candidates tree path = [path] ∨
      ∀ file ∈ candidates tree path, tree.isDirectory file = false := by
  cases hdirectory : tree.isDirectory path with
  | false => exact Or.inl (candidates_of_isDirectory_eq_false hdirectory)
  | true =>
    obtain ⟨location, hhere⟩ := FileTree.isDirectory_eq_true_iff.mp hdirectory
    rw [candidates_of_directory hhere]
    split
    · exact Or.inl rfl
    · right
      intro file hfile
      obtain ⟨name, hname, rfl⟩ := List.mem_map.mp hfile
      have hentry := (((areDocumentNames_documentNames hwf).mem_iff name).mp hname).1
      exact FileTree.isDirectory_join_of_isFileEntry (hwf.isName_of_mem_names hentry.mem_names)
        hhere hentry

/-- What a path stands for stands for itself. -/
theorem flatMap_candidates (hwf : tree.IsWellFormed) (path : Path) :
    (candidates tree path).flatMap (candidates tree) = candidates tree path := by
  rcases candidates_cases hwf with hself | hfiles
  · rw [hself, List.flatMap_singleton, hself]
  · have hsingle : ∀ file ∈ candidates tree path, candidates tree file = [file] :=
      fun file hfile => candidates_of_isDirectory_eq_false (hfiles file hfile)
    rw [List.flatMap_congr hsingle, List.flatMap_singleton']

/-! ## Runs -/

theorem exists?_of_locate {entry : Entry} (h : tree.locate path = .ok (location, entry)) :
    tree.exists? path = true := by
  unfold FileTree.exists?
  rw [h]
  rfl

/-- The file of a path is loaded by its text. -/
theorem load_of_text {text : String}
    (h : tree.locate path = .ok (location, .file (Text.encode text.toList))) :
    load tree path = parse text := by
  have hread : tree.readText path = .ok text := by
    rw [FileTree.readText_of_locate h, Text.decode?_encode]
    simp only [String.ofList_toList]
  unfold load
  rw [exists?_of_locate h, hread]
  rfl

theorem load_of_directory (hhere : tree.locate path = .ok (location, .directory)) :
    load tree path = .error (.unreadable .isDirectory) := by
  have hbytes : tree.readBytes path = .error .isDirectory := by
    unfold FileTree.readBytes FileTree.bytesAt
    rw [hhere]
    simp only [bind, Except.bind, FileTree.entryAt_of_locate hhere]
  have hread : tree.readText path = .error .isDirectory := by
    unfold FileTree.readText
    rw [hbytes]
    rfl
  unfold load
  rw [exists?_of_locate hhere, hread]
  rfl

theorem verify_eq_map (tree : FileTree) (paths : List Path) :
    verify tree paths = (paths.flatMap (candidates tree)).map (verifyFile tree) := by
  unfold verify verifyPath
  rw [List.map_flatMap]

/-- A directory that stands for itself is told not to be readable. -/
theorem verify_of_no_documents (hhere : tree.locate path = .ok (location, .directory))
    (hself : candidates tree path = [path]) :
    verify tree [path] =
      [⟨path, .checked [⟨.load, "failed to read file: Is a directory (os error 21)"⟩]⟩] := by
  rw [verify_eq_map, List.flatMap_singleton, hself, List.map_singleton]
  unfold verifyFile
  rw [load_of_directory hhere]
  rfl

end

/-- **What a path stands for.**  A path that is resolved to no directory stands for itself.
A directory stands for its documents in the order of their names, or for itself if it has
none, and then a run over it has one issue and does not pass.  What a path stands for
stands for itself, so that a run over it is the run over the path. -/
theorem candidates_spec {tree : FileTree} (hwf : tree.IsWellFormed) (path : Path) :
    (tree.isDirectory path = false → candidates tree path = [path]) ∧
      (∀ location, tree.locate path = .ok (location, .directory) →
        ∃ names, AreDocumentNames tree path location names ∧
          candidates tree path = (if names = [] then [path] else names.map (Path.join path)) ∧
          (names = [] → verify tree [path] =
            [⟨path, .checked
              [⟨.load, "failed to read file: Is a directory (os error 21)"⟩]⟩])) ∧
      (candidates tree path).flatMap (candidates tree) = candidates tree path ∧
      verify tree [path] = verify tree (candidates tree path) := by
  refine ⟨candidates_of_isDirectory_eq_false, ?_, flatMap_candidates hwf path, ?_⟩
  · intro location hhere
    have hcandidates := candidates_of_directory hhere
    refine ⟨_, areDocumentNames_documentNames hwf, hcandidates, fun hnil => ?_⟩
    rw [if_pos hnil] at hcandidates
    exact verify_of_no_documents hhere hcandidates
  · rw [verify_eq_map, verify_eq_map, flatMap_candidates hwf, List.flatMap_singleton]

/-- A directory with two files and a link to a third one that are documents.  A hidden
file, a text, a directory, a link that leads nowhere and one back to the directory are
none.  Besides there is a directory without any. -/
def boxTree : FileTree where
  entries := [(["box"], .directory), (["box", "b.yaml"], .file []),
    (["box", "c.yml"], .link "../real"), (["real"], .file []), (["box", "A.JSON"], .file []),
    (["box", ".yaml"], .file []), (["box", "notes.txt"], .file []),
    (["box", "sub.yaml"], .directory), (["box", "gone.yaml"], .link "nowhere"),
    (["box", "loop.yaml"], .link "."), (["empty"], .directory)]

theorem isWellFormed_boxTree : boxTree.IsWellFormed := by decide

theorem candidates_boxTree :
    candidates boxTree "box" = ["box/A.JSON", "box/b.yaml", "box/c.yml"] := by
  have hsorted : sortNames (boxTree.names ["box"]) = [".yaml", "A.JSON", "b.yaml", "c.yml",
      "gone.yaml", "loop.yaml", "notes.txt", "sub.yaml"] := by
    have hnames : boxTree.names ["box"] = ["b.yaml", "c.yml", "A.JSON", ".yaml", "notes.txt",
        "sub.yaml", "gone.yaml", "loop.yaml"] := by
      decide
    rw [hnames]
    simp [sortNames, List.mergeSort, List.MergeSort.Internal.splitInTwo]
  have hdocuments : documentNames boxTree "box" ["box"] = ["A.JSON", "b.yaml", "c.yml"] := by
    unfold documentNames
    rw [hsorted]
    decide +kernel
  have hhere : boxTree.locate "box" = .ok (["box"], .directory) := rfl
  rw [candidates_of_directory hhere, hdocuments]
  decide +kernel

/-- The directory without documents has one issue, and a run over the other one is that over
its documents. -/
theorem candidates_spec_boxTree :
    boxTree.IsWellFormed ∧
      verify boxTree ["box"] = verify boxTree ["box/A.JSON", "box/b.yaml", "box/c.yml"] ∧
      verify boxTree ["empty"] = [⟨"empty", .checked
        [⟨.load, "failed to read file: Is a directory (os error 21)"⟩]⟩] := by
  obtain ⟨-, -, -, hbox⟩ := candidates_spec isWellFormed_boxTree "box"
  obtain ⟨-, hempty, -, -⟩ := candidates_spec isWellFormed_boxTree "empty"
  obtain ⟨names, hnames, -, hissue⟩ := hempty ["empty"] rfl
  have hnil : names = [] := by
    rw [List.eq_nil_iff_forall_not_mem]
    intro name hname
    have hlisted := ((hnames.mem_iff name).mp hname).1.mem_names
    have hnone : boxTree.names ["empty"] = [] := by decide
    rw [hnone] at hlisted
    exact nomatch hlisted
  rw [candidates_boxTree] at hbox
  exact ⟨isWellFormed_boxTree, hbox, hissue hnil⟩

end GoldenFixtures.Replay
