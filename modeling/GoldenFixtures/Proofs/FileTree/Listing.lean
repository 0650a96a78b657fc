import GoldenFixtures.Proofs.FileTree.Resolve

/-!
# Files in a listing

The listing of a directory and the resolution of a path are two things: the first one
looks at an entry, the second follows a path.  `IsFileEntry` says which entries count as
files where a directory is listed.

The two agree where the path of the entry is short enough (`isFileEntry_iff_isFile`), and
also where it is not they never disagree so far that a listed file is taken for a directory
(`isDirectory_join_of_isFileEntry`).
-/

namespace GoldenFixtures.FileTree

/-- The entry with a name in the directory of a path is a regular file, or a link that
leads to one from there.  This is to say that the path of the entry denotes a file, unless
it is too long (`isFileEntry_iff_isFile`). -/
inductive IsFileEntry (tree : FileTree) (path : Path) (location : Location) (name : String) :
    Prop where
  | file {bytes : List UInt8} : tree.entry? (location ++ [name]) = some (.file bytes) →
    IsFileEntry tree path location name
  | link {target : Path} {place : Location} {bytes : List UInt8} :
    tree.entry? (location ++ [name]) = some (.link target) →
    tree.locate (Path.join path name) = .ok (place, .file bytes) →
    IsFileEntry tree path location name

section

variable {tree : FileTree} {path : Path} {location : Location} {name : String}

theorem isFileIn_eq_true_iff :
    tree.isFileIn path location name = true ↔ tree.IsFileEntry path location name := by
  unfold isFileIn
  constructor
  · intro h
    split at h
    · rename_i hentry
      exact .file hentry
    · rename_i hentry
      obtain ⟨_, _, hlocate⟩ := isFile_eq_true_iff.mp h
      exact .link hentry hlocate
    · exact nomatch h
  · rintro (hentry | ⟨hentry, hlocate⟩)
    · rw [hentry]
    · rw [hentry]
      exact isFile_eq_true_iff.mpr ⟨_, _, hlocate⟩

theorem IsFileEntry.mem_names (h : tree.IsFileEntry path location name) :
    name ∈ tree.names location := by
  rw [mem_names_iff]
  cases h with
  | file hentry =>
    rw [hentry]
    exact nofun
  | link hentry _ =>
    rw [hentry]
    exact nofun

/-- A path that goes on with a name and denotes a file does so with the name of one. -/
theorem isFileEntry_of_isFile (hname : Path.IsName name)
    (hhere : tree.locate path = .ok (location, .directory))
    (h : tree.isFile (Path.join path name) = true) : tree.IsFileEntry path location name := by
  obtain ⟨place, bytes, hplace⟩ := isFile_eq_true_iff.mp h
  have hpath : path ≠ "" := by
    rintro rfl
    exact nomatch hhere
  obtain ⟨here, hsame, hmem⟩ :=
    exists_of_locate_join hpath hname (file_ne_link _) hplace
  obtain rfl := location_unique hhere hsame
  obtain ⟨entry, hentry⟩ := Option.ne_none_iff_exists'.mp (mem_names_iff.mp hmem)
  cases entry with
  | file contents => exact .file hentry
  | directory =>
    exact nomatch (eq_of_locate_join hname hhere hentry directory_ne_link
      (file_ne_link bytes) hplace).2
  | link target => exact .link hentry hplace

/-- An entry is a file exactly if its path denotes one, where the path is not too long. -/
theorem isFileEntry_iff_isFile (hname : Path.IsName name)
    (hhere : tree.locate path = .ok (location, .directory))
    (hsize : name.utf8ByteSize ≤ maxNameSize)
    (hjoin : (Path.join path name).utf8ByteSize ≤ maxPathSize) :
    tree.IsFileEntry path location name ↔ tree.isFile (Path.join path name) = true := by
  constructor
  · rintro (hentry | ⟨_, hlocate⟩)
    · exact isFile_eq_true_iff.mpr
        ⟨_, _, locate_join hname hhere hentry (file_ne_link _) hsize hjoin⟩
    · exact isFile_eq_true_iff.mpr ⟨_, _, hlocate⟩
  · exact isFileEntry_of_isFile hname hhere

/-- No path of a file in a directory is resolved to a directory. -/
theorem isDirectory_join_of_isFileEntry (hname : Path.IsName name)
    (hhere : tree.locate path = .ok (location, .directory))
    (h : tree.IsFileEntry path location name) :
    tree.isDirectory (Path.join path name) = false := by
  rw [Bool.eq_false_iff]
  intro hdirectory
  obtain ⟨place, hplace⟩ := isDirectory_eq_true_iff.mp hdirectory
  cases h with
  | file hentry =>
    exact nomatch (eq_of_locate_join hname hhere hentry (file_ne_link _)
      directory_ne_link hplace).2
  | link _ hlocate => exact nomatch hplace.symm.trans hlocate

end

end GoldenFixtures.FileTree
