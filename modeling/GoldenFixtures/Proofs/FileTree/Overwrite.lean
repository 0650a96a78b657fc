import GoldenFixtures.Proofs.FileTree.Write
import GoldenFixtures.Proofs.Text.Lines

/-!
# Overwriting files

A path that denotes a file may be written by (`write_of_locate`), and then the tree
has the same directories, links and files, of which one holds something else:
`SameLayout` says that two trees differ in nothing but what their files hold.  A
path denotes one and the same place in both (`SameLayout.denotes_iff`).  None of
this asks that the trees are well-formed.  In a well-formed tree a file may be written
where there was none, and the tree changes there only (`denotes_of_set_file`).
-/

namespace GoldenFixtures.FileTree

section

variable {tree after last : FileTree} {path : Path} {location place : Location} {entry : Entry}
  {bytes contents : List UInt8} {text : String}

/-! ## What files hold -/

/-- The path denotes the file at the place. -/
def Denotes (tree : FileTree) (path : Path) (location : Location) : Prop :=
  ∃ bytes, tree.locate path = .ok (location, .file bytes)

theorem Denotes.unique (h : tree.Denotes path location) (hplace : tree.Denotes path place) :
    location = place := by
  obtain ⟨_, hlocate⟩ := h
  obtain ⟨_, hother⟩ := hplace
  exact location_unique hlocate hother

/-- The text of a file's path is the one that its bytes encode. -/
theorem readText_eq_ok_iff :
    tree.readText path = .ok text ↔ tree.readBytes path = .ok (Text.encode text.toList) := by
  unfold readText
  rw [Json.bind_eq_ok]
  constructor
  · intro h
    obtain ⟨bytes, hbytes, htext⟩ := h
    split at htext
    · rename_i characters hdecode
      cases htext
      rw [hbytes, Text.decode?_eq_some_iff.mp hdecode, String.toList_ofList]
    · exact nomatch htext
  · intro h
    refine ⟨_, h, ?_⟩
    simp only [Text.decode?_encode, String.ofList_toList]
    rfl

theorem exists_of_readText (h : tree.readText path = .ok text) :
    ∃ location, tree.locate path = .ok (location, .file (Text.encode text.toList)) :=
  readBytes_eq_ok_iff.mp (readText_eq_ok_iff.mp h)

/-- A file holds one text. -/
theorem text_unique {other : String}
    (h : tree.entry? location = some (.file (Text.encode text.toList)))
    (hother : tree.entry? location = some (.file (Text.encode other.toList))) : text = other := by
  have hbytes := Entry.file.inj (Option.some.inj (h.symm.trans hother))
  exact String.toList_inj.mp (Text.encode_injective hbytes)

/-! ## Writing to what is there -/

/-- A file's path is one to write by. -/
theorem writable_of_locate (h : tree.locate path = .ok (location, .file bytes)) :
    tree.writable path = .ok location := by
  obtain ⟨hcheck, hentry, count, hcount, hleads⟩ := (locate_eq_ok_iff (file_ne_link bytes)).mp h
  have hfile : tree.entry? location ≠ some .directory := by
    rw [hentry]
    simp
  obtain ⟨slash, hfollow, -⟩ := follow_of_leads hleads hcount fun _ : Purpose.write = .write => hfile
  exact writable_eq_ok_iff.mpr ⟨_, target_eq_ok_iff.mpr ⟨hcheck, hfollow⟩, rfl, hfile⟩

theorem write_of_locate (h : tree.locate path = .ok (location, .file bytes))
    (contents : List UInt8) :
    tree.write path contents = .ok (tree.set location (.file contents)) :=
  write_eq_ok_iff.mpr ⟨location, writable_of_locate h, rfl⟩

/-- Where the tree has changed when a file was written, there is that file. -/
theorem denotes_of_set_file (hwf : tree.IsWellFormed) (h : tree.writable path = .ok location)
    (hplace : FileTree.entry? (tree.set location (.file bytes)) place ≠ tree.entry? place) :
    (tree.set location (.file bytes)).Denotes path place := by
  have hsame : place = location := by
    by_contra hne
    exact hplace (entryAt_set_of_ne hne _)
  rw [hsame]
  exact ⟨bytes, locate_of_writable hwf h bytes⟩

/-! ## Trees that differ in what their files hold -/

theorem Extends.trans (h : tree.Extends after) (hlast : after.Extends last) :
    tree.Extends last := by
  refine ⟨hlast.home.trans h.home, ?_, ?_, ?_⟩
  · intro place hplace
    exact hlast.directory place (h.directory place hplace)
  · intro place target hplace
    exact hlast.link place target (h.link place target hplace)
  · intro place bytes hplace
    obtain ⟨others, hothers⟩ := h.file place bytes hplace
    exact hlast.file place others hothers

/-- The trees have the same directories and links, and files at the same places. -/
structure SameLayout (tree after : FileTree) : Prop where
  extend : tree.Extends after
  extended : after.Extends tree

theorem SameLayout.refl (tree : FileTree) : tree.SameLayout tree :=
  ⟨.refl tree, .refl tree⟩

theorem SameLayout.symm (h : tree.SameLayout after) : after.SameLayout tree :=
  ⟨h.extended, h.extend⟩

theorem SameLayout.trans (h : tree.SameLayout after) (hlast : after.SameLayout last) :
    tree.SameLayout last :=
  ⟨h.extend.trans hlast.extend, hlast.extended.trans h.extended⟩

/-- Another file in the place of one changes nothing else. -/
theorem sameLayout_set_file (h : tree.entry? location = some (.file bytes))
    (contents : List UInt8) : tree.SameLayout (tree.set location (.file contents)) := by
  have hdirectory : tree.entry? location ≠ some .directory := by
    rw [h]
    simp
  have hlink : ∀ target, tree.entry? location ≠ some (.link target) := by
    intro target
    rw [h]
    simp
  have hne : location ≠ [] := by
    rintro rfl
    exact hdirectory (entryAt_nil tree)
  refine ⟨extends_set_file contents hdirectory hlink, rfl, ?_, ?_, ?_⟩
  · intro place hplace
    exact entryAt_of_set_file hne hplace nofun
  · intro place target hplace
    exact entryAt_of_set_file hne hplace nofun
  · intro place others hplace
    by_cases heq : place = location
    · exact ⟨bytes, by rw [heq, h]⟩
    · rw [entryAt_set_of_ne heq] at hplace
      exact ⟨others, hplace⟩

theorem SameLayout.denotes (h : tree.SameLayout after) (hdenotes : tree.Denotes path location) :
    after.Denotes path location := by
  obtain ⟨bytes, hlocate⟩ := hdenotes
  obtain ⟨other, hother, hlocate'⟩ := locate_of_extends h.extend (file_ne_link bytes) hlocate
  obtain ⟨contents, hcontents⟩ := h.extend.file location bytes (entryAt_of_locate hlocate)
  rw [Option.some.inj (hother.symm.trans hcontents)] at hlocate'
  exact ⟨contents, hlocate'⟩

/-- A path denotes one place, whatever the files hold. -/
theorem SameLayout.denotes_iff (h : tree.SameLayout after) :
    tree.Denotes path location ↔ after.Denotes path location :=
  ⟨h.denotes, h.symm.denotes⟩

end

end GoldenFixtures.FileTree
