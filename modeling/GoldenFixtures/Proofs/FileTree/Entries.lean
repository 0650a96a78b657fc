import Mathlib.Data.List.Nodup
import GoldenFixtures.FileTree.Basic
import GoldenFixtures.Proofs.FileTree.Path

/-!
# Entries of a file tree

What stands at a place of a file tree, by look-up, by the listing of a
directory (`mem_names_iff`), and after an entry was set (`entryAt_set_self`,
`entryAt_set_of_ne`).

`FileTree.IsWellFormed` says that a tree is one that a disk can hold.  It stays so
when an entry is set, unless a directory is lost (`IsWellFormed.set`).
`FileTree.Extends` says what a second tree has in common with a first one if
files were written to it.
-/

namespace GoldenFixtures.FileTree

/-- No place is taken twice.  Every entry has a name that paths can ask for, and
lies in a directory.  Relative paths start at a directory. -/
structure IsWellFormed (tree : FileTree) : Prop where
  nodup : (tree.entries.map Prod.fst).Nodup
  isName : ∀ entry ∈ tree.entries, ∀ name ∈ entry.1, Path.IsName name
  parent : ∀ entry ∈ tree.entries, tree.entry? entry.1.dropLast = some .directory
  home : tree.entry? tree.home = some .directory

instance (tree : FileTree) : Decidable tree.IsWellFormed :=
  decidable_of_iff
    ((tree.entries.map Prod.fst).Nodup ∧
      (∀ entry ∈ tree.entries, ∀ name ∈ entry.1, Path.IsName name) ∧
      (∀ entry ∈ tree.entries, tree.entry? entry.1.dropLast = some .directory) ∧
      tree.entry? tree.home = some .directory)
    ⟨fun ⟨hnodup, hname, hparent, hhome⟩ => ⟨hnodup, hname, hparent, hhome⟩,
      fun h => ⟨h.nodup, h.isName, h.parent, h.home⟩⟩

section

variable {tree : FileTree} {location place : Location} {entry : Entry} {name : String}

theorem entryAt_nil (tree : FileTree) : tree.entry? [] = some .directory := rfl

theorem entryAt_of_ne_nil (h : location ≠ []) :
    tree.entry? location = tree.entries.lookup location := if_neg h

theorem mem_of_entryAt (h : tree.entry? location = some entry) (hne : location ≠ []) :
    (location, entry) ∈ tree.entries := by
  rw [entryAt_of_ne_nil hne] at h
  obtain ⟨front, back, hentries, -⟩ := List.lookup_eq_some_iff.mp h
  rw [hentries]
  simp

/-- A place is taken if it is that of an entry. -/
theorem entryAt_ne_none_of_mem (h : (location, entry) ∈ tree.entries) :
    tree.entry? location ≠ none := by
  by_cases hne : location = []
  · rw [hne, entryAt_nil]
    exact nofun
  · rw [entryAt_of_ne_nil hne]
    intro hnone
    simpa using List.lookup_eq_none_iff.mp hnone _ h

/-! ## Names -/

/-- The name of the entry at a place, if it lies in a directory. -/
def nameIn? (location place : Location) : Option String :=
  match place.getLast? with
  | some name => if place.dropLast = location then some name else none
  | none => none

theorem nameIn?_eq_some_iff : nameIn? location place = some name ↔ place = location ++ [name] := by
  unfold nameIn?
  constructor
  · intro h
    split at h
    · rename_i last hlast
      split at h
      · rename_i hfront
        cases h
        obtain ⟨front, rfl⟩ := List.getLast?_eq_some_iff.mp hlast
        rw [← hfront, List.dropLast_concat]
      · exact nomatch h
    · exact nomatch h
  · rintro rfl
    simp

theorem names_eq (tree : FileTree) (location : Location) :
    tree.names location = (tree.entries.map Prod.fst).filterMap (nameIn? location) := by
  rw [List.filterMap_map]
  rfl

/-- The names in a directory are those under which there are entries. -/
theorem mem_names_iff : name ∈ tree.names location ↔ tree.entry? (location ++ [name]) ≠ none := by
  rw [names_eq, List.mem_filterMap]
  constructor
  · rintro ⟨place, hplace, hname⟩
    obtain ⟨⟨_, entry⟩, hentry, rfl⟩ := List.mem_map.mp hplace
    rw [← nameIn?_eq_some_iff.mp hname]
    exact entryAt_ne_none_of_mem hentry
  · intro h
    obtain ⟨entry, hentry⟩ := Option.ne_none_iff_exists'.mp h
    exact ⟨location ++ [name], List.mem_map_of_mem (mem_of_entryAt hentry (by simp)),
      nameIn?_eq_some_iff.mpr rfl⟩

theorem IsWellFormed.isName_of_entryAt (h : tree.IsWellFormed)
    (hentry : tree.entry? location ≠ none) : ∀ name ∈ location, Path.IsName name := by
  by_cases hne : location = []
  · simp [hne]
  · obtain ⟨entry, hentry⟩ := Option.ne_none_iff_exists'.mp hentry
    exact h.isName _ (mem_of_entryAt hentry hne)

/-- What is there lies in a directory. -/
theorem IsWellFormed.entryAt_dropLast (h : tree.IsWellFormed)
    (hentry : tree.entry? location ≠ none) : tree.entry? location.dropLast = some .directory := by
  by_cases hne : location = []
  · rw [hne, List.dropLast_nil, entryAt_nil]
  · obtain ⟨entry, hentry⟩ := Option.ne_none_iff_exists'.mp hentry
    exact h.parent _ (mem_of_entryAt hentry hne)

theorem IsWellFormed.isName_of_mem_names (h : tree.IsWellFormed)
    (hname : name ∈ tree.names location) : Path.IsName name :=
  h.isName_of_entryAt (mem_names_iff.mp hname) name (by simp)

theorem IsWellFormed.nodup_names (h : tree.IsWellFormed) (location : Location) :
    (tree.names location).Nodup := by
  rw [names_eq]
  refine h.nodup.filterMap fun place other name hname hother => ?_
  rw [nameIn?_eq_some_iff.mp hname, nameIn?_eq_some_iff.mp hother]

/-! ## Height -/

theorem le_foldl_max {α : Type} (f : α → Nat) (as : List α) (n : Nat) :
    n ≤ as.foldl (fun n a => max n (f a)) n ∧
      ∀ a ∈ as, f a ≤ as.foldl (fun n a => max n (f a)) n := by
  induction as generalizing n with
  | nil => simp
  | cons a as ih =>
    obtain ⟨hstart, hrest⟩ := ih (max n (f a))
    rw [List.foldl_cons, List.forall_mem_cons]
    exact ⟨Nat.le_trans (Nat.le_max_left _ _) hstart,
      Nat.le_trans (Nat.le_max_right _ _) hstart, hrest⟩

/-- No entry lies deeper than the tree is high. -/
theorem length_le_height (h : tree.entry? location ≠ none) : location.length ≤ tree.height := by
  by_cases hne : location = []
  · simp [hne]
  · obtain ⟨entry, hentry⟩ := Option.ne_none_iff_exists'.mp h
    exact (le_foldl_max (fun entry : Location × Entry => entry.1.length) tree.entries _).2 _
      (mem_of_entryAt hentry hne)

/-! ## Setting an entry -/

/-- The entries at other places are looked up as before. -/
theorem lookup_filter_of_ne {entries : List (Location × Entry)} (h : place ≠ location) :
    (entries.filter fun e => e.1 != location).lookup place = entries.lookup place := by
  induction entries with
  | nil => rfl
  | cons first entries ih =>
    obtain ⟨other, found⟩ := first
    by_cases hother : other = location
    · have hne : (place == other) = false := by rw [hother]; exact beq_false_of_ne h
      rw [List.filter_cons_of_neg (by simp [hother]), ih, List.lookup_cons, hne]
    · rw [List.filter_cons_of_pos (by simp [hother]), List.lookup_cons, List.lookup_cons, ih]

theorem entryAt_set_self (h : location ≠ []) (entry : Entry) :
    FileTree.entry? (tree.set location entry) location = some entry := by
  have hnone : (tree.entries.filter fun e => e.1 != location).lookup location = none := by
    rw [List.lookup_eq_none_iff]
    intro e he
    exact bne_iff_ne.mpr (bne_iff_ne.mp (List.mem_filter.mp he).2).symm
  rw [entryAt_of_ne_nil h, FileTree.set, List.lookup_append, hnone]
  simp

theorem entryAt_set_of_ne (h : place ≠ location) (entry : Entry) :
    FileTree.entry? (tree.set location entry) place = tree.entry? place := by
  by_cases hne : place = []
  · rw [hne, entryAt_nil, entryAt_nil]
  · have hlast : ([(location, entry)] : List (Location × Entry)).lookup place = none := by
      rw [List.lookup_cons, beq_false_of_ne h]
      rfl
    rw [entryAt_of_ne_nil hne, entryAt_of_ne_nil hne, FileTree.set, List.lookup_append,
      lookup_filter_of_ne h, hlast, Option.or_none]

/-- What is there stays when an entry is set at a free place. -/
theorem entryAt_set_of_free (hfree : tree.entry? location = none)
    (h : tree.entry? place = some entry) (other : Entry) :
    FileTree.entry? (tree.set location other) place = some entry := by
  have hne : place ≠ location := by
    rintro rfl
    exact nomatch hfree.symm.trans h
  rwa [entryAt_set_of_ne hne]

/-- What is not a file after a file was set was there before. -/
theorem entryAt_of_set_file {bytes : List UInt8} (hne : location ≠ [])
    (h : FileTree.entry? (tree.set location (.file bytes)) place = some entry)
    (hfile : ∀ contents, entry ≠ .file contents) : tree.entry? place = some entry := by
  have hplace : place ≠ location := by
    rintro rfl
    rw [entryAt_set_self hne] at h
    exact hfile bytes (Option.some.inj h).symm
  rwa [entryAt_set_of_ne hplace] at h

/-- Of two entries that are set at a place, the last one stays. -/
theorem set_set (tree : FileTree) (location : Location) (first last : Entry) :
    (tree.set location first).set location last = tree.set location last := by
  simp [FileTree.set, List.filter_append, List.filter_filter]

/-- Directories stay when an entry is set that does not replace one. -/
theorem entryAt_set_of_directory
    (hkeep : tree.entry? location = some .directory → entry = .directory)
    (h : tree.entry? place = some .directory) :
    FileTree.entry? (tree.set location entry) place = some .directory := by
  by_cases hplace : place = location
  · rw [hplace] at h ⊢
    by_cases hne : location = []
    · rw [hne, entryAt_nil]
    · rw [entryAt_set_self hne, hkeep h]
  · rw [entryAt_set_of_ne hplace, h]

theorem IsWellFormed.set (h : tree.IsWellFormed) (hname : ∀ name ∈ location, Path.IsName name)
    (hparent : tree.entry? location.dropLast = some .directory)
    (hkeep : tree.entry? location = some .directory → entry = .directory) :
    (tree.set location entry).IsWellFormed := by
  constructor
  · unfold FileTree.set
    rw [List.map_append, List.map_singleton, List.nodup_append_comm, List.singleton_append,
      List.nodup_cons]
    refine ⟨?_, ?_⟩
    · simp
    · exact h.nodup.sublist (List.filter_sublist.map Prod.fst)
  · intro e he
    rcases List.mem_append.mp he with hold | hnew
    · exact h.isName e (List.mem_filter.mp hold).1
    · rw [List.mem_singleton.mp hnew]
      exact hname
  · intro e he
    rcases List.mem_append.mp he with hold | hnew
    · exact entryAt_set_of_directory hkeep (h.parent e (List.mem_filter.mp hold).1)
    · rw [List.mem_singleton.mp hnew]
      exact entryAt_set_of_directory hkeep hparent
  · exact entryAt_set_of_directory hkeep h.home

/-! ## Trees with more in them -/

/-- The second tree has the directories and links of the first one, and files where
the first has some. -/
structure Extends (tree after : FileTree) : Prop where
  home : after.home = tree.home
  directory : ∀ place, tree.entry? place = some .directory → after.entry? place = some .directory
  link : ∀ place target, tree.entry? place = some (.link target) →
    after.entry? place = some (.link target)
  file : ∀ place bytes, tree.entry? place = some (.file bytes) →
    ∃ others, after.entry? place = some (.file others)

theorem Extends.refl (tree : FileTree) : tree.Extends tree :=
  ⟨rfl, fun _ h => h, fun _ _ h => h, fun _ bytes h => ⟨bytes, h⟩⟩

/-- A tree that has lost nothing extends the first one. -/
theorem Extends.of_kept {after : FileTree} (home : after.home = tree.home)
    (kept : ∀ place entry, tree.entry? place = some entry → after.entry? place = some entry) :
    tree.Extends after :=
  ⟨home, fun place => kept place .directory, fun place target => kept place (.link target),
    fun place bytes h => ⟨bytes, kept place (.file bytes) h⟩⟩

/-- What is no link in the first tree is none in the second. -/
theorem Extends.exists_entry {after : FileTree} (h : tree.Extends after)
    (hentry : tree.entry? place = some entry) (hlink : ∀ target, entry ≠ .link target) :
    ∃ other, after.entry? place = some other ∧ ∀ target, other ≠ .link target := by
  cases entry with
  | file bytes =>
    obtain ⟨others, hothers⟩ := h.file place bytes hentry
    exact ⟨_, hothers, nofun⟩
  | directory => exact ⟨_, h.directory place hentry, nofun⟩
  | link target => exact absurd rfl (hlink target)

/-- A file extends the tree unless it replaces a directory or a link. -/
theorem extends_set_file (bytes : List UInt8) (hdirectory : tree.entry? location ≠ some .directory)
    (hlink : ∀ target, tree.entry? location ≠ some (.link target)) :
    tree.Extends (tree.set location (.file bytes)) := by
  have hne : location ≠ [] := by
    rintro rfl
    exact hdirectory (entryAt_nil tree)
  refine ⟨rfl, fun place h => ?_, fun place target h => ?_, fun place others h => ?_⟩
  · exact entryAt_set_of_directory (fun h => absurd h hdirectory) h
  · have hplace : place ≠ location := by
      rintro rfl
      exact hlink target h
    rw [entryAt_set_of_ne hplace, h]
  · by_cases hplace : place = location
    · exact ⟨bytes, by rw [hplace, entryAt_set_self hne]⟩
    · exact ⟨others, by rw [entryAt_set_of_ne hplace, h]⟩

end

end GoldenFixtures.FileTree
