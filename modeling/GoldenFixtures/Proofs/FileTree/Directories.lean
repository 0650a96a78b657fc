import Mathlib.Logic.Relation
import GoldenFixtures.Proofs.FileTree.Overwrite

/-!
# Creating directories

A directory is created at a free place, which its path denotes then
(`locate_of_freePlace`).  `GainsDirectories` says that a tree has lost nothing and that
what it has gained are directories that certain paths ask for.

Creating a directory and those above it is to create one directory after the other,
also where an error ends it (`createsDirectories_createDirectories`).  So the tree gains
directories only (`CreatesDirectories.gainsDirectories`) and stays well-formed
(`CreatesDirectories.isWellFormed`).
-/

namespace GoldenFixtures

/-- The path of a directory that an entry lies in, at once or further up. -/
def Path.IsAbove (upper path : Path) : Prop :=
  Relation.TransGen (fun lower upper => Path.parent? lower = some upper) path upper

namespace FileTree

section

variable {tree after last : FileTree} {path parent : Path} {location place : Location}
  {IsAsked IsWanted : Path → Prop}

/-- A path whose last name gets a directory, in the directory that its other steps
lead to, denotes it. -/
theorem locate_of_freePlace (h : tree.freePlace path = .ok location) :
    (tree.set location .directory).locate path = .ok (location, .directory) := by
  obtain ⟨front, name, here, hplace, rfl⟩ := exists_isFreePlace h
  have hextends : tree.Extends (tree.set (here.location ++ [name]) .directory) :=
    .of_kept rfl fun _ _ hentry => entryAt_set_of_free hplace.free hentry _
  have hhere := hextends.directory _ hplace.directory
  have hentry : FileTree.entry? (tree.set (here.location ++ [name]) .directory)
      (here.location ++ [name]) = some .directory := entryAt_set_self (by simp) _
  obtain ⟨count, hcount, hleads⟩ :=
    leads_of_follow hextends (fun _ => hhere) hhere directory_ne_link hplace.follow
  have hbody := hleads.append (.enter hhere hplace.size hentry directory_ne_link .done)
  rw [← hplace.body] at hbody
  exact (locate_eq_ok_iff directory_ne_link).mpr
    ⟨hplace.check, hentry, count, hcount, hbody.steps_of_body hentry⟩

/-! ## Trees with more directories -/

/-- The second tree has what the first one has, and besides directories only, each of
which is asked for by a path. -/
structure GainsDirectories (tree after : FileTree) (IsAsked : Path → Prop) : Prop where
  home : after.home = tree.home
  kept : ∀ place entry, tree.entry? place = some entry → after.entry? place = some entry
  gained : ∀ place, after.entry? place ≠ tree.entry? place →
    tree.entry? place = none ∧
      ∃ path, IsAsked path ∧ after.locate path = .ok (place, .directory)

theorem GainsDirectories.refl (tree : FileTree) : tree.GainsDirectories tree IsAsked :=
  ⟨rfl, fun _ _ h => h, fun _ h => absurd rfl h⟩

theorem GainsDirectories.extends (h : tree.GainsDirectories after IsAsked) : tree.Extends after :=
  .of_kept h.home h.kept

theorem GainsDirectories.trans (h : tree.GainsDirectories after IsAsked)
    (hlast : after.GainsDirectories last IsAsked) : tree.GainsDirectories last IsAsked := by
  refine ⟨hlast.home.trans h.home,
    fun place entry hentry => hlast.kept place entry (h.kept place entry hentry), ?_⟩
  intro place hplace
  by_cases hafter : after.entry? place = tree.entry? place
  · rw [← hafter] at hplace ⊢
    exact hlast.gained place hplace
  · obtain ⟨hfree, path, hpath, hlocate⟩ := h.gained place hafter
    exact ⟨hfree, path, hpath, locate_directory_of_extends hlast.extends hlocate⟩

/-! ## Creating directories -/

/-- One directory is created, which a path asks for. -/
def CreatesDirectory (IsAsked : Path → Prop) (tree after : FileTree) : Prop :=
  ∃ path, IsAsked path ∧ tree.createDirectory path = .ok after

theorem CreatesDirectory.gainsDirectories (h : CreatesDirectory IsAsked tree after) :
    tree.GainsDirectories after IsAsked := by
  obtain ⟨path, hpath, hcreate⟩ := h
  obtain ⟨location, hlocation, hset⟩ := Json.bind_eq_ok.mp hcreate
  obtain rfl := Except.ok.inj hset
  have hfree := entryAt_of_freePlace hlocation
  refine ⟨rfl, fun place entry hentry => entryAt_set_of_free hfree hentry _, ?_⟩
  intro place hplace
  by_cases hsame : place = location
  · rw [hsame]
    exact ⟨hfree, path, hpath, locate_of_freePlace hlocation⟩
  · exact absurd (entryAt_set_of_ne hsame _) hplace

/-- Directories are created one after the other, each of which a path asks for. -/
abbrev CreatesDirectories (IsAsked : Path → Prop) : FileTree → FileTree → Prop :=
  Relation.ReflTransGen (CreatesDirectory IsAsked)

theorem CreatesDirectories.gainsDirectories (h : CreatesDirectories IsAsked tree after) :
    tree.GainsDirectories after IsAsked := by
  induction h with
  | refl => exact .refl tree
  | tail _ hcreate ih => exact ih.trans hcreate.gainsDirectories

/-- Creating directories keeps the tree well-formed. -/
theorem CreatesDirectories.isWellFormed (h : CreatesDirectories IsAsked tree after)
    (hwf : tree.IsWellFormed) : after.IsWellFormed := by
  induction h with
  | refl => exact hwf
  | tail _ hcreate ih =>
    obtain ⟨path, -, hcreate⟩ := hcreate
    exact ih.createDirectory hcreate

theorem CreatesDirectories.mono (h : CreatesDirectories IsAsked tree after)
    (hasked : ∀ path, IsAsked path → IsWanted path) : CreatesDirectories IsWanted tree after := by
  induction h with
  | refl => exact .refl
  | tail _ hcreate ih =>
    obtain ⟨path, hpath, hcreate⟩ := hcreate
    exact ih.tail ⟨path, hasked path hpath, hcreate⟩

/-- A path is asked for: it is a certain one, or lies above it. -/
def IsUpTo (path asked : Path) : Prop := asked = path ∨ asked.IsAbove path

theorem isAbove_of_isUpTo {asked : Path} (hparent : path.parent? = some parent)
    (h : IsUpTo parent asked) : asked.IsAbove path := by
  rcases h with rfl | h
  · exact .single hparent
  · exact .head hparent h

theorem createsDirectories_ensureDirectory (h : tree.ensureDirectory path = .ok after) :
    CreatesDirectories (IsUpTo path) tree after := by
  unfold FileTree.ensureDirectory at h
  split at h
  · rename_i created hcreated
    cases h
    exact .single ⟨path, Or.inl rfl, hcreated⟩
  · split at h
    · cases h
      exact .refl
    · cases h

/-- Directories are created from the outermost to the path itself, all or some of them. -/
theorem createsDirectories_ensureDirectories (parts : Nat) (path : Path) :
    CreatesDirectories (IsUpTo path) tree (ensureDirectories parts tree path).1 := by
  induction parts generalizing path with
  | zero => exact .refl
  | succ parts ih =>
    rw [FileTree.ensureDirectories]
    split
    · rename_i created hcreated
      exact .single ⟨path, Or.inl rfl, hcreated⟩
    · split
      · exact .refl
      · rename_i parent hparent
        have habove : CreatesDirectories (IsUpTo path) tree
            (if parent = "" then (tree, none)
              else FileTree.ensureDirectories parts tree parent).1 := by
          split
          · exact .refl
          · exact (ih parent).mono fun _ h => Or.inr (isAbove_of_isUpTo hparent h)
        simp only
        split
        · exact habove
        · split
          · rename_i ensured hensured
            exact habove.trans (createsDirectories_ensureDirectory hensured)
          · exact habove
    · split
      · exact .refl
      · exact .refl

/-- Creating a directory and those above it creates no others, also where an error ends
it. -/
theorem createsDirectories_createDirectories (tree : FileTree) (path : Path) :
    CreatesDirectories (IsUpTo path) tree (tree.createDirectories path).1 :=
  createsDirectories_ensureDirectories (path.length + 1) path

end

end FileTree

end GoldenFixtures
