import GoldenFixtures.Command.SbomMerge
import GoldenFixtures.Proofs.FileTree.Directories

/-!
# What `sbom-merge` changes

The tool writes the file of its output, and creates the directories that the file lies
in if they are missing.  It changes nothing else, and the output holds the merge of the
files as they were when the tool started (`isFramed_run`), since all of them are read
before anything is written.
-/

namespace GoldenFixtures.Command.SbomMerge

section

variable {context : Context} {tree after : FileTree} {options : Options} {path : Path}
  {failure : Option Failure} {outcome : Outcome} {text : String}

/-- The merge of the documents as they are when the tool starts. -/
def mergedText (context : Context) (options : Options) : String :=
  (Sbom.mergeTree context.tree options.root).render

/-- The directories that a file is to lie in are there or can be created, and then the
file can be written. -/
def CanWrite (tree : FileTree) (path : Path) : Prop :=
  (createParents tree path).2 = none ∧
    ∃ location, (createParents tree path).1.writable path = .ok location

/-- What a run may change and what it leaves behind. -/
structure IsFramed (context : Context) (options : Options) (outcome : Outcome) : Prop where
  /-- A place that changes is that of the output, or one of a directory above it that
  was missing. -/
  changed : ∀ place, outcome.tree.entry? place ≠ context.tree.entry? place →
    ∃ path, options.out = some path ∧
      (outcome.tree.Denotes path place ∨
        context.tree.entry? place = none ∧
          ∃ upper, upper.IsAbove path ∧ outcome.tree.locate upper = .ok (place, .directory))
  /-- A run fails only at its settings and at its output. -/
  succeeds : outcome.code = 0 ↔
    (∃ settings, Settings.read context.environment = .ok settings) ∧
      ∀ path, options.out = some path → CanWrite context.tree path
  /-- After a run without an error the output holds the merge. -/
  merged : outcome.code = 0 →
    match options.out with
    | none => outcome.stdout = mergedText context options
    | some path =>
      outcome.stdout = "" ∧
        outcome.tree.readBytes path = .ok (Text.encode (mergedText context options).toList)

/-! ## The directories of the output -/

theorem createsDirectories_createParents (tree : FileTree) (path : Path) :
    FileTree.CreatesDirectories (·.IsAbove path) tree (createParents tree path).1 := by
  unfold createParents
  split
  · exact .refl
  · rename_i parent hparent
    split
    · exact .refl
    · exact (FileTree.createsDirectories_createDirectories tree parent).mono fun _ h =>
        FileTree.isAbove_of_isUpTo hparent h

/-! ## The output -/

/-- Where a file can be written, it is, and otherwise only its directories are created. -/
theorem writeTo_cases (tree : FileTree) (path : Path) (text : String) :
    (¬ CanWrite tree path ∧
        ∃ failure, writeTo tree path text = ((createParents tree path).1, some failure)) ∨
      CanWrite tree path ∧
        ∃ location, (createParents tree path).1.writable path = .ok location ∧
          writeTo tree path text =
            ((createParents tree path).1.set location (.file (Text.encode text.toList)), none) := by
  unfold writeTo CanWrite
  cases hcreated : createParents tree path with
  | mk created failure =>
    cases failure with
    | some failure => exact Or.inl ⟨(fun h => nomatch h.1), failure, rfl⟩
    | none =>
      dsimp only
      cases hwrite : created.write path (Text.encode text.toList) with
      | error error =>
        refine Or.inl ⟨?_, ⟨path, error⟩, rfl⟩
        rintro ⟨-, location, hlocation⟩
        exact nomatch hwrite.symm.trans (FileTree.write_eq_ok_iff.mpr ⟨location, hlocation, rfl⟩)
      | ok written =>
        obtain ⟨location, hlocation, rfl⟩ := FileTree.write_eq_ok_iff.mp hwrite
        exact Or.inr ⟨⟨rfl, location, hlocation⟩, location, hlocation, rfl⟩

/-- What is new or otherwise behind the creation of directories and the writing of a
file. -/
theorem denotes_or_directory_of_set {created : FileTree} {location place : Location}
    (hwf : created.IsWellFormed) (hgains : tree.GainsDirectories created (·.IsAbove path))
    (hlocation : created.writable path = .ok location) (bytes : List UInt8)
    (hplace : FileTree.entry? (created.set location (.file bytes)) place ≠ tree.entry? place) :
    (created.set location (.file bytes)).Denotes path place ∨
      tree.entry? place = none ∧ ∃ upper, upper.IsAbove path ∧
        (created.set location (.file bytes)).locate upper = .ok (place, .directory) := by
  by_cases hcreated : FileTree.entry? (created.set location (.file bytes)) place =
      created.entry? place
  · rw [hcreated] at hplace
    obtain ⟨hfree, upper, habove, hlocate⟩ := hgains.gained place hplace
    have hfile := FileTree.isFilePlace_of_writable hwf hlocation
    exact Or.inr ⟨hfree, upper, habove,
      FileTree.locate_directory_of_extends (hfile.extends bytes) hlocate⟩
  · exact Or.inl (FileTree.denotes_of_set_file hwf hlocation hcreated)

/-- A run that has a file for its output. -/
theorem isFramed_run_of_out {settings : Settings} (hwf : context.tree.IsWellFormed)
    (hsettings : Settings.read context.environment = .ok settings) (hout : options.out = some path) :
    IsFramed context options (run context options) := by
  have hcreates := createsDirectories_createParents context.tree path
  have hcan : (∀ other, options.out = some other → CanWrite context.tree other) ↔
      CanWrite context.tree path := by
    rw [hout]
    exact ⟨fun h => h path rfl, fun h other hother => Option.some.inj hother ▸ h⟩
  unfold run withSettings
  simp only [hsettings, hout]
  rcases writeTo_cases context.tree path (Sbom.mergeTree context.tree options.root).render with
    ⟨hcannot, failure, hwrite⟩ | ⟨hwritable, location, hlocation, hwrite⟩
  · rw [hwrite]
    refine ⟨fun place h => ⟨path, hout, Or.inr (hcreates.gainsDirectories.gained place h)⟩, ?_,
      nofun⟩
    exact ⟨nofun, fun h => absurd (hcan.mp h.2) hcannot⟩
  · rw [hwrite]
    have hcreated := hcreates.isWellFormed hwf
    refine ⟨?_, ?_, ?_⟩
    · intro place h
      exact ⟨path, hout,
        denotes_or_directory_of_set hcreated hcreates.gainsDirectories hlocation _ h⟩
    · exact ⟨fun _ => ⟨⟨settings, hsettings⟩, hcan.mpr hwritable⟩, fun _ => rfl⟩
    · intro _
      rw [hout]
      exact ⟨rfl, FileTree.readBytes_of_locate
        (FileTree.locate_of_writable hcreated hlocation _)⟩

/-- **What a run changes.**  The output and the missing directories above it, and
nothing else.  On success the output holds the merge of what there was at the start. -/
theorem isFramed_run (hwf : context.tree.IsWellFormed) (options : Options) :
    IsFramed context options (run context options) := by
  cases hsettings : Settings.read context.environment with
  | error error =>
    unfold run withSettings
    rw [hsettings]
    refine ⟨fun _ h => absurd rfl h, ⟨nofun, ?_⟩, nofun⟩
    rintro ⟨⟨settings, hread⟩, -⟩
    exact nomatch hsettings.symm.trans hread
  | ok settings =>
    cases hout : options.out with
    | some path => exact isFramed_run_of_out hwf hsettings hout
    | none =>
      unfold run withSettings
      simp only [hsettings, hout]
      refine ⟨fun _ h => absurd rfl h, ?_, fun _ => ?_⟩
      · exact ⟨fun _ => ⟨⟨settings, hsettings⟩, fun path h => nomatch hout.symm.trans h⟩,
          fun _ => rfl⟩
      · rw [hout]
        rfl

end

end GoldenFixtures.Command.SbomMerge
