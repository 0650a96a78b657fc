import GoldenFixtures.Proofs.FileTree.Resolve

/-!
# Writing files

A file is written to a place in a directory where there is a file or nothing
(`isFilePlace_of_writable`), so nothing else changes: paths denote the directories
that they denoted, and the files as well, except for the one that was written
(`locate_set_directory_iff`, `locate_set_file_iff`).  The path that it was written
by denotes it then (`locate_of_writable`).

A tree stays well-formed, whether files are written or directories and links created
(`IsWellFormed.write`, `IsWellFormed.createDirectory`, `IsWellFormed.createLink`).
-/

namespace GoldenFixtures.FileTree

open GoldenFixtures.Path (Step)

section

variable {tree : FileTree} {links : Nat} {place location other : Location} {steps : List Step}
  {target : Target} {path : Path} {entry : Entry} {bytes contents : List UInt8}

/-! ## Where a file is written -/

/-- Steps may lead to a target: it lies in a directory, and no link is there.  A
slash asks for a directory. -/
structure IsReached (tree : FileTree) (target : Target) : Prop where
  isName : ∀ name ∈ target.location, Path.IsName name
  parent : tree.entry? target.location.dropLast = some .directory
  notLink : ∀ path, tree.entry? target.location ≠ some (.link path)
  slash : target.slash = true → tree.entry? target.location = some .directory

/-- Steps that may be followed for writing: they ask for names, and not for a slash
alone. -/
structure AreWritable (steps : List Step) : Prop where
  isName : ∀ name, Step.name name ∈ steps → Path.IsName name
  ne_slash : steps ≠ [Step.slash]

theorem areWritable_steps (path : Path) : AreWritable path.steps :=
  ⟨fun _ => Path.isName_of_mem_steps, Path.steps_ne_slash path⟩

/-- The path of a link in the stead of its name. -/
theorem areWritable_jump (hnames : ∀ name, Step.name name ∈ steps → Path.IsName name)
    (hslash : steps ≠ [Step.slash]) (link : Path) : AreWritable (link.steps ++ steps) := by
  constructor
  · intro name hname
    rcases List.mem_append.mp hname with hlink | hrest
    · exact Path.isName_of_mem_steps hlink
    · exact hnames name hrest
  · intro hall
    rcases List.append_eq_singleton_iff.mp hall with ⟨_, hrest⟩ | ⟨hlink, _⟩
    · exact hslash hrest
    · exact Path.steps_ne_slash link hlink

theorem IsWellFormed.isReached (hwf : tree.IsWellFormed)
    (hentry : tree.entry? location = some entry) (hlink : ∀ path, entry ≠ .link path) :
    tree.IsReached ⟨location, false⟩ := by
  have hne : tree.entry? location ≠ none := by
    rw [hentry]
    exact nofun
  refine ⟨hwf.isName_of_entryAt hne, hwf.entryAt_dropLast hne, fun path hpath => ?_, nofun⟩
  exact hlink path (Option.some.inj (hentry.symm.trans hpath))

/-- A walk for writing from a place that was reached reaches another. -/
theorem isReached_of_walk {jump : Location → List Step → Except FileError Target}
    (hwf : tree.IsWellFormed)
    (hjump : ∀ place steps, tree.entry? place = some .directory → AreWritable steps →
      jump place steps = .ok target → tree.IsReached target)
    (hplace : tree.IsReached ⟨place, false⟩)
    (hnames : ∀ name, Step.name name ∈ steps → Path.IsName name)
    (hslash : steps = [.slash] → tree.entry? place = some .directory)
    (h : walk tree .write jump place steps = .ok target) : tree.IsReached target := by
  induction steps generalizing place with
  | nil =>
    cases h
    exact hplace
  | cons step rest ih =>
    have hrest : ∀ name, Step.name name ∈ rest → Path.IsName name := fun name hname =>
      hnames name (List.mem_cons_of_mem _ hname)
    rcases walk_cons_cases h with ⟨rfl, rfl, rfl⟩ | ⟨hdirectory, hstep⟩
    · exact ⟨hplace.isName, hplace.parent, hplace.notLink, fun _ => hslash rfl⟩
    · rcases hstep with ⟨_, hwalk⟩ | ⟨rfl, hwalk⟩ | ⟨name, rfl, hwrite, _, hname⟩
      · exact ih hplace hrest (fun _ => hdirectory) hwalk
      · exact ih (hwf.isReached hplace.parent nofun) hrest (fun _ => hplace.parent) hwalk
      · have hne : rest ≠ [.slash] := fun h => hwrite ⟨rfl, h⟩
        cases hname with
        | @link link _ hwalk =>
          refine hjump _ _ ?_ (areWritable_jump hrest hne link) hwalk
          unfold start
          split
          · exact entryAt_nil tree
          · exact hdirectory
        | entry hentry hlink hwalk =>
          exact ih (hwf.isReached hentry hlink) hrest (fun h => absurd h hne) hwalk
        | free hfree hend =>
          obtain ⟨rfl, rfl⟩ : rest = [] ∧ target = ⟨place ++ [name], false⟩ :=
            hend.resolve_right fun h => hne h.1
          refine ⟨?_, ?_, fun path hpath => ?_, nofun⟩
          · simpa [or_imp, forall_and] using ⟨hplace.isName, hnames name (by simp)⟩
          · rwa [List.dropLast_concat]
          · exact absurd (hfree.symm.trans hpath) nofun

theorem isReached_of_follow (hwf : tree.IsWellFormed) (hplace : tree.entry? place = some .directory)
    (hsteps : AreWritable steps) (h : tree.follow .write links place steps = .ok target) :
    tree.IsReached target := by
  induction links generalizing place steps with
  | zero =>
    have hjump : ∀ place steps, tree.entry? place = some .directory → AreWritable steps →
        (Except.error .tooManyLinks : Except FileError Target) = .ok target →
          tree.IsReached target := fun _ _ _ _ h => nomatch h
    exact isReached_of_walk hwf hjump (hwf.isReached hplace nofun) hsteps.isName
      (fun _ => hplace) h
  | succ links ih =>
    exact isReached_of_walk hwf (fun _ _ => ih) (hwf.isReached hplace nofun) hsteps.isName
      (fun _ => hplace) h

/-- A place for a file: it lies in a directory, and no directory or link is there. -/
structure IsFilePlace (tree : FileTree) (location : Location) : Prop where
  isName : ∀ name ∈ location, Path.IsName name
  parent : tree.entry? location.dropLast = some .directory
  notLink : ∀ path, tree.entry? location ≠ some (.link path)
  notDirectory : tree.entry? location ≠ some .directory

theorem IsWellFormed.entryAt_start (hwf : tree.IsWellFormed) (path : Path) :
    tree.entry? (start path tree.home) = some .directory := by
  unfold start
  split
  · exact entryAt_nil tree
  · exact hwf.home

theorem writable_eq_ok_iff :
    tree.writable path = .ok location ↔
      ∃ target, tree.target .write path = .ok target ∧ target.location = location ∧
        tree.entry? location ≠ some .directory := by
  unfold writable
  rw [Json.bind_eq_ok]
  refine exists_congr fun target => and_congr_right fun _ => ?_
  split
  · rename_i hdirectory
    rw [beq_iff_eq] at hdirectory
    constructor
    · exact fun h => nomatch h
    · rintro ⟨rfl, hne⟩
      exact absurd hdirectory hne
  · rename_i hdirectory
    rw [beq_iff_eq] at hdirectory
    constructor
    · intro h
      cases h
      exact ⟨rfl, hdirectory⟩
    · rintro ⟨rfl, _⟩
      rfl

theorem isFilePlace_of_writable (hwf : tree.IsWellFormed) (h : tree.writable path = .ok location) :
    tree.IsFilePlace location := by
  obtain ⟨target, htarget, rfl, hdirectory⟩ := writable_eq_ok_iff.mp h
  have hreached := isReached_of_follow hwf (hwf.entryAt_start path) (areWritable_steps path)
    (target_eq_ok_iff.mp htarget).2
  exact ⟨hreached.isName, hreached.parent, hreached.notLink, hdirectory⟩

theorem write_eq_ok_iff {after : FileTree} :
    tree.write path bytes = .ok after ↔
      ∃ location, tree.writable path = .ok location ∧ tree.set location (.file bytes) = after := by
  unfold write
  rw [Json.bind_eq_ok]
  exact exists_congr fun location => and_congr_right fun _ => ⟨fun h => Except.ok.inj h,
    fun h => congrArg Except.ok h⟩

/-! ## What paths denote then -/

theorem IsFilePlace.ne_nil (h : tree.IsFilePlace location) : location ≠ [] := by
  rintro rfl
  exact h.notDirectory (entryAt_nil tree)

theorem IsFilePlace.extends (h : tree.IsFilePlace location) (bytes : List UInt8) :
    tree.Extends (tree.set location (.file bytes)) :=
  extends_set_file bytes h.notDirectory h.notLink

theorem IsFilePlace.isWellFormed_set (hwf : tree.IsWellFormed) (h : tree.IsFilePlace location)
    (bytes : List UInt8) : (tree.set location (.file bytes)).IsWellFormed :=
  hwf.set h.isName h.parent fun hdirectory => absurd hdirectory h.notDirectory

/-- A path by which a file was written denotes it. -/
theorem locate_of_writable (hwf : tree.IsWellFormed) (h : tree.writable path = .ok location)
    (bytes : List UInt8) :
    (tree.set location (.file bytes)).locate path = .ok (location, .file bytes) := by
  have hplace := isFilePlace_of_writable hwf h
  obtain ⟨target, htarget, rfl, hdirectory⟩ := writable_eq_ok_iff.mp h
  obtain ⟨hcheck, hfollow⟩ := target_eq_ok_iff.mp htarget
  have hreached := isReached_of_follow hwf (hwf.entryAt_start path) (areWritable_steps path) hfollow
  have hentry : FileTree.entry? (tree.set target.location (.file bytes)) target.location =
      some (.file bytes) := entryAt_set_self hplace.ne_nil _
  exact (locate_eq_ok_iff (file_ne_link bytes)).mpr ⟨hcheck, hentry,
    leads_of_follow (hplace.extends bytes) (fun hslash => absurd (hreached.slash hslash) hdirectory)
      hentry (file_ne_link bytes) hfollow⟩

theorem IsFilePlace.entryAt_of_set (hplace : tree.IsFilePlace location)
    (h : FileTree.entry? (tree.set location (.file bytes)) place = some entry)
    (hfile : ∀ contents, entry ≠ .file contents) : tree.entry? place = some entry :=
  entryAt_of_set_file hplace.ne_nil h hfile

/-- Steps that lead somewhere now led there before, unless they lead to the file that
was written. -/
theorem Leads.of_set_file (hplace : tree.IsFilePlace location)
    (h : (tree.set location (.file bytes)).Leads links place steps other)
    (hother : other ≠ location) : tree.Leads links place steps other := by
  induction h with
  | done => exact .done
  | stay hdirectory hstep _ ih =>
    exact .stay (hplace.entryAt_of_set hdirectory nofun) hstep (ih hother)
  | up hdirectory _ ih => exact .up (hplace.entryAt_of_set hdirectory nofun) (ih hother)
  | @enter _ here there name _ _ hdirectory hsize hentry hlink hrest ih =>
    have hne : here ++ [name] ≠ location := by
      rintro rfl
      refine hother (hrest.eq_of_ne_directory fun h => ?_)
      exact hplace.notDirectory (hplace.entryAt_of_set h nofun)
    rw [entryAt_set_of_ne hne] at hentry
    exact .enter (hplace.entryAt_of_set hdirectory nofun) hsize hentry hlink (ih hother)
  | jump hdirectory hsize hentry _ ih =>
    exact .jump (hplace.entryAt_of_set hdirectory nofun) hsize (hplace.entryAt_of_set hentry nofun)
      (ih hother)

/-- What a path denoted before, and where it denotes something then. -/
theorem locate_of_extends {after : FileTree} (hextends : tree.Extends after)
    (hlink : ∀ target, entry ≠ .link target) (h : tree.locate path = .ok (location, entry)) :
    ∃ other, after.entry? location = some other ∧ after.locate path = .ok (location, other) := by
  obtain ⟨hcheck, hentry, count, hcount, hleads⟩ := (locate_eq_ok_iff hlink).mp h
  obtain ⟨other, hother, hotherLink⟩ := hextends.exists_entry hentry hlink
  refine ⟨other, hother, (locate_eq_ok_iff hotherLink).mpr ⟨hcheck, hother, count, hcount, ?_⟩⟩
  rw [hextends.home]
  exact hleads.mono hextends

theorem locate_directory_of_extends {after : FileTree} (hextends : tree.Extends after)
    (h : tree.locate path = .ok (location, .directory)) :
    after.locate path = .ok (location, .directory) := by
  obtain ⟨other, hentry, hlocate⟩ := locate_of_extends hextends directory_ne_link h
  have hdirectory := hextends.directory _ (entryAt_of_locate h)
  rwa [Option.some.inj (hentry.symm.trans hdirectory)] at hlocate

/-- A path denotes what it denoted before, or the file that was written. -/
theorem locate_of_set_file (hplace : tree.IsFilePlace location)
    (hlink : ∀ target, entry ≠ .link target) (hother : other ≠ location)
    (h : (tree.set location (.file bytes)).locate path = .ok (other, entry)) :
    tree.locate path = .ok (other, entry) := by
  obtain ⟨hcheck, hentry, count, hcount, hleads⟩ := (locate_eq_ok_iff hlink).mp h
  rw [entryAt_set_of_ne hother] at hentry
  exact (locate_eq_ok_iff hlink).mpr
    ⟨hcheck, hentry, count, hcount, hleads.of_set_file hplace hother⟩

/-- A path denotes a directory exactly if it denoted it before. -/
theorem locate_set_directory_iff (hplace : tree.IsFilePlace location) :
    (tree.set location (.file bytes)).locate path = .ok (place, .directory) ↔
      tree.locate path = .ok (place, .directory) := by
  constructor
  · intro h
    refine locate_of_set_file hplace directory_ne_link ?_ h
    rintro rfl
    have hentry := entryAt_of_locate h
    exact hplace.notDirectory (hplace.entryAt_of_set hentry nofun)
  · exact locate_directory_of_extends (hplace.extends bytes)

/-- A path that denotes another file denotes it as before. -/
theorem locate_set_file_iff (hplace : tree.IsFilePlace location) (hother : other ≠ location) :
    (tree.set location (.file bytes)).locate path = .ok (other, .file contents) ↔
      tree.locate path = .ok (other, .file contents) := by
  constructor
  · exact locate_of_set_file hplace (file_ne_link contents) hother
  · intro h
    obtain ⟨entry, hentry, hlocate⟩ :=
      locate_of_extends (hplace.extends bytes) (file_ne_link contents) h
    have hfile := entryAt_of_locate h
    rw [entryAt_set_of_ne hother] at hentry
    rwa [Option.some.inj (hentry.symm.trans hfile)] at hlocate

/-! ## Trees stay well-formed -/

theorem IsWellFormed.write {after : FileTree} (hwf : tree.IsWellFormed)
    (h : tree.write path bytes = .ok after) : after.IsWellFormed := by
  obtain ⟨location, hlocation, rfl⟩ := write_eq_ok_iff.mp h
  exact (isFilePlace_of_writable hwf hlocation).isWellFormed_set hwf bytes

/-- The last name of a path is free in the directory that the steps in front of it lead
to. -/
structure IsFreePlace (tree : FileTree) (path : Path) (front : List Step) (name : String)
    (here : Target) : Prop where
  check : checkPath path = .ok ()
  body : path.body = front ++ [.name name]
  follow : tree.follow .find maxLinks (start path tree.home) front = .ok here
  directory : tree.entry? here.location = some .directory
  size : name.utf8ByteSize ≤ maxNameSize
  free : tree.entry? (here.location ++ [name]) = none

theorem exists_isFreePlace (h : tree.freePlace path = .ok location) :
    ∃ front name here, tree.IsFreePlace path front name here ∧
      location = here.location ++ [name] := by
  unfold freePlace at h
  rw [Path.filter_steps] at h
  obtain ⟨_, hcheck, h⟩ := Json.bind_eq_ok.mp h
  obtain ⟨here, hfollow, h⟩ := Json.bind_eq_ok.mp h
  split at h
  · cases h
  · rename_i hdirectory
    split at h
    · rename_i name hlast
      obtain ⟨front, hbody⟩ := List.getLast?_eq_some_iff.mp hlast
      rw [hbody, List.dropLast_concat] at hfollow
      split at h
      · cases h
      · rename_i hsize
        split at h
        · cases h
        · rename_i hfree
          cases h
          exact ⟨front, name, here, ⟨hcheck, hbody, hfollow, hdirectory, Nat.le_of_not_lt hsize,
            Option.not_isSome_iff_eq_none.mp hfree⟩, rfl⟩
    · cases h
  · cases h

theorem entryAt_of_freePlace (h : tree.freePlace path = .ok location) :
    tree.entry? location = none := by
  obtain ⟨front, name, here, hplace, rfl⟩ := exists_isFreePlace h
  exact hplace.free

theorem IsWellFormed.set_freePlace (hwf : tree.IsWellFormed)
    (h : tree.freePlace path = .ok location) (entry : Entry) :
    (tree.set location entry).IsWellFormed := by
  obtain ⟨front, name, here, hplace, rfl⟩ := exists_isFreePlace h
  have hname : Path.IsName name := Path.isName_of_mem_body (by rw [hplace.body]; simp)
  have hnames : ∀ other ∈ here.location, Path.IsName other :=
    hwf.isName_of_entryAt (by rw [hplace.directory]; exact nofun)
  refine hwf.set ?_ ?_ fun hdirectory => absurd (hplace.free.symm.trans hdirectory) nofun
  · simpa [or_imp, forall_and] using ⟨hnames, hname⟩
  · rw [List.dropLast_concat]
    exact hplace.directory

theorem IsWellFormed.createDirectory {after : FileTree} (hwf : tree.IsWellFormed)
    (h : tree.createDirectory path = .ok after) : after.IsWellFormed := by
  obtain ⟨location, hlocation, h⟩ := Json.bind_eq_ok.mp h
  cases h
  exact hwf.set_freePlace hlocation .directory

theorem IsWellFormed.createLink {link : Path} {after : FileTree} (hwf : tree.IsWellFormed)
    (h : tree.createLink path link = .ok after) : after.IsWellFormed := by
  obtain ⟨location, hlocation, h⟩ := Json.bind_eq_ok.mp h
  cases h
  exact hwf.set_freePlace hlocation (.link link)

end

end GoldenFixtures.FileTree
