import GoldenFixtures.Proofs.FileTree.Entries
import GoldenFixtures.Proofs.Json.ReadShape

/-!
# Where paths lead

`FileTree.Leads tree links place steps location` says that the steps lead from a
place to a location, over so many links.  A path denotes a file or directory
exactly if its steps lead there over no more links than may be followed
(`locate_eq_ok_iff`).

There are three groups.

* The relation.  Steps are followed one part after the other (`Leads.append`,
  `Leads.split`), and they lead to the same place in a tree with more in it
  (`Leads.mono`).
* The relation and the search for a place.  `leads_of_follow` and
  `follow_of_leads` are its two directions.
* Joined paths.  A path that goes on with a name leads through a directory that
  has an entry with the name (`exists_of_locate_join`), which it denotes unless
  that is a link (`locate_join`, `eq_of_locate_join`).  There is a bound on the
  number of names (`length_lt_of_locate_joinAll`).
-/

namespace GoldenFixtures.FileTree

open GoldenFixtures.Path (Step)

theorem directory_ne_link (target : Path) : Entry.directory ≠ .link target := nofun

theorem file_ne_link (bytes : List UInt8) (target : Path) : Entry.file bytes ≠ .link target :=
  nofun

/-- Steps lead from a place to a location over a number of links, and everything
on the way is there. -/
inductive Leads (tree : FileTree) : (links : Nat) → Location → List Step → Location → Prop where
  | done {place : Location} : Leads tree 0 place [] place
  | stay {links : Nat} {place location : Location} {step : Step} {rest : List Step} :
    tree.entry? place = some .directory → step = .here ∨ step = .slash →
    Leads tree links place rest location → Leads tree links place (step :: rest) location
  | up {links : Nat} {place location : Location} {rest : List Step} :
    tree.entry? place = some .directory → Leads tree links place.dropLast rest location →
    Leads tree links place (.up :: rest) location
  | enter {links : Nat} {place location : Location} {name : String} {rest : List Step}
    {entry : Entry} :
    tree.entry? place = some .directory → name.utf8ByteSize ≤ maxNameSize →
    tree.entry? (place ++ [name]) = some entry → (∀ target, entry ≠ .link target) →
    Leads tree links (place ++ [name]) rest location →
    Leads tree links place (.name name :: rest) location
  | jump {links : Nat} {place location : Location} {name : String} {rest : List Step}
    {target : Path} :
    tree.entry? place = some .directory → name.utf8ByteSize ≤ maxNameSize →
    tree.entry? (place ++ [name]) = some (.link target) →
    Leads tree links (start target place) (target.steps ++ rest) location →
    Leads tree (links + 1) place (.name name :: rest) location

namespace Leads

variable {tree : FileTree} {links more : Nat} {place middle location other : Location}
  {front back steps : List Step}

/-- Steps are followed one part after the other. -/
theorem append (h : tree.Leads links place front middle)
    (hback : tree.Leads more middle back location) :
    tree.Leads (links + more) place (front ++ back) location := by
  induction h with
  | done => simpa using hback
  | stay hplace hstep _ ih => exact .stay hplace hstep (ih hback)
  | up hplace _ ih => exact .up hplace (ih hback)
  | enter hplace hsize hentry hlink _ ih => exact .enter hplace hsize hentry hlink (ih hback)
  | jump hplace hsize hentry _ ih =>
    have hrest := ih hback
    rw [List.append_assoc] at hrest
    rw [Nat.add_right_comm]
    exact .jump hplace hsize hentry hrest

/-- No steps lead to the place that one is at. -/
theorem split_nil (h : tree.Leads links place steps location) (hsteps : steps = back) :
    ∃ before behind middle, links = before + behind ∧ tree.Leads before place [] middle ∧
      tree.Leads behind middle back location :=
  ⟨0, links, place, (Nat.zero_add links).symm, .done, hsteps ▸ h⟩

/-- Steps that lead to a place lead to one in the middle first.  Where a link is followed,
its own steps come in front of those up to the middle. -/
theorem split (h : tree.Leads links place steps location) (hsteps : steps = front ++ back) :
    ∃ before behind middle, links = before + behind ∧ tree.Leads before place front middle ∧
      tree.Leads behind middle back location := by
  induction h generalizing front with
  | done =>
    obtain ⟨rfl, rfl⟩ := List.append_eq_nil_iff.mp hsteps.symm
    exact split_nil .done rfl
  | stay hplace hstep hrest ih =>
    cases front with
    | nil => exact split_nil (.stay hplace hstep hrest) hsteps
    | cons first front =>
      obtain ⟨rfl, rfl⟩ := List.cons.inj hsteps
      obtain ⟨before, behind, middle, hlinks, hfront, hback⟩ := ih rfl
      exact ⟨before, behind, middle, hlinks, .stay hplace hstep hfront, hback⟩
  | up hplace hrest ih =>
    cases front with
    | nil => exact split_nil (.up hplace hrest) hsteps
    | cons first front =>
      obtain ⟨rfl, rfl⟩ := List.cons.inj hsteps
      obtain ⟨before, behind, middle, hlinks, hfront, hback⟩ := ih rfl
      exact ⟨before, behind, middle, hlinks, .up hplace hfront, hback⟩
  | enter hplace hsize hentry hlink hrest ih =>
    cases front with
    | nil => exact split_nil (.enter hplace hsize hentry hlink hrest) hsteps
    | cons first front =>
      obtain ⟨rfl, rfl⟩ := List.cons.inj hsteps
      obtain ⟨before, behind, middle, hlinks, hfront, hback⟩ := ih rfl
      exact ⟨before, behind, middle, hlinks, .enter hplace hsize hentry hlink hfront, hback⟩
  | @jump links place location name rest target hplace hsize hentry hrest ih =>
    cases front with
    | nil => exact split_nil (.jump hplace hsize hentry hrest) hsteps
    | cons first front =>
      obtain ⟨rfl, rfl⟩ := List.cons.inj hsteps
      obtain ⟨before, behind, middle, hlinks, hfront, hback⟩ :=
        ih (List.append_assoc target.steps front back).symm
      exact ⟨before + 1, behind, middle, by omega, .jump hplace hsize hentry hfront, hback⟩

/-- Steps lead to the same place in a tree with more in it. -/
theorem mono {after : FileTree} (h : tree.Leads links place steps location)
    (hextends : tree.Extends after) : after.Leads links place steps location := by
  induction h with
  | done => exact .done
  | stay hplace hstep _ ih => exact .stay (hextends.directory _ hplace) hstep ih
  | up hplace _ ih => exact .up (hextends.directory _ hplace) ih
  | enter hplace hsize hentry hlink _ ih =>
    obtain ⟨other, hother, hothers⟩ := hextends.exists_entry hentry hlink
    exact .enter (hextends.directory _ hplace) hsize hother hothers ih
  | jump hplace hsize hentry _ ih =>
    exact .jump (hextends.directory _ hplace) hsize (hextends.link _ _ hentry) ih

/-- Steps lead on from directories only. -/
theorem eq_of_ne_directory (h : tree.Leads links place steps location)
    (hplace : tree.entry? place ≠ some .directory) : location = place := by
  cases h with
  | done => rfl
  | stay hdirectory _ _ => exact absurd hdirectory hplace
  | up hdirectory _ => exact absurd hdirectory hplace
  | enter hdirectory _ _ _ _ => exact absurd hdirectory hplace
  | jump hdirectory _ _ _ => exact absurd hdirectory hplace

/-- Steps with a slash at their end lead to a directory. -/
theorem entryAt_of_slash (h : tree.Leads links place steps location)
    (hsteps : steps = front ++ [.slash]) : tree.entry? location = some .directory := by
  obtain ⟨_, _, middle, -, -, hslash⟩ := h.split hsteps
  cases hslash with
  | stay hdirectory _ hdone =>
    cases hdone
    exact hdirectory

/-- A name leads to an entry of the directory that it is followed in. -/
theorem of_name {name : String} (h : tree.Leads links place [.name name] location) :
    tree.entry? place = some .directory ∧ tree.entry? (place ++ [name]) ≠ none := by
  cases h with
  | stay _ hstep _ => exact absurd hstep (by simp)
  | enter hplace _ hentry _ _ => exact ⟨hplace, by rw [hentry]; exact nofun⟩
  | jump hplace _ hentry _ => exact ⟨hplace, by rw [hentry]; exact nofun⟩

end Leads

/-! ## The search for a place -/

section

variable {tree : FileTree} {purpose : Purpose} {links : Nat} {place location : Location}
  {step : Step} {rest steps : List Step} {target : Target} {path : Path} {entry : Entry}
  {jump : Location → List Step → Except FileError Target}

/-- What a walk does at a name, in a directory that may have an entry with it. -/
inductive WalksName (tree : FileTree) (purpose : Purpose)
    (jump : Location → List Step → Except FileError Target) (place : Location) (name : String)
    (rest : List Step) (target : Target) : Prop where
  | link {link : Path} : tree.entry? (place ++ [name]) = some (.link link) →
    jump (start link place) (link.steps ++ rest) = .ok target →
    WalksName tree purpose jump place name rest target
  | entry {entry : Entry} : tree.entry? (place ++ [name]) = some entry →
    (∀ link, entry ≠ .link link) →
    walk tree purpose jump (place ++ [name]) rest = .ok target →
    WalksName tree purpose jump place name rest target
  | free : tree.entry? (place ++ [name]) = none →
    rest = [] ∧ target = ⟨place ++ [name], false⟩ ∨
      rest = [.slash] ∧ purpose = .find ∧ target = ⟨place ++ [name], true⟩ →
    WalksName tree purpose jump place name rest target

/-- What a walk does at a step, if it arrives somewhere. -/
theorem walk_cons_cases (h : walk tree purpose jump place (step :: rest) = .ok target) :
    step = .slash ∧ rest = [] ∧ target = ⟨place, true⟩ ∨
      tree.entry? place = some .directory ∧
        ((step = .here ∨ step = .slash) ∧ walk tree purpose jump place rest = .ok target ∨
          step = .up ∧ walk tree purpose jump place.dropLast rest = .ok target ∨
          ∃ name, step = .name name ∧ ¬ (purpose = .write ∧ rest = [.slash]) ∧
            name.utf8ByteSize ≤ maxNameSize ∧
            WalksName tree purpose jump place name rest target) := by
  unfold walk at h
  split at h
  · rename_i hnil
    exact nomatch hnil
  · rename_i hslash
    cases hslash
    cases h
    exact Or.inl ⟨rfl, rfl, rfl⟩
  rename_i first behind hsteps _ hcons
  obtain ⟨rfl, rfl⟩ := List.cons.inj hcons
  right
  split at h
  · exact nomatch h
  rename_i hplace
  refine ⟨Decidable.not_not.mp hplace, ?_⟩
  cases step with
  | here => exact Or.inl ⟨Or.inl rfl, h⟩
  | slash => exact Or.inl ⟨Or.inr rfl, h⟩
  | up => exact Or.inr (Or.inl ⟨rfl, h⟩)
  | name name =>
    simp only at h
    split at h
    · exact nomatch h
    rename_i hwrite
    split at h
    · exact nomatch h
    rename_i hsize
    refine Or.inr (Or.inr ⟨name, rfl, hwrite, Nat.le_of_not_lt hsize, ?_⟩)
    split at h
    · rename_i hentry
      exact .link hentry h
    · rename_i hlink hentry
      exact .entry hentry hlink h
    · rename_i hfree
      split at h
      · cases h
        exact .free hfree (Or.inl ⟨rfl, rfl⟩)
      · cases h
        cases purpose with
        | find => exact .free hfree (Or.inr ⟨rfl, rfl, rfl⟩)
        | write => exact absurd ⟨rfl, rfl⟩ hwrite
      · exact nomatch h

/-- Following steps over some links is a walk whose jumps follow one link
less. -/
theorem follow_succ (tree : FileTree) (purpose : Purpose) (links : Nat) (place : Location)
    (steps : List Step) :
    tree.follow purpose (links + 1) place steps =
      walk tree purpose (tree.follow purpose links) place steps :=
  rfl

/-- A walk arrives where its steps lead, if the jumps of the walk do.  They lead
there in a tree that has something at the place, such as the tree of the walk
after a file was put there. -/
theorem leads_of_walk {after : FileTree} (hextends : tree.Extends after)
    (hslash : target.slash = true → after.entry? target.location = some .directory)
    (hentry : after.entry? target.location = some entry) (hlink : ∀ link, entry ≠ .link link)
    (hjump : ∀ place steps, jump place steps = .ok target →
      ∃ count < links, after.Leads count place steps target.location)
    (h : walk tree purpose jump place steps = .ok target) :
    ∃ count ≤ links, after.Leads count place steps target.location := by
  induction steps generalizing place with
  | nil =>
    cases h
    exact ⟨0, Nat.zero_le _, .done⟩
  | cons step rest ih =>
    rcases walk_cons_cases h with ⟨rfl, rfl, rfl⟩ | ⟨hplace, hstep⟩
    · exact ⟨0, Nat.zero_le _, .stay (hslash rfl) (Or.inr rfl) .done⟩
    · have hplace := hextends.directory _ hplace
      rcases hstep with ⟨hstep, hwalk⟩ | ⟨rfl, hwalk⟩ | ⟨name, rfl, -, hsize, hname⟩
      · obtain ⟨count, hcount, hrest⟩ := ih hwalk
        exact ⟨count, hcount, .stay hplace hstep hrest⟩
      · obtain ⟨count, hcount, hrest⟩ := ih hwalk
        exact ⟨count, hcount, .up hplace hrest⟩
      · cases hname with
        | link hfound hwalk =>
          obtain ⟨count, hcount, hrest⟩ := hjump _ _ hwalk
          exact ⟨count + 1, hcount, .jump hplace hsize (hextends.link _ _ hfound) hrest⟩
        | entry hfound hfoundLink hwalk =>
          obtain ⟨other, hother, hotherLink⟩ := hextends.exists_entry hfound hfoundLink
          obtain ⟨count, hcount, hrest⟩ := ih hwalk
          exact ⟨count, hcount, .enter hplace hsize hother hotherLink hrest⟩
        | free _ hend =>
          rcases hend with ⟨rfl, rfl⟩ | ⟨rfl, _, rfl⟩
          · exact ⟨0, Nat.zero_le _, .enter hplace hsize hentry hlink .done⟩
          · exact ⟨0, Nat.zero_le _, .enter hplace hsize hentry hlink
              (.stay (hslash rfl) (Or.inr rfl) .done)⟩

theorem leads_of_follow {after : FileTree} (hextends : tree.Extends after)
    (hslash : target.slash = true → after.entry? target.location = some .directory)
    (hentry : after.entry? target.location = some entry) (hlink : ∀ link, entry ≠ .link link)
    (h : tree.follow purpose links place steps = .ok target) :
    ∃ count ≤ links, after.Leads count place steps target.location := by
  induction links generalizing place steps with
  | zero =>
    have hjump : ∀ place steps, (Except.error .tooManyLinks : Except FileError Target) =
        .ok target → ∃ count < 0, after.Leads count place steps target.location :=
      fun _ _ hjump => nomatch hjump
    exact leads_of_walk hextends hslash hentry hlink hjump h
  | succ links ih =>
    refine leads_of_walk hextends hslash hentry hlink (fun place steps hjump => ?_) h
    obtain ⟨count, hcount, hleads⟩ := ih hjump
    exact ⟨count, Nat.lt_succ_of_le hcount, hleads⟩

/-- Following steps is a walk, however many links are left. -/
theorem exists_follow_eq_walk (tree : FileTree) (purpose : Purpose) (links : Nat) :
    ∃ jump, tree.follow purpose links = walk tree purpose jump := by
  cases links with
  | zero => exact ⟨_, rfl⟩
  | succ links => exact ⟨_, rfl⟩

theorem follow_stay (hplace : tree.entry? place = some .directory)
    (hstep : step = .here ∨ step = .slash) (hrest : rest ≠ []) :
    tree.follow purpose links place (step :: rest) = tree.follow purpose links place rest := by
  obtain ⟨jump, hfollow⟩ := exists_follow_eq_walk tree purpose links
  obtain ⟨next, rest, rfl⟩ := List.exists_cons_of_ne_nil hrest
  rw [hfollow, walk.eq_def]
  rcases hstep with rfl | rfl
  · exact if_neg (not_not.mpr hplace)
  · exact if_neg (not_not.mpr hplace)

theorem follow_up (hplace : tree.entry? place = some .directory) :
    tree.follow purpose links place (.up :: rest) =
      tree.follow purpose links place.dropLast rest := by
  obtain ⟨jump, hfollow⟩ := exists_follow_eq_walk tree purpose links
  rw [hfollow, walk.eq_def]
  exact if_neg (not_not.mpr hplace)

/-- A walk at a name. -/
theorem walk_name (name : String) :
    walk tree purpose jump place (.name name :: rest) =
      if tree.entry? place ≠ some .directory then .error .notDirectory
      else if purpose = .write ∧ rest = [.slash] then .error .isDirectory
      else if maxNameSize < name.utf8ByteSize then .error .nameTooLong
      else
        match tree.entry? (place ++ [name]) with
        | some (.link target) => jump (start target place) (target.steps ++ rest)
        | some _ => walk tree purpose jump (place ++ [name]) rest
        | none =>
          match rest with
          | [] => .ok ⟨place ++ [name], false⟩
          | [.slash] => .ok ⟨place ++ [name], true⟩
          | _ => .error .notFound :=
  walk.eq_def tree purpose jump place (.name name :: rest)

theorem follow_enter {name : String} (hplace : tree.entry? place = some .directory)
    (hwrite : ¬ (purpose = .write ∧ rest = [.slash])) (hsize : name.utf8ByteSize ≤ maxNameSize)
    (hentry : tree.entry? (place ++ [name]) = some entry) (hlink : ∀ target, entry ≠ .link target) :
    tree.follow purpose links place (.name name :: rest) =
      tree.follow purpose links (place ++ [name]) rest := by
  obtain ⟨jump, hfollow⟩ := exists_follow_eq_walk tree purpose links
  rw [hfollow, walk_name, if_neg (not_not.mpr hplace), if_neg hwrite,
    if_neg (Nat.not_lt.mpr hsize), hentry]
  cases entry with
  | link target => exact absurd rfl (hlink target)
  | file bytes => rfl
  | directory => rfl

theorem follow_jump {name : String} {link : Path} (hplace : tree.entry? place = some .directory)
    (hwrite : ¬ (purpose = .write ∧ rest = [.slash])) (hsize : name.utf8ByteSize ≤ maxNameSize)
    (hentry : tree.entry? (place ++ [name]) = some (.link link)) :
    tree.follow purpose (links + 1) place (.name name :: rest) =
      tree.follow purpose links (start link place) (link.steps ++ rest) := by
  rw [follow_succ, walk_name, if_neg (not_not.mpr hplace), if_neg hwrite,
    if_neg (Nat.not_lt.mpr hsize), hentry]

/-- Steps are followed to where they lead, if there are links enough left.  For
writing they are followed to what is no directory, so no slash is at their end. -/
theorem follow_of_leads {count : Nat} (h : tree.Leads count place steps location)
    (hcount : count ≤ links) (hpurpose : purpose = .write → tree.entry? location ≠ some .directory) :
    ∃ slash, tree.follow purpose links place steps = .ok ⟨location, slash⟩ ∧
      (slash = true → tree.entry? location = some .directory) := by
  induction h generalizing links with
  | done =>
    obtain ⟨jump, hfollow⟩ := exists_follow_eq_walk tree purpose links
    exact ⟨false, by rw [hfollow]; rfl, nofun⟩
  | @stay _ place location step rest hplace hstep hrest ih =>
    cases rest with
    | nil =>
      cases hrest
      obtain ⟨jump, hfollow⟩ := exists_follow_eq_walk tree purpose links
      rw [hfollow, walk.eq_def]
      rcases hstep with rfl | rfl
      · exact ⟨false, if_neg (not_not.mpr hplace), nofun⟩
      · exact ⟨true, rfl, fun _ => hplace⟩
    | cons next rest =>
      rw [follow_stay hplace hstep (List.cons_ne_nil next rest)]
      exact ih hcount hpurpose
  | up hplace _ ih =>
    rw [follow_up hplace]
    exact ih hcount hpurpose
  | @enter _ _ _ _ rest _ hplace hsize hentry hlink hrest ih =>
    have hwrite : ¬ (purpose = .write ∧ rest = [Step.slash]) := fun h =>
      hpurpose h.1 (hrest.entryAt_of_slash (h.2.trans (List.nil_append _).symm))
    rw [follow_enter hplace hwrite hsize hentry hlink]
    exact ih hcount hpurpose
  | @jump _ place location name rest link hplace hsize hentry hrest ih =>
    have hwrite : ¬ (purpose = .write ∧ rest = [Step.slash]) := fun h =>
      hpurpose h.1 (hrest.entryAt_of_slash (congrArg (link.steps ++ ·) h.2))
    obtain ⟨links, rfl⟩ := Nat.exists_eq_add_of_le' (Nat.le_trans (Nat.le_add_left 1 _) hcount)
    rw [follow_jump hplace hwrite hsize hentry]
    exact ih (Nat.le_of_succ_le_succ hcount) hpurpose

/-! ## Paths -/

theorem target_eq_ok_iff :
    tree.target purpose path = .ok target ↔
      checkPath path = .ok () ∧
        tree.follow purpose maxLinks (start path tree.home) path.steps = .ok target := by
  unfold FileTree.target
  rw [Json.bind_eq_ok]
  exact ⟨fun ⟨_, hcheck, hfollow⟩ => ⟨hcheck, hfollow⟩,
    fun ⟨hcheck, hfollow⟩ => ⟨_, hcheck, hfollow⟩⟩

/-- What a path denotes is the entry of the place that it leads to.  A slash at its
end asks for no file. -/
theorem exists_target_of_locate (h : tree.locate path = .ok (location, entry)) :
    ∃ slash, tree.target .find path = .ok ⟨location, slash⟩ ∧ tree.entry? location = some entry ∧
      (slash = true → ∀ bytes, entry ≠ .file bytes) := by
  unfold locate at h
  obtain ⟨⟨place, slash⟩, htarget, hfound⟩ := Json.bind_eq_ok.mp h
  simp only at hfound
  split at hfound
  · exact nomatch hfound
  · rename_i bytes hentry
    split at hfound
    · exact nomatch hfound
    · rename_i hslash
      cases hfound
      exact ⟨slash, htarget, hentry, fun h => absurd h hslash⟩
  · rename_i found hfile hentry
    cases hfound
    exact ⟨slash, htarget, hentry, fun _ bytes => hfile bytes⟩

theorem entryAt_of_locate (h : tree.locate path = .ok (location, entry)) :
    tree.entry? location = some entry := by
  obtain ⟨_, _, hentry, _⟩ := exists_target_of_locate h
  exact hentry

/-- A path denotes a file or directory exactly if it leads there over no more
links than may be followed. -/
theorem locate_eq_ok_iff (hlink : ∀ target, entry ≠ .link target) :
    tree.locate path = .ok (location, entry) ↔
      checkPath path = .ok () ∧ tree.entry? location = some entry ∧
        ∃ count ≤ maxLinks, tree.Leads count (start path tree.home) path.steps location := by
  constructor
  · intro h
    obtain ⟨slash, htarget, hentry, hslash⟩ := exists_target_of_locate h
    obtain ⟨hcheck, hfollow⟩ := target_eq_ok_iff.mp htarget
    refine ⟨hcheck, hentry,
      leads_of_follow (.refl tree) (fun hslashed => ?_) hentry hlink hfollow⟩
    cases entry with
    | file bytes => exact absurd rfl (hslash hslashed bytes)
    | directory => exact hentry
    | link link => exact absurd rfl (hlink link)
  · rintro ⟨hcheck, hentry, count, hcount, hleads⟩
    have hfind : Purpose.find = .write → tree.entry? location ≠ some .directory := nofun
    obtain ⟨slash, hfollow, hslash⟩ := follow_of_leads hleads hcount hfind
    refine Json.bind_eq_ok.mpr ⟨⟨location, slash⟩, target_eq_ok_iff.mpr ⟨hcheck, hfollow⟩, ?_⟩
    simp only [hentry]
    cases entry with
    | file bytes =>
      cases slash with
      | false => rfl
      | true => exact absurd (hentry.symm.trans (hslash rfl)) (by simp)
    | directory => rfl
    | link link => exact absurd rfl (hlink link)

theorem isDirectory_eq_true_iff {path : Path} :
    tree.isDirectory path = true ↔ ∃ location, tree.locate path = .ok (location, .directory) := by
  unfold FileTree.isDirectory
  constructor
  · intro h
    split at h
    · rename_i location hlocate
      exact ⟨location, hlocate⟩
    · exact nomatch h
  · rintro ⟨location, hlocate⟩
    rw [hlocate]

theorem isFile_eq_true_iff {path : Path} :
    tree.isFile path = true ↔ ∃ location bytes, tree.locate path = .ok (location, .file bytes) := by
  unfold FileTree.isFile
  constructor
  · intro h
    split at h
    · rename_i location bytes hlocate
      exact ⟨location, bytes, hlocate⟩
    · exact nomatch h
  · rintro ⟨location, bytes, hlocate⟩
    rw [hlocate]

theorem readBytes_of_locate {bytes : List UInt8}
    (h : tree.locate path = .ok (location, .file bytes)) : tree.readBytes path = .ok bytes := by
  have hentry := entryAt_of_locate h
  have hbytes : tree.bytesAt location = .ok bytes := by
    unfold bytesAt
    rw [hentry]
  exact Json.bind_eq_ok.mpr ⟨_, h, hbytes⟩

theorem readBytes_eq_ok_iff {bytes : List UInt8} :
    tree.readBytes path = .ok bytes ↔ ∃ location, tree.locate path = .ok (location, .file bytes) := by
  constructor
  · intro h
    obtain ⟨⟨location, entry⟩, hlocate, hbytes⟩ := Json.bind_eq_ok.mp h
    have hentry := entryAt_of_locate hlocate
    unfold bytesAt at hbytes
    simp only [hentry] at hbytes
    cases entry with
    | file contents =>
      cases hbytes
      exact ⟨location, hlocate⟩
    | directory => exact nomatch hbytes
    | link target => exact nomatch hbytes
  · intro h
    obtain ⟨location, hlocate⟩ := h
    exact readBytes_of_locate hlocate

theorem readText_of_locate {bytes : List UInt8}
    (h : tree.locate path = .ok (location, .file bytes)) :
    tree.readText path =
      match Text.decode? bytes with
      | some text => .ok (String.ofList text)
      | none => .error .notText := by
  unfold readText
  rw [readBytes_of_locate h]
  rfl

/-- A path denotes one place. -/
theorem location_unique {other : Entry} (h : tree.locate path = .ok (location, entry))
    (hother : tree.locate path = .ok (place, other)) : location = place :=
  (Prod.mk.inj (Except.ok.inj (h.symm.trans hother))).1

/-! ## Joined paths -/

theorem checkPath_eq_ok_iff :
    checkPath path = .ok () ↔ path ≠ "" ∧ path.utf8ByteSize ≤ maxPathSize := by
  unfold checkPath
  split
  · rename_i hempty
    simp [hempty]
  · rename_i hempty
    split
    · rename_i hsize
      simp [hempty, Nat.not_le.mpr hsize]
    · rename_i hsize
      simp [hempty, Nat.le_of_not_lt hsize]

/-- The steps of a path lead to a directory if those of its body do. -/
theorem Leads.steps_of_body {count : Nat} (h : tree.Leads count place path.body location)
    (hentry : tree.entry? location = some .directory) :
    tree.Leads count place path.steps location := by
  rcases Path.steps_cases path with hsteps | hsteps
  · rwa [hsteps]
  · rw [hsteps]
    exact h.append (.stay hentry (Or.inr rfl) .done)

/-- The steps of the body of a path lead where all of its steps do. -/
theorem Leads.body_of_steps {count : Nat} (h : tree.Leads count place path.steps location) :
    ∃ fewer ≤ count, tree.Leads fewer place path.body location := by
  rcases Path.steps_cases path with hsteps | hsteps
  · exact ⟨count, Nat.le_refl count, hsteps ▸ h⟩
  · obtain ⟨before, behind, middle, hlinks, hbody, hslash⟩ := h.split hsteps
    cases hslash with
    | stay _ _ hdone =>
      cases hdone
      exact ⟨before, by omega, hbody⟩

/-- The entry of a directory which is no link is denoted by the path that goes on with its
name, unless that is too long. -/
theorem locate_join {name : String} {here : Location} (hname : Path.IsName name)
    (hhere : tree.locate path = .ok (here, .directory))
    (hentry : tree.entry? (here ++ [name]) = some entry) (hlink : ∀ target, entry ≠ .link target)
    (hsize : name.utf8ByteSize ≤ maxNameSize)
    (hjoin : (Path.join path name).utf8ByteSize ≤ maxPathSize) :
    tree.locate (Path.join path name) = .ok (here ++ [name], entry) := by
  obtain ⟨hcheck, hdirectory, count, hcount, hleads⟩ :=
    (locate_eq_ok_iff directory_ne_link).mp hhere
  obtain ⟨fewer, hfewer, hbody⟩ := hleads.body_of_steps
  have hsteps := hbody.append (.enter hdirectory hsize hentry hlink .done)
  refine (locate_eq_ok_iff hlink).mpr
    ⟨checkPath_eq_ok_iff.mpr ⟨Path.join_ne_empty path hname, hjoin⟩, hentry, fewer, by omega, ?_⟩
  rw [Path.steps_join hname, start, Path.isAbsolute_join (checkPath_eq_ok_iff.mp hcheck).1]
  exact hsteps

/-- A path that goes on with a name leads through a directory, and from there on by
the name. -/
theorem exists_leads_of_locate_join {name : String} (hpath : path ≠ "")
    (hname : Path.IsName name) (hlink : ∀ target, entry ≠ .link target)
    (h : tree.locate (Path.join path name) = .ok (location, entry)) :
    ∃ here count, tree.locate path = .ok (here, .directory) ∧
      tree.Leads count here [.name name] location := by
  obtain ⟨hcheck, -, count, hcount, hleads⟩ := (locate_eq_ok_iff hlink).mp h
  rw [Path.steps_join hname, start, Path.isAbsolute_join hpath] at hleads
  obtain ⟨before, behind, here, hlinks, hbody, hlast⟩ := hleads.split rfl
  obtain ⟨hentry, -⟩ := hlast.of_name
  have hsize : path.utf8ByteSize ≤ maxPathSize :=
    Nat.le_trans (Path.utf8ByteSize_le_join path name) (checkPath_eq_ok_iff.mp hcheck).2
  refine ⟨here, behind, (locate_eq_ok_iff directory_ne_link).mpr
    ⟨checkPath_eq_ok_iff.mpr ⟨hpath, hsize⟩, hentry, before, by omega,
      hbody.steps_of_body hentry⟩, hlast⟩

/-- A path that goes on with a name leads through a directory, which has an entry
with the name. -/
theorem exists_of_locate_join {name : String} (hpath : path ≠ "") (hname : Path.IsName name)
    (hlink : ∀ target, entry ≠ .link target)
    (h : tree.locate (Path.join path name) = .ok (location, entry)) :
    ∃ here, tree.locate path = .ok (here, .directory) ∧ name ∈ tree.names here := by
  obtain ⟨here, _, hlocate, hlast⟩ := exists_leads_of_locate_join hpath hname hlink h
  exact ⟨here, hlocate, mem_names_iff.mpr hlast.of_name.2⟩

/-- A path that goes on with the name of an entry which is no link denotes that entry, if
anything. -/
theorem eq_of_locate_join {name : String} {here : Location} {found : Entry}
    (hname : Path.IsName name) (hhere : tree.locate path = .ok (here, .directory))
    (hentry : tree.entry? (here ++ [name]) = some entry) (hlink : ∀ target, entry ≠ .link target)
    (hfound : ∀ target, found ≠ .link target)
    (h : tree.locate (Path.join path name) = .ok (location, found)) :
    location = here ++ [name] ∧ found = entry := by
  have hpath : path ≠ "" :=
    (checkPath_eq_ok_iff.mp ((locate_eq_ok_iff directory_ne_link).mp hhere).1).1
  obtain ⟨place, _, hplace, hlast⟩ := exists_leads_of_locate_join hpath hname hfound h
  obtain rfl := location_unique hhere hplace
  cases hlast with
  | stay _ hstep _ => exact absurd hstep (by simp)
  | enter _ _ _ _ hrest =>
    cases hrest
    exact ⟨rfl, Option.some.inj ((entryAt_of_locate h).symm.trans hentry)⟩
  | jump _ _ hjump _ => exact absurd (Option.some.inj (hentry.symm.trans hjump)) (hlink _)

/-- Names lead no deeper than links and the height of the tree allow: between two
links each name leads one level down. -/
theorem Leads.length_le {names : List String} {count : Nat}
    (h : tree.Leads count place (names.map Step.name) location) :
    names.length ≤ (tree.height - place.length) + count * (tree.height + 1) := by
  induction count using Nat.strongRecOn generalizing names place with
  | ind count ihLinks =>
    induction names generalizing place with
    | nil => simp
    | cons name names ih =>
      cases h with
      | stay _ hstep _ => exact absurd hstep (by simp)
      | enter _ _ hentry _ hrest =>
        have hthere : tree.entry? (place ++ [name]) ≠ none := by
          rw [hentry]
          exact nofun
        have hlength := length_le_height hthere
        have hbound := ih hrest
        rw [List.length_append, List.length_singleton] at hlength hbound
        rw [List.length_cons]
        omega
      | @jump links _ _ _ _ link _ _ _ hrest =>
        obtain ⟨before, behind, middle, hlinks, _, hback⟩ := hrest.split rfl
        have hbound := ihLinks behind (by omega) hback
        have hless : behind * (tree.height + 1) ≤ links * (tree.height + 1) :=
          Nat.mul_le_mul_right _ (by omega)
        rw [List.length_cons, Nat.succ_mul]
        omega

/-- A path that denotes anything has fewer names below its root than this. -/
theorem length_lt_of_locate_joinAll {names : List String}
    (hnames : ∀ name ∈ names, Path.IsName name) (hlink : ∀ target, entry ≠ .link target)
    (h : tree.locate (Path.joinAll path names) = .ok (location, entry)) :
    names.length < (maxLinks + 1) * (tree.height + 1) := by
  obtain ⟨-, -, count, hcount, hleads⟩ := (locate_eq_ok_iff hlink).mp h
  obtain ⟨slash, hsteps⟩ : ∃ slash, (Path.joinAll path names).steps =
      path.body ++ (names.map Step.name ++ slash) := by
    simp only [← List.append_assoc, ← Path.body_joinAll hnames]
    rcases Path.steps_cases (Path.joinAll path names) with hsteps | hsteps
    · exact ⟨[], by rw [hsteps, List.append_nil]⟩
    · exact ⟨_, hsteps⟩
  rw [hsteps] at hleads
  obtain ⟨_, behind, middle, hlinks, _, hrest⟩ := hleads.split rfl
  obtain ⟨below, _, _, hbelow, hdown, _⟩ := hrest.split rfl
  have hbound := hdown.length_le
  have hless : below * (tree.height + 1) ≤ maxLinks * (tree.height + 1) :=
    Nat.mul_le_mul_right _ (by omega)
  rw [Nat.succ_mul]
  omega

end

end GoldenFixtures.FileTree
