import GoldenFixtures.Proofs.Command.NormalizeTranscripts.Steps

/-!
# Normalizing transcripts in place

With `--in-place` alone, `normalize-transcripts` brings one file after the other
into its normal form, up to the first that has none (`run_inPlace`).  `Rewrites`
says what one step does to the tree, and what it keeps is kept by all steps
(`tree_of_steps`).  Several paths may denote one file, which is then rewritten more
than once; since a normal form that has a normal form is its own one, what was
written stays (`Rewrites.holdsNormal`).  So a second run finds every file up to the
same path as it would write it (`tree_steps_of_settled`).
-/

namespace GoldenFixtures.Command.NormalizeTranscripts

/-- The options ask for files to be rewritten, and for nothing else. -/
structure Options.RewritesInPlace (options : Options) : Prop where
  inPlace : options.inPlace = true
  check : options.check = false
  output : options.output = none

/-- The second tree has the file of a path in its normal form, and all else as the
first one. -/
inductive Rewrites (tree : FileTree) (path : Path) (after : FileTree) : Prop where
  | intro {location : Location} {text output : String} :
    tree.locate path = .ok (location, .file (Text.encode text.toList)) →
    Transcript.normalize text = .ok output →
    after.entry? location = some (.file (Text.encode output.toList)) →
    (∀ place, place ≠ location → after.entry? place = tree.entry? place) →
    tree.SameLayout after → Rewrites tree path after

/-- The file at a place holds a normal form. -/
def HoldsNormal (tree : FileTree) (location : Location) (output : String) : Prop :=
  tree.entry? location = some (.file (Text.encode output.toList)) ∧
    ∃ text, Transcript.normalize text = .ok output

/-- The file of a path is not changed by normalizing it. -/
def IsSettled (tree : FileTree) (path : Path) : Prop :=
  ∀ text output, Normalizes tree path text output → output = text

section

variable {context : Context} {options : Options} {progress after last : Progress}
  {tree : FileTree} {path : Path} {paths done rest before behind : List Path} {failure : Failure}
  {location place : Location} {text output : String} {next : FileTree}

/-! ## A step -/

theorem place_inPlace (hoptions : options.RewritesInPlace) (progress : Progress) (path : Path)
    (output : String) (changed : Bool) :
    NormalizeTranscripts.place options progress path output changed =
      if changed then writeTo progress path output else .ok progress := by
  unfold NormalizeTranscripts.place
  simp [hoptions.check, hoptions.output, hoptions.inPlace]

/-- A file with a normal form is rewritten. -/
theorem exists_of_normalizes (hoptions : options.RewritesInPlace)
    (h : Normalizes progress.tree path text output) :
    ∃ after, step options progress path = .ok after ∧ Rewrites progress.tree path after.tree := by
  obtain ⟨location, hlocate⟩ := FileTree.exists_of_readText h.read
  have hentry := FileTree.entryAt_of_locate hlocate
  rw [step_of_normalizes options h, place_inPlace hoptions]
  by_cases hsame : output = text
  · have hchanged : Transcript.isChanged text output = false := by simp [Transcript.isChanged, hsame]
    rw [hchanged]
    refine ⟨progress, rfl, .intro hlocate h.normal ?_ (fun _ _ => rfl) (.refl _)⟩
    rw [hentry, hsame]
  · have hchanged : Transcript.isChanged text output = true := by simp [Transcript.isChanged, hsame]
    have hwrite := FileTree.write_of_locate hlocate (Text.encode output.toList)
    have hne : location ≠ [] := by
      rintro rfl
      exact nomatch (FileTree.entryAt_nil _).symm.trans hentry
    rw [hchanged, if_pos rfl, writeTo, hwrite]
    exact ⟨_, rfl, .intro hlocate h.normal (FileTree.entryAt_set_self hne _)
      (fun place hplace => FileTree.entryAt_set_of_ne hplace _)
      (FileTree.sameLayout_set_file hentry _)⟩

/-- A step rewrites the file of its path, or fails since that has no normal form. -/
theorem step_inPlace (hoptions : options.RewritesInPlace) (progress : Progress) (path : Path) :
    (∃ after, step options progress path = .ok after ∧ Rewrites progress.tree path after.tree) ∨
      ∃ failure, step options progress path = .error failure ∧
        Refuses progress.tree path failure := by
  rcases refuses_or_normalizes progress.tree path with ⟨failure, hrefuses⟩ | ⟨text, output, h⟩
  · exact Or.inr ⟨failure, step_of_refuses options hrefuses, hrefuses⟩
  · exact Or.inl (exists_of_normalizes hoptions h)

theorem rewrites_of_step (hoptions : options.RewritesInPlace)
    (h : step options progress path = .ok after) : Rewrites progress.tree path after.tree := by
  rcases step_inPlace hoptions progress path with ⟨other, hother, hrewrites⟩ | ⟨failure, hfailure, -⟩
  · rwa [Except.ok.inj (h.symm.trans hother)]
  · exact nomatch h.symm.trans hfailure

theorem refuses_of_step (hoptions : options.RewritesInPlace)
    (h : step options progress path = .error failure) : Refuses progress.tree path failure := by
  rcases step_inPlace hoptions progress path with ⟨other, hother, -⟩ | ⟨found, hfound, hrefuses⟩
  · exact nomatch h.symm.trans hother
  · rwa [Except.error.inj (h.symm.trans hfound)]

theorem Rewrites.sameLayout (h : Rewrites tree path next) : tree.SameLayout next := by
  obtain ⟨-, -, -, -, hlayout⟩ := h
  exact hlayout

/-- A file that the path does not denote stays. -/
theorem Rewrites.entryAt_eq (h : Rewrites tree path next) (hplace : ¬ tree.Denotes path place) :
    next.entry? place = tree.entry? place := by
  obtain ⟨hlocate, -, -, hothers, -⟩ := h
  apply hothers
  rintro rfl
  exact hplace ⟨_, hlocate⟩

/-- A normal form stays, since it is its own one. -/
theorem Rewrites.holdsNormal (h : Rewrites tree path next)
    (hholds : HoldsNormal tree location output) : HoldsNormal next location output := by
  obtain ⟨hentry, original, hnormal⟩ := hholds
  obtain ⟨hlocate, hagain, hwritten, hothers, -⟩ := h
  rename_i found text again
  refine ⟨?_, original, hnormal⟩
  by_cases hlocation : location = found
  · subst hlocation
    obtain rfl := FileTree.text_unique hentry (FileTree.entryAt_of_locate hlocate)
    rwa [Transcript.eq_of_normalize_normalize hnormal hagain] at hwritten
  · rw [hothers location hlocation, hentry]

/-! ## All steps -/

/-- What the rewriting of one file keeps is kept by all steps. -/
theorem tree_of_steps {motive : FileTree → Prop} (hoptions : options.RewritesInPlace)
    (h : steps options progress paths = (last, none)) (hfirst : motive progress.tree)
    (hnext : ∀ path ∈ paths, ∀ tree next, Rewrites tree path next → motive tree → motive next) :
    motive last.tree := by
  induction paths generalizing progress with
  | nil =>
    cases h
    exact hfirst
  | cons path paths ih =>
    rw [List.forall_mem_cons] at hnext
    obtain ⟨next, hstep, hrest⟩ := steps_cons_eq_none_iff.mp h
    have hrewrites := rewrites_of_step hoptions hstep
    exact ih hrest (hnext.1 _ _ hrewrites hfirst) hnext.2

theorem sameLayout_steps (hoptions : options.RewritesInPlace)
    (h : steps options progress paths = (last, none)) : progress.tree.SameLayout last.tree := by
  apply tree_of_steps hoptions h (.refl _)
  intro path _ tree next hrewrites hlayout
  exact hlayout.trans hrewrites.sameLayout

/-- Files that no path denotes stay: the layout is kept, so the paths denote all along what
they did at first. -/
theorem entryAt_steps (hoptions : options.RewritesInPlace)
    (h : steps options progress paths = (last, none))
    (hplace : ∀ path ∈ paths, ¬ progress.tree.Denotes path place) :
    last.tree.entry? place = progress.tree.entry? place := by
  refine (tree_of_steps (motive := fun tree => progress.tree.SameLayout tree ∧
    tree.entry? place = progress.tree.entry? place) hoptions h ⟨.refl _, rfl⟩ ?_).2
  intro path hpath tree next hrewrites hkept
  obtain ⟨hlayout, hentry⟩ := hkept
  have hnot : ¬ tree.Denotes path place := by
    rw [← hlayout.denotes_iff]
    exact hplace path hpath
  exact ⟨hlayout.trans hrewrites.sameLayout, (hrewrites.entryAt_eq hnot).trans hentry⟩

theorem holdsNormal_steps (hoptions : options.RewritesInPlace)
    (h : steps options progress paths = (last, none))
    (hholds : HoldsNormal progress.tree location output) :
    HoldsNormal last.tree location output := by
  apply tree_of_steps (motive := fun tree => HoldsNormal tree location output) hoptions h hholds
  intro path _ tree next hrewrites
  exact hrewrites.holdsNormal

/-- A file in the middle ends up in the normal form of what it held when its path
was reached. -/
theorem exists_of_steps_append (hoptions : options.RewritesInPlace)
    (h : steps options progress (before ++ path :: behind) = (last, none)) :
    ∃ location text output, progress.tree.Denotes path location ∧
      FileTree.entry? (steps options progress before).1.tree location =
        some (.file (Text.encode text.toList)) ∧
      Transcript.normalize text = .ok output ∧ HoldsNormal last.tree location output := by
  obtain ⟨middle, hbefore, hmore⟩ := steps_append_eq_none_iff.mp h
  obtain ⟨next, hstep, hbehind⟩ := steps_cons_eq_none_iff.mp hmore
  obtain ⟨hlocate, hnormal, hwritten, -, -⟩ := rewrites_of_step hoptions hstep
  have hdenotes := (sameLayout_steps hoptions hbefore).denotes_iff.mpr ⟨_, hlocate⟩
  rw [hbefore]
  exact ⟨_, _, _, hdenotes, FileTree.entryAt_of_locate hlocate, hnormal,
    holdsNormal_steps hoptions hbehind ⟨hwritten, _, hnormal⟩⟩

/-- The steps end behind the last path or in front of one without a normal form. -/
theorem exists_of_steps_inPlace (hoptions : options.RewritesInPlace) (progress : Progress)
    (paths : List Path) :
    ∃ done rest after failure?, paths = done ++ rest ∧
      steps options progress done = (after, none) ∧
      steps options progress paths = (after, failure?) ∧ (failure? = none ↔ rest = []) ∧
      ∀ path more, rest = path :: more → ∃ failure, Refuses after.tree path failure := by
  obtain ⟨done, rest, after, failure?, hpaths, hdone, hall, hend⟩ :=
    exists_of_steps options progress paths
  refine ⟨done, rest, after, failure?, hpaths, hdone, hall, ?_⟩
  rcases hend with ⟨rfl, rfl⟩ | ⟨path, more, failure, rfl, rfl, hstep⟩
  · simp
  · refine ⟨by simp, ?_⟩
    intro next others hnext
    obtain ⟨rfl, -⟩ := List.cons.inj hnext
    exact ⟨failure, refuses_of_step hoptions hstep⟩

/-! ## Running again -/

/-- A file that holds a normal form is not changed any more. -/
theorem isSettled_of_holdsNormal (hdenotes : tree.Denotes path location)
    (hholds : HoldsNormal tree location output) : IsSettled tree path := by
  obtain ⟨hentry, original, hnormal⟩ := hholds
  intro text again h
  obtain ⟨other, hlocate⟩ := FileTree.exists_of_readText h.read
  obtain rfl := hdenotes.unique ⟨_, hlocate⟩
  obtain rfl := FileTree.text_unique hentry (FileTree.entryAt_of_locate hlocate)
  exact Transcript.eq_of_normalize_normalize hnormal h.normal

theorem isSettled_of_steps (hoptions : options.RewritesInPlace)
    (h : steps options progress paths = (last, none)) : ∀ path ∈ paths, IsSettled last.tree path := by
  intro path hpath
  obtain ⟨before, behind, rfl⟩ := List.append_of_mem hpath
  obtain ⟨location, _, _, hdenotes, -, -, hholds⟩ := exists_of_steps_append hoptions h
  exact isSettled_of_holdsNormal ((sameLayout_steps hoptions h).denotes hdenotes) hholds

theorem step_of_settled (hoptions : options.RewritesInPlace) (h : IsSettled progress.tree path) :
    step options progress path = .ok progress ∨
      ∃ failure, step options progress path = .error failure := by
  rcases refuses_or_normalizes progress.tree path with ⟨failure, hrefuses⟩ | ⟨text, output, hform⟩
  · exact Or.inr ⟨failure, step_of_refuses options hrefuses⟩
  · have hchanged : Transcript.isChanged text output = false := by
      simp [Transcript.isChanged, h text output hform]
    rw [step_of_normalizes options hform, place_inPlace hoptions, hchanged]
    exact Or.inl rfl

/-- Nothing is written while the files are settled, nor behind one without a normal
form. -/
theorem tree_steps_of_settled (hoptions : options.RewritesInPlace)
    (hdone : ∀ path ∈ done, IsSettled progress.tree path)
    (hrest : ∀ path more, rest = path :: more → ∃ failure, Refuses progress.tree path failure) :
    (steps options progress (done ++ rest)).1.tree = progress.tree := by
  induction done with
  | nil =>
    cases rest with
    | nil => rfl
    | cons path more =>
      obtain ⟨failure, hrefuses⟩ := hrest path more rfl
      rw [List.nil_append, steps, step_of_refuses options hrefuses]
  | cons path done ih =>
    rw [List.forall_mem_cons] at hdone
    rw [List.cons_append, steps]
    rcases step_of_settled hoptions hdone.1 with hstep | ⟨failure, hstep⟩
    · rw [hstep]
      exact ih hdone.2
    · rw [hstep]

/-! ## A run -/

theorem conflict?_inPlace (hoptions : options.RewritesInPlace) : options.conflict? = none := by
  unfold Options.conflict?
  simp [hoptions.output, hoptions.inPlace]

theorem run_inPlace_cases {settings : Settings} (hoptions : options.RewritesInPlace)
    (hsettings : Settings.read context.environment = .ok settings) {failure? : Option Failure}
    (hsteps : steps options { tree := context.tree } options.paths = (after, failure?)) :
    (run context options).tree = after.tree ∧
      ((run context options).code = 0 ↔ failure? = none) := by
  have hconflict := conflict?_inPlace hoptions
  cases failure? with
  | none =>
    rw [run_of_end hsettings hconflict hsteps, hoptions.check]
    exact ⟨rfl, fun _ => rfl, fun _ => rfl⟩
  | some failure =>
    rw [run_of_failure hsettings hconflict hsteps]
    refine ⟨stopped_tree _ _ _, ?_⟩
    simp [stopped_code_ne_zero]

/-- The files when the steps over some paths are done. -/
def treeBehind (options : Options) (tree : FileTree) (paths : List Path) : FileTree :=
  (steps options { tree } paths).1.tree

@[simp] theorem treeBehind_nil (options : Options) (tree : FileTree) :
    treeBehind options tree [] = tree :=
  rfl

/-- What came out of a run that went over the paths in `done` and stopped in front
of those in `rest`. -/
structure IsRewritten (context : Context) (options : Options) (done rest : List Path)
    (outcome : Outcome) : Prop where
  paths : options.paths = done ++ rest
  code : outcome.code = 0 ↔ rest = []
  reached : outcome.tree = treeBehind options context.tree done
  /-- The first path that is left denotes no file with a normal form. -/
  refused : ∀ path more, rest = path :: more → ∃ failure, Refuses outcome.tree path failure
  /-- Each file ended up in the normal form of what it held when it was its turn. -/
  rewritten : ∀ before path behind, done = before ++ path :: behind →
    ∃ location text output, context.tree.Denotes path location ∧
      FileTree.entry? (treeBehind options context.tree before) location =
        some (.file (Text.encode text.toList)) ∧
      Transcript.normalize text = .ok output ∧
      outcome.tree.entry? location = some (.file (Text.encode output.toList))
  /-- All else is as it was. -/
  others : ∀ place, (∀ path ∈ done, ¬ context.tree.Denotes path place) →
    outcome.tree.entry? place = context.tree.entry? place

theorem exists_isRewritten {settings : Settings} (hoptions : options.RewritesInPlace)
    (hsettings : Settings.read context.environment = .ok settings) :
    ∃ done rest, IsRewritten context options done rest (run context options) := by
  obtain ⟨done, rest, after, failure?, hpaths, hdone, hall, hend, hrefused⟩ :=
    exists_of_steps_inPlace hoptions { tree := context.tree } options.paths
  obtain ⟨htree, hcode⟩ := run_inPlace_cases hoptions hsettings hall
  refine ⟨done, rest, hpaths, hcode.trans hend, ?_, ?_, ?_, ?_⟩
  · rw [htree, treeBehind, hdone]
  · rw [htree]
    exact hrefused
  · intro before path behind hsplit
    rw [hsplit] at hdone
    obtain ⟨location, text, output, hdenotes, hheld, hnormal, hholds⟩ :=
      exists_of_steps_append hoptions hdone
    rw [htree]
    exact ⟨location, text, output, hdenotes, hheld, hnormal, hholds.1⟩
  · intro place hplace
    rw [htree]
    exact entryAt_steps hoptions hdone hplace

/-- A second run changes nothing, wherever the first one stopped. -/
theorem tree_run_run {settings : Settings} (hoptions : options.RewritesInPlace)
    (hsettings : Settings.read context.environment = .ok settings) :
    (run { context with tree := (run context options).tree } options).tree =
      (run context options).tree := by
  obtain ⟨done, rest, after, failure?, hpaths, hdone, hall, -, hrefused⟩ :=
    exists_of_steps_inPlace hoptions { tree := context.tree } options.paths
  have htree := (run_inPlace_cases hoptions hsettings hall).1
  have hsettled := isSettled_of_steps hoptions hdone
  have hagain : (steps options { tree := after.tree } (done ++ rest)).1.tree = after.tree :=
    tree_steps_of_settled hoptions hsettled hrefused
  have hread : Settings.read { context with tree := after.tree }.environment = .ok settings :=
    hsettings
  have hlast := (run_inPlace_cases hoptions hread rfl).1
  rw [htree, hlast, hpaths]
  exact hagain

/-- A run with `--in-place` alone brings the files into their normal forms up to the
first that has none, and a second run changes nothing. -/
theorem run_inPlace {line : List String} {arguments : Arguments} {settings : Settings}
    (harguments : Tool.normalizeTranscripts.arguments line = .ok arguments)
    (hplace : arguments.has "in-place" = true) (hcheck : arguments.has "check" = false)
    (houtput : arguments.value? "output" = none)
    (hsettings : Settings.read context.environment = .ok settings) :
    ∃ outcome, Tool.normalizeTranscripts.run context line = outcome ∧
      (∃ done rest, IsRewritten context (.ofArguments arguments) done rest outcome) ∧
      (Tool.normalizeTranscripts.run { context with tree := outcome.tree } line).tree =
        outcome.tree := by
  have hoptions : (Options.ofArguments arguments).RewritesInPlace := ⟨hplace, hcheck, houtput⟩
  refine ⟨run context (.ofArguments arguments), run_of_arguments harguments context,
    exists_isRewritten hoptions hsettings, ?_⟩
  rw [run_of_arguments harguments]
  exact tree_run_run hoptions hsettings

theorem run_inPlace_sample :
    ∃ outcome, Tool.normalizeTranscripts.run sampleContext
        ["a.json", "--in-place", "d.json", "c.json"] = outcome ∧
      outcome.tree.entry? ["a.json"] =
        some (.file (Text.encode Transcript.exchangeNormal.toList)) ∧
      outcome.tree.entry? ["b.json"] = sampleTree.entry? ["b.json"] ∧
      (Tool.normalizeTranscripts.run { sampleContext with tree := outcome.tree }
        ["a.json", "--in-place", "d.json", "c.json"]).tree = outcome.tree := by
  have harguments : Tool.normalizeTranscripts.arguments
      ["a.json", "--in-place", "d.json", "c.json"] =
      .ok ⟨["in-place"], [], ["a.json", "d.json", "c.json"]⟩ := rfl
  have hsettings : Settings.read sampleContext.environment = .ok ⟨"warn", .text⟩ := rfl
  obtain ⟨outcome, hrun, ⟨done, rest, hrewritten⟩, hagain⟩ :=
    run_inPlace harguments rfl rfl rfl hsettings
  have hsample : sampleContext.tree = sampleTree := rfl
  have hlocate : sampleTree.locate "a.json" =
      .ok (["a.json"], .file (Text.encode Transcript.exchange.toList)) := rfl
  have ha : sampleTree.Denotes "a.json" ["a.json"] := ⟨_, hlocate⟩
  have hc : sampleTree.Denotes "c.json" ["a.json"] := ⟨_, rfl⟩
  have hd : sampleTree.Denotes "d.json" ["d.json"] := ⟨_, rfl⟩
  refine ⟨outcome, hrun, ?_, ?_, hagain⟩
  · cases done with
    | nil =>
      obtain ⟨failure, hrefuses⟩ := hrewritten.refused _ _ hrewritten.paths.symm
      rw [hrewritten.reached] at hrefuses
      exact absurd normalizes_a hrefuses.not_normalizes
    | cons path done =>
      obtain ⟨rfl, -⟩ := List.cons.inj hrewritten.paths
      obtain ⟨location, text, output, hdenotes, hheld, hnormal, hwritten⟩ :=
        hrewritten.rewritten [] _ done rfl
      obtain rfl := hdenotes.unique ha
      rw [treeBehind_nil, hsample] at hheld
      obtain rfl := FileTree.text_unique hheld (FileTree.entryAt_of_locate hlocate)
      rw [Except.ok.inj (hnormal.symm.trans Transcript.normalize_exchange)] at hwritten
      exact hwritten
  · apply hrewritten.others
    intro path hpath hdenotes
    have hmem : path ∈ ["a.json", "d.json", "c.json"] := by
      have hall := List.mem_append_left rest hpath
      rwa [← hrewritten.paths] at hall
    simp only [List.mem_cons, List.not_mem_nil, or_false] at hmem
    rcases hmem with rfl | rfl | rfl
    · exact absurd (hdenotes.unique ha) (by decide)
    · exact absurd (hdenotes.unique hd) (by decide)
    · exact absurd (hdenotes.unique hc) (by decide)

end

end GoldenFixtures.Command.NormalizeTranscripts
