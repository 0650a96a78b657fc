import Mathlib.Data.List.Induction
import Mathlib.Tactic.SplitIfs
import GoldenFixtures.FileTree.Path

/-!
# Joined paths

A path that is joined from a path and names of entries has the steps of the
path and then one for each name (`steps_join`, `body_joinAll`), and it starts
where the path does (`isAbsolute_join`).  The slash at the end of a path does not
count in front of a name, so the steps in front of the names are those of `body`.

`parts` are the texts between the slashes of a path.  They tell paths apart that
are joined from one root (`parts_joinAll`).
-/

namespace GoldenFixtures.Path

/-- A name that an entry of a directory can have. -/
structure IsName (name : String) : Prop where
  ne_empty : name ≠ ""
  ne_here : name ≠ "."
  ne_up : name ≠ ".."
  slash_notMem : '/' ∉ name.toList

instance (name : String) : Decidable (IsName name) :=
  decidable_of_iff (name ≠ "" ∧ name ≠ "." ∧ name ≠ ".." ∧ '/' ∉ name.toList)
    ⟨fun ⟨hempty, hhere, hup, hslash⟩ => ⟨hempty, hhere, hup, hslash⟩,
      fun h => ⟨h.ne_empty, h.ne_here, h.ne_up, h.slash_notMem⟩⟩

/-- The texts between the slashes of a path. -/
def parts (path : Path) : List String := path.segments.filter (· ≠ "")

/-- The steps of a path without the slash at its end. -/
def body (path : Path) : List Step := path.segments.filterMap Step.ofSegment?

/-! ## Cutting at slashes -/

theorem splitSlashes_ne_nil (text : List Char) : splitSlashes text ≠ [] := by
  cases text with
  | nil => simp [splitSlashes]
  | cons c text =>
    rw [splitSlashes]
    split
    · simp
    · split <;> simp

/-- A text is cut at a slash into what it cuts in front of it and behind it. -/
theorem splitSlashes_append_slash (text rest : List Char) :
    splitSlashes (text ++ '/' :: rest) = splitSlashes text ++ splitSlashes rest := by
  induction text with
  | nil => simp [splitSlashes]
  | cons c text ih =>
    rw [List.cons_append, splitSlashes, splitSlashes]
    by_cases hslash : c = '/'
    · rw [if_pos hslash, if_pos hslash, ih, List.cons_append]
    · rw [if_neg hslash, if_neg hslash, ih]
      cases hsplit : splitSlashes text with
      | nil => exact absurd hsplit (splitSlashes_ne_nil text)
      | cons segment segments => rfl

theorem splitSlashes_of_notMem {text : List Char} (h : '/' ∉ text) :
    splitSlashes text = [text] := by
  induction text with
  | nil => rfl
  | cons c text ih =>
    rw [List.mem_cons, not_or] at h
    rw [splitSlashes, if_neg (Ne.symm h.1), ih h.2]

theorem slash_notMem_of_mem_splitSlashes {text segment : List Char}
    (h : segment ∈ splitSlashes text) : '/' ∉ segment := by
  induction text generalizing segment with
  | nil =>
    rw [List.mem_singleton.mp h]
    exact List.not_mem_nil
  | cons c text ih =>
    rw [splitSlashes] at h
    split at h
    · rcases List.mem_cons.mp h with rfl | h
      · simp
      · exact ih h
    · rename_i hslash
      cases hsplit : splitSlashes text with
      | nil => exact absurd hsplit (splitSlashes_ne_nil text)
      | cons first segments =>
        rw [hsplit] at h
        rcases List.mem_cons.mp h with rfl | h
        · have hmem : first ∈ splitSlashes text := by
            rw [hsplit]
            exact List.mem_cons_self
          simp [ih hmem, Ne.symm hslash]
        · exact ih (by rw [hsplit]; exact List.mem_cons_of_mem _ h)

/-- A step that asks for a name asks for one that an entry can have. -/
theorem isName_of_mem_body {path : Path} {name : String} (h : Step.name name ∈ body path) :
    IsName name := by
  obtain ⟨segment, hsegment, hstep⟩ := List.mem_filterMap.mp h
  obtain ⟨text, htext, rfl⟩ := List.mem_map.mp hsegment
  unfold Step.ofSegment? at hstep
  split at hstep
  · exact nomatch hstep
  split at hstep
  · exact nomatch hstep
  split at hstep
  · exact nomatch hstep
  rename_i hempty hhere hup
  cases hstep
  refine ⟨hempty, hhere, hup, ?_⟩
  rw [String.toList_ofList]
  exact slash_notMem_of_mem_splitSlashes htext

theorem steps_eq (path : Path) :
    path.steps =
      match path.body.getLast? with
      | some (.name _) =>
        if path.toList.getLast? = some '/' then path.body ++ [Step.slash] else path.body
      | _ => path.body :=
  rfl

/-- The steps of a path are those of its body and perhaps a slash. -/
theorem steps_cases (path : Path) :
    path.steps = path.body ∨ path.steps = path.body ++ [Step.slash] := by
  rw [steps_eq]
  split
  · split
    · exact Or.inr rfl
    · exact Or.inl rfl
  · exact Or.inl rfl

theorem slash_notMem_body (path : Path) : Step.slash ∉ path.body := by
  intro h
  obtain ⟨segment, -, hstep⟩ := List.mem_filterMap.mp h
  unfold Step.ofSegment? at hstep
  split_ifs at hstep <;> simp at hstep

theorem filter_steps (path : Path) : path.steps.filter (· ≠ Step.slash) = path.body := by
  have hbody : path.body.filter (· ≠ Step.slash) = path.body := by
    rw [List.filter_eq_self]
    intro step hstep
    rw [decide_eq_true_iff]
    rintro rfl
    exact slash_notMem_body path hstep
  rcases steps_cases path with hsteps | hsteps
  · rw [hsteps, hbody]
  · rw [hsteps, List.filter_append, hbody]
    simp

/-- The slash at the end of a path stands behind a name. -/
theorem steps_ne_slash (path : Path) : path.steps ≠ [Step.slash] := by
  intro h
  rcases steps_cases path with hsteps | hsteps
  · apply slash_notMem_body path
    rw [← hsteps, h]
    exact List.mem_singleton_self _
  · have hbody : path.body = [] := by
      rw [h] at hsteps
      simpa using hsteps
    have hnil : path.steps = [] := by
      rw [steps_eq, hbody]
      rfl
    rw [hnil] at h
    exact nomatch h

theorem isName_of_mem_steps {path : Path} {name : String} (h : Step.name name ∈ steps path) :
    IsName name := by
  have hbody : Step.name name ∈ body path := by
    rcases steps_cases path with hsteps | hsteps
    · rwa [hsteps] at h
    · rw [hsteps] at h
      simpa using h
  exact isName_of_mem_body hbody

/-! ## One name -/

section

variable {path : Path} {name : String}

/-- The segments of a joined path are those of the path, up to empty ones, and
the name. -/
theorem segments_join (path : Path) (hname : '/' ∉ name.toList) :
    ∃ front, (join path name).segments = front ++ [name] ∧
      (path.segments = front ∨ path.segments = front ++ [""]) := by
  have hlast : splitSlashes name.toList = [name.toList] := splitSlashes_of_notMem hname
  unfold segments join
  split
  · rename_i hend
    rcases hend with rfl | hend
    · exact ⟨[], by simp [hlast], Or.inr rfl⟩
    · obtain ⟨front, hfront⟩ := List.getLast?_eq_some_iff.mp hend
      refine ⟨(splitSlashes front).map String.ofList, ?_, Or.inr ?_⟩
      · rw [String.toList_append, hfront, List.append_assoc, List.singleton_append,
          splitSlashes_append_slash, hlast]
        simp
      · rw [hfront, splitSlashes_append_slash]
        simp [splitSlashes]
  · refine ⟨(splitSlashes path.toList).map String.ofList, ?_, Or.inl rfl⟩
    have htext : (path ++ "/" ++ name).toList = path.toList ++ '/' :: name.toList := by
      simp [String.toList_append]
    rw [htext, splitSlashes_append_slash, hlast]
    simp

theorem parts_join (hname : IsName name) : (join path name).parts = path.parts ++ [name] := by
  obtain ⟨front, hjoin, hpath⟩ := segments_join path hname.slash_notMem
  have hparts : path.parts = front.filter (· ≠ "") := by
    unfold parts
    rcases hpath with hpath | hpath
    · rw [hpath]
    · rw [hpath, List.filter_append]
      simp
  rw [hparts]
  unfold parts
  rw [hjoin, List.filter_append]
  simp [hname.ne_empty]

theorem body_join (hname : IsName name) :
    (join path name).body = path.body ++ [Step.name name] := by
  obtain ⟨front, hjoin, hpath⟩ := segments_join path hname.slash_notMem
  have hbody : path.body = front.filterMap Step.ofSegment? := by
    unfold body
    rcases hpath with hpath | hpath
    · rw [hpath]
    · rw [hpath, List.filterMap_append]
      simp [Step.ofSegment?]
  rw [hbody]
  unfold body
  rw [hjoin, List.filterMap_append]
  simp [Step.ofSegment?, hname.ne_empty, hname.ne_here, hname.ne_up]

theorem toList_join_ne_nil (path : Path) (hname : IsName name) : (join path name).toList ≠ [] := by
  have hne : name.toList ≠ [] := fun h => hname.ne_empty (String.toList_eq_nil_iff.mp h)
  unfold join
  split <;> simp [String.toList_append, hname.ne_empty]

theorem join_ne_empty (path : Path) (hname : IsName name) : join path name ≠ "" :=
  fun h => toList_join_ne_nil path hname (by rw [h]; rfl)

/-- A joined path does not end with a slash. -/
theorem getLast?_join (path : Path) (hname : IsName name) :
    (join path name).toList.getLast? ≠ some '/' := by
  have hne : name.toList ≠ [] := fun h => hname.ne_empty (String.toList_eq_nil_iff.mp h)
  have hlast : ∀ front : List Char, (front ++ name.toList).getLast? ≠ some '/' := by
    intro front h
    rw [List.getLast?_append, List.getLast?_eq_some_getLast hne, Option.some_or] at h
    rw [← List.getLast?_eq_some_getLast hne] at h
    exact hname.slash_notMem (List.mem_of_getLast? h)
  unfold join
  split
  · rw [String.toList_append]
    exact hlast _
  · rw [String.toList_append]
    exact hlast _

theorem steps_join (hname : IsName name) :
    (join path name).steps = path.body ++ [Step.name name] := by
  rw [← body_join hname, steps_eq, if_neg (getLast?_join path hname)]
  split
  · rfl
  · rfl

theorem isAbsolute_join (hpath : path ≠ "") (name : String) :
    (join path name).isAbsolute = path.isAbsolute := by
  have hne : path.toList ≠ [] := fun h => hpath (String.toList_eq_nil_iff.mp h)
  unfold isAbsolute join
  split <;> simp [String.toList_append, List.head?_append, List.head?_eq_some_head hne]

theorem utf8ByteSize_le_join (path : Path) (name : String) :
    path.utf8ByteSize ≤ (join path name).utf8ByteSize := by
  unfold join
  split
  · rw [String.utf8ByteSize_append]
    omega
  · rw [String.utf8ByteSize_append, String.utf8ByteSize_append]
    omega

end

/-! ## Several names -/

section

variable {path : Path} {names : List String}

theorem joinAll_append_singleton (path : Path) (names : List String) (name : String) :
    joinAll path (names ++ [name]) = join (joinAll path names) name := by
  unfold joinAll
  rw [List.foldl_append, List.foldl_cons, List.foldl_nil]

theorem parts_joinAll (hnames : ∀ name ∈ names, IsName name) :
    (joinAll path names).parts = path.parts ++ names := by
  induction names using List.reverseRecOn with
  | nil => simp [joinAll]
  | append_singleton names name ih =>
    rw [joinAll_append_singleton, parts_join (hnames name (by simp)),
      ih fun other hother => hnames other (List.mem_append_left _ hother), List.append_assoc]

theorem body_joinAll (hnames : ∀ name ∈ names, IsName name) :
    (joinAll path names).body = path.body ++ names.map Step.name := by
  induction names using List.reverseRecOn with
  | nil => simp [joinAll]
  | append_singleton names name ih =>
    rw [joinAll_append_singleton, body_join (hnames name (by simp)),
      ih fun other hother => hnames other (List.mem_append_left _ hother), List.append_assoc,
      List.map_append, List.map_singleton]

theorem joinAll_ne_empty (hpath : path ≠ "") (hnames : ∀ name ∈ names, IsName name) :
    joinAll path names ≠ "" := by
  cases names using List.reverseRecOn with
  | nil => exact hpath
  | append_singleton names name =>
    rw [joinAll_append_singleton]
    exact join_ne_empty _ (hnames name (by simp))

end

end GoldenFixtures.Path
