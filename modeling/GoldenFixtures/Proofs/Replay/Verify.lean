import GoldenFixtures.Proofs.Replay.Finding
import GoldenFixtures.Replay.Report
import GoldenFixtures.Replay.Verify
import Mathlib.Data.List.Perm.Basic
import Mathlib.Order.Lattice

/-!
# What a run over several paths tells

A run is the runs over its paths, one behind the other, and none of these is empty.
So everything about a whole run comes from its results, and that from the results of
single files.

There are three groups.

* Results.  A file is skipped, or not loaded, which is its one issue, or its document
  is checked, and then no issue is about loading (`isOfOneKind_verifyFile`).
* Exit codes.  `Summary.exitCode_le_iff` says that the exit code is the greatest rank
  of an issue.  The laws of exit codes follow from it alone.
* Reports.  `Summary.length_lines` counts the lines.
-/

namespace GoldenFixtures.Replay

/-! ## Results of files -/

/-- What is told of one file.  It is skipped; or it is not loaded, and nothing else is
told; or what is told is about the fields and the order of its document. -/
def Result.IsOfOneKind (result : Result) : Prop :=
  result.isSkipped = true ∧ result.issues = [] ∨
    (∃ issue, result.outcome = .checked [issue] ∧ issue.severity = .load) ∨
    ∃ issues, result.outcome = .checked issues ∧
      ∀ issue ∈ issues, issue.severity = .schema ∨ issue.severity = .order

theorem Severity.eq_schema_or_order {severity : Severity} (h : severity ≠ .load) :
    severity = .schema ∨ severity = .order := by
  cases severity with
  | load => exact absurd rfl h
  | schema => exact Or.inl rfl
  | order => exact Or.inr rfl

theorem LoadError.severity_finding (error : LoadError) : error.finding.severity = .load := by
  cases error <;> rfl

theorem isOfOneKind_verifyFile (tree : FileTree) (path : Path) :
    (verifyFile tree path).IsOfOneKind := by
  unfold verifyFile
  split
  · rename_i document _
    cases hfindings : findings? document with
    | none =>
      have hskipped : validate document = .skipped := by
        unfold validate
        rw [hfindings]
      rw [hskipped]
      exact Or.inl ⟨rfl, rfl⟩
    | some findings =>
      have hchecked : validate document = .checked (findings.map Finding.toIssue) := by
        unfold validate
        rw [hfindings]
      rw [hchecked]
      refine Or.inr (Or.inr ⟨_, rfl, ?_⟩)
      intro issue hissue
      obtain ⟨finding, hfinding, hsame⟩ := List.mem_map.mp hissue
      have hdocument := isOfDocument_of_mem_findings? hfindings hfinding
      rw [← hsame]
      exact Severity.eq_schema_or_order hdocument.severity_ne_load
  · rename_i error _
    exact Or.inr (Or.inl ⟨_, rfl, error.severity_finding⟩)

theorem candidates_ne_nil (tree : FileTree) (path : Path) : candidates tree path ≠ [] := by
  unfold candidates
  split
  · exact List.cons_ne_nil path []
  · rename_i hdocuments
    exact hdocuments

section

variable {tree : FileTree} {paths : List Path} {result : Result}

theorem exists_of_mem_verify (h : result ∈ verify tree paths) :
    ∃ path, verifyFile tree path = result := by
  obtain ⟨argument, _, hresult⟩ := List.mem_flatMap.mp h
  obtain ⟨path, _, hpath⟩ := List.mem_map.mp hresult
  exact ⟨path, hpath⟩

theorem isOfOneKind_of_mem_verify (h : result ∈ verify tree paths) : result.IsOfOneKind := by
  obtain ⟨path, hpath⟩ := exists_of_mem_verify h
  rw [← hpath]
  exact isOfOneKind_verifyFile tree path

end

theorem verify_append (tree : FileTree) (paths others : List Path) :
    verify tree (paths ++ others) = verify tree paths ++ verify tree others :=
  List.flatMap_append

/-- Every path has a result. -/
theorem verify_singleton_ne_nil (tree : FileTree) (path : Path) : verify tree [path] ≠ [] := by
  have hmap : verify tree [path] = (candidates tree path).map (verifyFile tree) :=
    List.append_nil _
  rw [hmap]
  exact fun h => candidates_ne_nil tree path (List.map_eq_nil_iff.mp h)

/-! ## Exit codes -/

/-- The rank of a severity, and zero for none. -/
def rankOf : Option Severity → Nat
  | none => 0
  | some severity => severity.rank

theorem Severity.rank_worse (a b : Severity) : (worse a b).rank = max a.rank b.rank := by
  unfold worse
  split
  · rename_i h
    exact (Nat.max_eq_right (Nat.le_of_lt h)).symm
  · rename_i h
    exact (Nat.max_eq_left (Nat.le_of_not_lt h)).symm

theorem Severity.one_le_rank (severity : Severity) : 1 ≤ severity.rank := by
  cases severity <;> decide

/-- The worst of some severities has the greatest rank. -/
theorem Severity.rankOf_worst?_le_iff {severities : List Severity} {bound : Nat} :
    rankOf (worst? severities) ≤ bound ↔ ∀ severity ∈ severities, severity.rank ≤ bound := by
  induction severities with
  | nil => simp [worst?, rankOf]
  | cons severity severities ih =>
    rw [List.forall_mem_cons, ← ih, worst?]
    cases worst? severities with
    | none => simp [rankOf]
    | some other =>
      change (worse severity other).rank ≤ bound ↔ _
      rw [rank_worse, Nat.max_le]
      rfl

namespace Summary

variable {summary other : Summary} {bound : Nat}

/-- The ranks of the issues of a run. -/
def ranks (summary : Summary) : List Nat :=
  (summary.flatMap Result.issues).map fun issue => issue.severity.rank

theorem forall_mem_ranks_iff {p : Nat → Prop} :
    (∀ rank ∈ ranks summary, p rank) ↔
      ∀ result ∈ summary, ∀ issue ∈ result.issues, p issue.severity.rank := by
  unfold ranks
  rw [List.forall_mem_map, List.forall_mem_flatMap]

/-- The exit code is the least bound of the ranks. -/
theorem exitCode_le_iff : exitCode summary ≤ bound ↔ ∀ rank ∈ ranks summary, rank ≤ bound := by
  have hcode : exitCode summary = rankOf (worst? summary) := by
    unfold exitCode rankOf
    rfl
  rw [hcode, worst?, Severity.rankOf_worst?_le_iff, forall_mem_ranks_iff]
  constructor
  · intro h result hresult
    have hworst : rankOf result.worst? ≤ bound := by
      cases hsome : result.worst? with
      | none => exact Nat.zero_le bound
      | some severity => exact h severity (List.mem_filterMap.mpr ⟨result, hresult, hsome⟩)
    rw [Result.worst?, Severity.rankOf_worst?_le_iff, List.forall_mem_map] at hworst
    exact hworst
  · intro h severity hseverity
    obtain ⟨result, hresult, hsome⟩ := List.mem_filterMap.mp hseverity
    have hworst : rankOf result.worst? ≤ bound := by
      rw [Result.worst?, Severity.rankOf_worst?_le_iff, List.forall_mem_map]
      exact h result hresult
    rw [hsome] at hworst
    exact hworst

theorem getD_max?_le_iff {ranks : List Nat} :
    ranks.max?.getD 0 ≤ bound ↔ ∀ rank ∈ ranks, rank ≤ bound := by
  cases hmax : ranks.max? with
  | none =>
    rw [List.max?_eq_none_iff.mp hmax]
    simp
  | some greatest =>
    obtain ⟨hmem, hgreatest⟩ := List.max?_eq_some_iff.mp hmax
    constructor
    · intro h rank hrank
      exact Nat.le_trans (hgreatest rank hrank) h
    · intro h
      exact h greatest hmem

theorem exitCode_eq_max? (summary : Summary) : exitCode summary = (ranks summary).max?.getD 0 :=
  eq_of_forall_ge_iff fun _ => exitCode_le_iff.trans getD_max?_le_iff.symm

theorem exitCode_append (summary other : Summary) :
    exitCode (summary ++ other) = max (exitCode summary) (exitCode other) := by
  refine eq_of_forall_ge_iff fun bound => ?_
  have hranks : ranks (summary ++ other) = ranks summary ++ ranks other := by
    unfold ranks
    rw [List.flatMap_append, List.map_append]
  rw [Nat.max_le, exitCode_le_iff, exitCode_le_iff, exitCode_le_iff, hranks,
    List.forall_mem_append]

theorem exitCode_of_perm (h : summary.Perm other) : exitCode summary = exitCode other := by
  refine eq_of_forall_ge_iff fun bound => ?_
  have hranks : (ranks summary).Perm (ranks other) := (h.flatMap_right Result.issues).map _
  rw [exitCode_le_iff, exitCode_le_iff]
  exact forall_congr' fun rank => imp_congr_left hranks.mem_iff

/-- A result has no issues exactly if its file is clean or skipped. -/
theorem issues_eq_nil_iff {result : Result} :
    result.issues = [] ↔ result.isClean = true ∨ result.isSkipped = true := by
  obtain ⟨path, outcome⟩ := result
  cases outcome with
  | skipped => simp [Result.issues, Result.isClean, Result.isSkipped]
  | checked issues => simp [Result.issues, Result.isClean, Result.isSkipped]

theorem exitCode_eq_zero_iff :
    exitCode summary = 0 ↔
      ∀ result ∈ summary, result.isClean = true ∨ result.isSkipped = true := by
  rw [← Nat.le_zero, exitCode_le_iff, forall_mem_ranks_iff]
  refine forall₂_congr fun result _ => ?_
  rw [← issues_eq_nil_iff]
  constructor
  · intro h
    refine List.eq_nil_iff_forall_not_mem.mpr fun issue hissue => ?_
    have hrank := h issue hissue
    have hpositive := issue.severity.one_le_rank
    omega
  · intro h issue hissue
    rw [h] at hissue
    exact nomatch hissue

/-- The least exit code of a failure means that some files were not loaded, and nothing
else. -/
theorem severity_of_exitCode_eq_one (h : exitCode summary = 1) :
    ∀ result ∈ summary, ∀ issue ∈ result.issues, issue.severity = .load := by
  have hranks := forall_mem_ranks_iff.mp (exitCode_le_iff.mp (Nat.le_of_eq h))
  intro result hresult issue hissue
  have hrank := hranks result hresult issue hissue
  cases hseverity : issue.severity with
  | load => rfl
  | schema =>
    rw [hseverity] at hrank
    exact absurd hrank (by decide)
  | order =>
    rw [hseverity] at hrank
    exact absurd hrank (by decide)

/-! ## Reports -/

theorem length_result_lines (result : Result) :
    result.lines.length = (if result.isClean then 1 else 0) + result.issues.length := by
  obtain ⟨path, outcome⟩ := result
  cases outcome with
  | skipped => rfl
  | checked issues =>
    cases issues with
    | nil => rfl
    | cons issue issues => simp [Result.lines, Result.isClean, Result.issues]

/-- A report has a line for each clean file and for each issue. -/
theorem length_lines (summary : Summary) :
    (lines summary).length = (summary.filter Result.isClean).length + issueCount summary := by
  unfold lines issueCount
  induction summary with
  | nil => rfl
  | cons result summary ih =>
    rw [List.flatMap_cons, List.length_append, ih, length_result_lines, List.flatMap_cons,
      List.length_append, List.filter_cons]
    split
    · rw [List.length_cons]
      omega
    · omega

end Summary

/-- **Runs over several paths.**  The results of a run are those for its paths, one path
after the other, and each path has some.  Each file is skipped, not loaded, or checked.
The exit code is the greatest rank of an issue, whatever the order of the paths, and the
report has a line for each clean file and for each issue. -/
theorem verify_results (tree : FileTree) (paths others : List Path) :
    verify tree (paths ++ others) = verify tree paths ++ verify tree others ∧
      (∀ path, verify tree [path] ≠ []) ∧
      (∀ result ∈ verify tree paths, result.IsOfOneKind) ∧
      Summary.exitCode (verify tree paths) =
        (Summary.ranks (verify tree paths)).max?.getD 0 ∧
      (∀ reordered, paths.Perm reordered →
        Summary.exitCode (verify tree paths) = Summary.exitCode (verify tree reordered)) ∧
      Summary.exitCode (verify tree (paths ++ others)) =
        max (Summary.exitCode (verify tree paths)) (Summary.exitCode (verify tree others)) ∧
      (Summary.exitCode (verify tree paths) = 0 ↔
        ∀ result ∈ verify tree paths, result.isClean = true ∨ result.isSkipped = true) ∧
      (Summary.exitCode (verify tree paths) = 1 →
        ∀ result ∈ verify tree paths, ∀ issue ∈ result.issues, issue.severity = .load) ∧
      (Summary.lines (verify tree paths)).length =
        ((verify tree paths).filter Result.isClean).length +
          Summary.issueCount (verify tree paths) := by
  refine ⟨verify_append tree paths others, verify_singleton_ne_nil tree,
    fun result => isOfOneKind_of_mem_verify, Summary.exitCode_eq_max? _, ?_, ?_,
    Summary.exitCode_eq_zero_iff, Summary.severity_of_exitCode_eq_one, Summary.length_lines _⟩
  · intro reordered hperm
    exact Summary.exitCode_of_perm (hperm.flatMap_right _)
  · rw [verify_append, Summary.exitCode_append]

end GoldenFixtures.Replay
