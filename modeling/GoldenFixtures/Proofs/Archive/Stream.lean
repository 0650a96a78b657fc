import Mathlib.Order.Bounds.Basic
import GoldenFixtures.Archive.Stream
import GoldenFixtures.Proofs.Archive.Roster
import GoldenFixtures.Proofs.Json.Compact
import GoldenFixtures.Proofs.Text.Lines

/-!
# Streams, line by line

A stream is sanitized line by line, each in the roster that the lines in front of
it leave behind (`rosterBehind`), up to the first line that fails.

There are four groups.

* One line.  `LineFails` says which lines fail and how; every other line is text
  and has a record or is blank (`fails_or_ok`).
* The run over lines.  `sanitizeLines_append` goes on behind lines that were all
  sanitized, `sanitizeLines_append_of_error` says that nothing behind a failing
  line counts, and `exists_of_error` finds that line.
* What is written.  `length_records` counts the records, and
  `encode_output` says which bytes they are.
* The stream.  `sanitize_result` says what either result means.
-/

namespace GoldenFixtures.Archive

open Text (byteLines decode? encode terminated)

/-! ## One line -/

/-- The roster that lines leave behind.  A line that is not text changes
nothing. -/
def rosterBehind (roster : Roster) (lines : List (List UInt8)) : Roster :=
  roster.after ((lines.filterMap decode?).map Request.line)

/-- The line is text, and that text is blank. -/
def isBlankLine (line : List UInt8) : Bool :=
  match decode? line with
  | some text => (Text.trim text).isEmpty
  | none => false

/-- A line fails with an error: it is not text, or there is a problem with its
text, which is told with the line's number. -/
inductive LineFails (roster : Roster) (number : Nat) (line : List UInt8) : Error → Prop where
  | notText : decode? line = none → LineFails roster number line (.unreadable .notText)
  | problem {text : List Char} {problem : Problem} : decode? line = some text →
      (roster.sanitizeLine text).1 = .error problem →
      LineFails roster number line (.atLine number problem)

section

variable {roster : Roster} {number : Nat} {line : List UInt8} {text : List Char}

theorem fails_or_ok (roster : Roster) (number : Nat) (line : List UInt8) :
    (∃ error, LineFails roster number line error) ∨
      ∃ text record, decode? line = some text ∧ (roster.sanitizeLine text).1 = .ok record := by
  cases hdecode : decode? line with
  | none => exact Or.inl ⟨_, .notText hdecode⟩
  | some text =>
    cases hresult : (roster.sanitizeLine text).1 with
    | error problem => exact Or.inl ⟨_, .problem hdecode hresult⟩
    | ok record => exact Or.inr ⟨text, record, rfl, hresult⟩

theorem LineFails.not_ok {error : Error} (h : LineFails roster number line error)
    (hdecode : decode? line = some text) (record : Option Record) :
    (roster.sanitizeLine text).1 ≠ .ok record := by
  cases h with
  | notText hnone =>
    rw [hdecode] at hnone
    exact nomatch hnone
  | problem hsome hproblem =>
    rw [hdecode, Option.some.injEq] at hsome
    subst hsome
    rw [hproblem]
    intro heq
    exact nomatch heq

/-- Only a blank line has no record. -/
theorem sanitizeLine_eq_ok_none_iff :
    (roster.sanitizeLine text).1 = .ok none ↔ Text.trim text = [] := by
  unfold Roster.sanitizeLine
  by_cases hblank : Text.trim text = []
  · simp [hblank]
  · have hempty : (Text.trim text).isEmpty = false := List.isEmpty_eq_false_iff.mpr hblank
    simp only [hempty, Bool.false_eq_true, if_false, hblank, iff_false]
    cases hread : Json.Value.read (Text.trim text) with
    | error error =>
      intro heq
      exact nomatch heq
    | ok value =>
      cases hresult : (roster.sanitize value).1 with
      | error problem => simp [hresult, Except.map]
      | ok record => simp [hresult, Except.map]

theorem isBlankLine_of_decode (hdecode : decode? line = some text) :
    isBlankLine line = (Text.trim text).isEmpty := by
  unfold isBlankLine
  rw [hdecode]

theorem rosterBehind_cons (hdecode : decode? line = some text) (lines : List (List UInt8)) :
    rosterBehind roster (line :: lines) = rosterBehind (roster.sanitizeLine text).2 lines := by
  unfold rosterBehind
  rw [List.filterMap_cons_some hdecode]
  rfl

end

/-! ## The run over lines -/

/-- A run behind records that were written before it. -/
def Run.behind (records : List Record) (run : Run) : Run :=
  { run with records := records ++ run.records }

section

variable {roster : Roster} {number : Nat} {line : List UInt8} {text : List Char} {error : Error}

theorem sanitizeLines_cons_of_fails (h : LineFails roster number line error)
    (lines : List (List UInt8)) :
    sanitizeLines roster number (line :: lines) = ⟨[], some error⟩ := by
  rw [sanitizeLines]
  cases h with
  | notText hnone => rw [hnone]
  | @problem text problem hdecode hproblem =>
    simp only [hdecode]
    cases hresult : roster.sanitizeLine text with
    | mk result next =>
      rw [hresult] at hproblem
      cases hproblem
      rfl

theorem sanitizeLines_cons_of_ok {record : Option Record} (hdecode : decode? line = some text)
    (hok : (roster.sanitizeLine text).1 = .ok record) (lines : List (List UInt8)) :
    sanitizeLines roster number (line :: lines) =
      (sanitizeLines (roster.sanitizeLine text).2 (number + 1) lines).behind record.toList := by
  rw [sanitizeLines]
  simp only [hdecode]
  cases hresult : roster.sanitizeLine text with
  | mk result next =>
    rw [hresult] at hok
    cases hok
    cases record with
    | none => rfl
    | some record => rfl

/-- Lines that were all sanitized are followed by the lines behind them, in the
roster that they leave. -/
theorem sanitizeLines_append {earlier : List (List UInt8)}
    (h : (sanitizeLines roster number earlier).error? = none) (later : List (List UInt8)) :
    sanitizeLines roster number (earlier ++ later) =
      (sanitizeLines (rosterBehind roster earlier) (number + earlier.length) later).behind
        (sanitizeLines roster number earlier).records := by
  induction earlier generalizing roster number with
  | nil => rfl
  | cons line earlier ih =>
    rcases fails_or_ok roster number line with ⟨error, hfails⟩ | ⟨text, record, hdecode, hok⟩
    · rw [sanitizeLines_cons_of_fails hfails] at h
      exact nomatch h
    · rw [sanitizeLines_cons_of_ok hdecode hok] at h ⊢
      have hnumber : number + (line :: earlier).length = number + 1 + earlier.length := by
        rw [List.length_cons]
        omega
      rw [List.cons_append, sanitizeLines_cons_of_ok hdecode hok, ih h,
        rosterBehind_cons hdecode, hnumber]
      simp [Run.behind]

/-- What stands behind a line that fails does not count. -/
theorem sanitizeLines_append_of_error {earlier : List (List UInt8)}
    (h : (sanitizeLines roster number earlier).error? = some error) (later : List (List UInt8)) :
    sanitizeLines roster number (earlier ++ later) = sanitizeLines roster number earlier := by
  induction earlier generalizing roster number with
  | nil => exact nomatch h
  | cons line earlier ih =>
    rcases fails_or_ok roster number line with ⟨error, hfails⟩ | ⟨text, record, hdecode, hok⟩
    · rw [List.cons_append, sanitizeLines_cons_of_fails hfails, sanitizeLines_cons_of_fails hfails]
    · rw [sanitizeLines_cons_of_ok hdecode hok] at h
      rw [List.cons_append, sanitizeLines_cons_of_ok hdecode hok,
        sanitizeLines_cons_of_ok hdecode hok, ih h]

/-- A run that stopped has sanitized the lines in front of the one that
failed. -/
theorem exists_of_error {lines : List (List UInt8)}
    (h : (sanitizeLines roster number lines).error? = some error) :
    ∃ earlier line later, lines = earlier ++ line :: later ∧
      sanitizeLines roster number earlier = ⟨(sanitizeLines roster number lines).records, none⟩ ∧
      LineFails (rosterBehind roster earlier) (number + earlier.length) line error := by
  induction lines generalizing roster number with
  | nil => exact nomatch h
  | cons line lines ih =>
    rcases fails_or_ok roster number line with ⟨other, hfails⟩ | ⟨text, record, hdecode, hok⟩
    · rw [sanitizeLines_cons_of_fails hfails] at h ⊢
      cases h
      exact ⟨[], line, lines, rfl, rfl, hfails⟩
    · rw [sanitizeLines_cons_of_ok hdecode hok] at h ⊢
      obtain ⟨earlier, failing, later, rfl, hearlier, hfails⟩ := ih h
      refine ⟨line :: earlier, failing, later, rfl, ?_, ?_⟩
      · rw [sanitizeLines_cons_of_ok hdecode hok, hearlier]
        rfl
      · have hnumber : number + (line :: earlier).length = number + 1 + earlier.length := by
          rw [List.length_cons]
          omega
        rw [rosterBehind_cons hdecode, hnumber]
        exact hfails

theorem sanitizeLines_append_cons_of_fails {earlier : List (List UInt8)}
    (h : (sanitizeLines roster number earlier).error? = none)
    (hfails : LineFails (rosterBehind roster earlier) (number + earlier.length) line error)
    (later : List (List UInt8)) :
    sanitizeLines roster number (earlier ++ line :: later) =
      ⟨(sanitizeLines roster number earlier).records, some error⟩ := by
  rw [sanitizeLines_append h, sanitizeLines_cons_of_fails hfails]
  simp [Run.behind]

/-- The lines in front of any line of a run that did not stop were sanitized,
and so was that line. -/
theorem ok_of_error?_eq_none {earlier later : List (List UInt8)}
    (h : (sanitizeLines roster number (earlier ++ line :: later)).error? = none) :
    (sanitizeLines roster number earlier).error? = none ∧
      ∃ text record, decode? line = some text ∧
        ((rosterBehind roster earlier).sanitizeLine text).1 = .ok record := by
  have hearlier : (sanitizeLines roster number earlier).error? = none := by
    cases herror : (sanitizeLines roster number earlier).error? with
    | none => rfl
    | some error =>
      rw [sanitizeLines_append_of_error herror, herror] at h
      exact h
  refine ⟨hearlier, ?_⟩
  rcases fails_or_ok (rosterBehind roster earlier) (number + earlier.length) line with
    ⟨error, hfails⟩ | hok
  · rw [sanitizeLines_append_cons_of_fails hearlier hfails] at h
    exact nomatch h
  · exact hok

end

/-! ## What is written -/

section

variable {roster : Roster} {number : Nat}

/-- Every line that is not blank has a record. -/
theorem length_records {lines : List (List UInt8)}
    (h : (sanitizeLines roster number lines).error? = none) :
    (sanitizeLines roster number lines).records.length =
      (lines.filter fun line => !isBlankLine line).length := by
  induction lines generalizing roster number with
  | nil => rfl
  | cons line lines ih =>
    rcases fails_or_ok roster number line with ⟨error, hfails⟩ | ⟨text, record, hdecode, hok⟩
    · rw [sanitizeLines_cons_of_fails hfails] at h
      exact nomatch h
    · rw [sanitizeLines_cons_of_ok hdecode hok] at h ⊢
      have hblank : isBlankLine line = record.isNone := by
        rw [isBlankLine_of_decode hdecode]
        cases record with
        | none => simp [sanitizeLine_eq_ok_none_iff.mp hok]
        | some record =>
          have hne : Text.trim text ≠ [] := by
            intro hnil
            rw [sanitizeLine_eq_ok_none_iff.mpr hnil] at hok
            exact nomatch hok
          exact List.isEmpty_eq_false_iff.mpr hne
      have hrest : (sanitizeLines (roster.sanitizeLine text).2 (number + 1) lines).records.length =
          (lines.filter fun line => !isBlankLine line).length := ih h
      cases record with
      | none => simp [Run.behind, hblank, hrest]
      | some record => simp [Run.behind, hblank, hrest]

/-- The lines that records are written as. -/
def recordLines (records : List Record) : List (List UInt8) :=
  records.map fun record => encode record.toValue.compact

theorem encode_output (run : Run) :
    encode run.output.toList = terminated (recordLines run.records) := by
  unfold Run.output
  rw [String.toList_join, recordLines]
  induction run.records with
  | nil => rfl
  | cons record records ih =>
    have hnewline : ("\n" : String).toList = ['\n'] := rfl
    rw [List.map_cons, List.flatMap_cons, Text.encode_append, ih, String.toList_append,
      Text.encode_append, hnewline, Text.encode_newline, Json.Value.toCompact, String.toList_ofList,
      List.map_cons, Text.terminated_cons, List.append_assoc, List.singleton_append]

theorem newline_notMem_recordLines (records : List Record) :
    ∀ line ∈ recordLines records, 10 ∉ line := by
  unfold recordLines
  rw [List.forall_mem_map]
  intro record _
  rw [Text.mem_encode_newline_iff]
  exact Json.newline_notMem_compact record.toValue

end

/-! ## The stream -/

/-- The line with a number, counted from one, fails with an error in the roster
that the lines in front of it leave. -/
def FailsAt (bytes : List UInt8) (number : Nat) (error : Error) : Prop :=
  ∃ earlier line later, byteLines bytes = earlier ++ line :: later ∧
    number = earlier.length + 1 ∧ LineFails (rosterBehind {} earlier) number line error

/-- A stream that was sanitized to its end.  A record was written for each line
that is not blank, on a line of its own: that of the line in the roster that the
lines in front of it leave. -/
structure IsSanitized (bytes : List UInt8) (written : Nat) : Prop where
  written_eq : written = ((byteLines bytes).filter fun line => !isBlankLine line).length
  output : ∃ lines, encode (sanitize bytes).output.toList = terminated lines ∧
    lines.length = written ∧ (∀ line ∈ lines, 10 ∉ line) ∧
    ∀ earlier line later, byteLines bytes = earlier ++ line :: later → isBlankLine line = false →
      ∃ text record, decode? line = some text ∧
        ((rosterBehind {} earlier).sanitizeLine text).1 = .ok (some record) ∧
        lines[(earlier.filter fun line => !isBlankLine line).length]? =
          some (encode record.toValue.compact)

/-- A stream that was given up at the line with a number, the first one that
fails.  The lines in front of it alone are sanitized, with the same output, and
what stands behind the line's line feed does not count. -/
structure IsStopped (bytes : List UInt8) (number : Nat) (error : Error) : Prop where
  fails : FailsAt bytes number error
  least : IsLeast {other | ∃ error, FailsAt bytes other error} number
  place : error = .unreadable .notText ∨ ∃ problem, error = .atLine number problem
  front : ∃ earlier line back, bytes = terminated earlier ++ (line ++ back) ∧
    earlier.length + 1 = number ∧ (∀ front ∈ earlier, 10 ∉ front) ∧ 10 ∉ line ∧
    (∃ written, (sanitize (terminated earlier)).result = .ok written) ∧
    (sanitize (terminated earlier)).output = (sanitize bytes).output ∧
    (back = [] ∨ ∃ rest, back = 10 :: rest ∧
      ∀ other, sanitize (terminated earlier ++ (line ++ 10 :: other)) = sanitize bytes)

/-- A stream that is read to its end is sanitized.  In front of the record of a line stand
those of the lines in front of it, which tells its place. -/
theorem isSanitized {bytes : List UInt8} (h : (sanitize bytes).error? = none) :
    IsSanitized bytes (sanitize bytes).records.length := by
  refine ⟨length_records h, recordLines (sanitize bytes).records, encode_output _,
    List.length_map _, newline_notMem_recordLines _, ?_⟩
  intro earlier line later hlines hblank
  unfold sanitize at h ⊢
  rw [hlines] at h ⊢
  obtain ⟨hearlier, text, record, hdecode, hok⟩ := ok_of_error?_eq_none h
  have hne : Text.trim text ≠ [] := by
    intro hnil
    rw [isBlankLine_of_decode hdecode, hnil] at hblank
    exact nomatch hblank
  cases record with
  | none => exact absurd (sanitizeLine_eq_ok_none_iff.mp hok) hne
  | some record =>
    refine ⟨text, record, hdecode, hok, ?_⟩
    have hplace : (earlier.filter fun line => !isBlankLine line).length =
        (recordLines (sanitizeLines {} 1 earlier).records).length := by
      rw [recordLines, List.length_map, length_records hearlier]
    rw [sanitizeLines_append hearlier, sanitizeLines_cons_of_ok hdecode hok, hplace]
    simp [Run.behind, recordLines]

/-- Two ways to pick a line out of a list: one of them lies in front of the
other, or they pick the same place. -/
theorem exists_of_append_cons_eq {α : Type} {earlier later others rest : List α} {a b : α}
    (h : earlier ++ a :: later = others ++ b :: rest) (hlt : others.length < earlier.length) :
    ∃ between, earlier = others ++ b :: between := by
  rcases List.append_eq_append_iff.mp h with ⟨front, rfl, _⟩ | ⟨front, rfl, hfront⟩
  · rw [List.length_append] at hlt
    omega
  · cases front with
    | nil =>
      rw [List.append_nil] at hlt
      omega
    | cons c front =>
      rw [List.cons_append, List.cons.injEq] at hfront
      exact ⟨front, by rw [hfront.1]⟩

theorem sanitize_terminated {lines : List (List UInt8)} (h : ∀ line ∈ lines, 10 ∉ line) :
    sanitize (terminated lines) = sanitizeLines {} 1 lines := by
  have hbytes := Text.byteLines_terminated_append h []
  rw [List.append_nil] at hbytes
  unfold sanitize
  rw [hbytes]
  exact congrArg _ (List.append_nil lines)

theorem isStopped {bytes : List UInt8} {error : Error} (h : (sanitize bytes).error? = some error) :
    ∃ number, IsStopped bytes number error := by
  obtain ⟨earlier, line, later, hlines, hearlier, hfails⟩ := exists_of_error h
  have hnone : (sanitizeLines {} 1 earlier).error? = none := by rw [hearlier]
  have hbehind (rest : List (List UInt8)) : sanitizeLines {} 1 (earlier ++ line :: rest) =
      ⟨(sanitizeLines {} 1 earlier).records, some error⟩ :=
    sanitizeLines_append_cons_of_fails hnone hfails rest
  have hrun : sanitize bytes = ⟨(sanitizeLines {} 1 earlier).records, some error⟩ := by
    unfold sanitize
    rw [hlines]
    exact hbehind later
  rw [Nat.add_comm] at hfails
  have hplace : FailsAt bytes (earlier.length + 1) error :=
    ⟨earlier, line, later, hlines, rfl, hfails⟩
  refine ⟨earlier.length + 1, hplace, ?_, ?_, ?_⟩
  · refine ⟨⟨error, hplace⟩, ?_⟩
    rintro number ⟨other, front, failing, behind, hsplit, rfl, hother⟩
    by_contra hlt
    have hshorter : front.length < earlier.length := by omega
    obtain ⟨between, rfl⟩ := exists_of_append_cons_eq (hlines.symm.trans hsplit) hshorter
    obtain ⟨_, text, record, hdecode, hok⟩ := ok_of_error?_eq_none hnone
    exact hother.not_ok hdecode record hok
  · cases hfails with
    | notText => exact Or.inl rfl
    | problem => exact Or.inr ⟨_, rfl⟩
  · obtain ⟨back, rfl, hfront, hline, hback⟩ := Text.exists_of_byteLines_eq hlines
    have halone := sanitize_terminated hfront
    refine ⟨earlier, line, back, rfl, rfl, hfront, hline, ?_, ?_, ?_⟩
    · rw [halone]
      exact ⟨_, by rw [Run.result, hnone]⟩
    · rw [halone, hrun]
      rfl
    · rcases hback with ⟨rfl, _⟩ | ⟨rest, rfl, _⟩
      · exact Or.inl rfl
      · refine Or.inr ⟨rest, rfl, ?_⟩
        intro other
        rw [hrun, sanitize, Text.byteLines_terminated_append hfront,
          Text.byteLines_append_newline hline]
        exact hbehind (byteLines other)

/-- The lines in front of the one that failed were all sanitized, to what is written. -/
theorem IsStopped.take {bytes : List UInt8} {number : Nat} {error : Error}
    (h : IsStopped bytes number error) :
    ∃ records, sanitizeLines {} 1 ((byteLines bytes).take (number - 1)) = ⟨records, none⟩ ∧
      Run.output ⟨records, none⟩ = (sanitize bytes).output := by
  obtain ⟨earlier, line, back, rfl, rfl, hfront, -, ⟨written, hresult⟩, houtput, -⟩ := h.front
  have htake : (byteLines (terminated earlier ++ (line ++ back))).take (earlier.length + 1 - 1) =
      earlier := by
    rw [Text.byteLines_terminated_append hfront, Nat.add_sub_cancel, List.take_left]
  rw [htake, ← sanitize_terminated hfront]
  cases hrun : sanitize (terminated earlier) with
  | mk records error? =>
    rw [hrun] at hresult houtput
    cases error? with
    | none => exact ⟨records, rfl, houtput⟩
    | some error => exact nomatch hresult

/-- What sanitizing a stream tells: either how many records were written, one for
each line that is not blank, or at which line it stopped and why. -/
theorem sanitize_result (bytes : List UInt8) :
    match (sanitize bytes).result with
    | .ok written => IsSanitized bytes written
    | .error error => ∃ number, IsStopped bytes number error := by
  unfold Run.result
  cases herror : (sanitize bytes).error? with
  | none => exact isSanitized herror
  | some error => exact isStopped herror

/-- A record with a member that no record keeps, and a carriage return behind it. -/
def returnedLine : List Char :=
  "\x7b\"note\":1,\"saturation_ratio\":0.8515,\"tenant\":\"acme\",\"requests\":5,".toList
    ++ "\"window_seconds\":60,\"average_latency_ms\":3,".toList
    ++ "\"scenario\":\"quota-throughput\"\x7d\r".toList

/-- A blank line and the record. -/
def returnedStream : List UInt8 := terminated [encode " \t\r".toList, encode returnedLine]

theorem sanitize_returnedStream :
    sanitize returnedStream = ⟨[⟨"tenant-001", .throughput 60 5 3 ⟨false, 852⟩⟩], none⟩ := by
  have hlines : ∀ line ∈ [encode " \t\r".toList, encode returnedLine], 10 ∉ line := by
    simp only [List.forall_mem_cons, Text.mem_encode_newline_iff]
    exact ⟨by decide +kernel, by decide +kernel, by simp⟩
  have hblank : (Roster.sanitizeLine {} " \t\r".toList).1 = .ok none := by decide +kernel
  have hrecord : ((Roster.sanitizeLine {} " \t\r".toList).2.sanitizeLine returnedLine).1 =
      .ok (some ⟨"tenant-001", .throughput 60 5 3 ⟨false, 852⟩⟩) := by decide +kernel
  rw [returnedStream, sanitize_terminated hlines,
    sanitizeLines_cons_of_ok (Text.decode?_encode _) hblank,
    sanitizeLines_cons_of_ok (Text.decode?_encode _) hrecord]
  rfl

/-- A stream that stops at its third line, behind two blank ones. -/
def stoppedStream : List UInt8 := encode "\n \r\n[1\nx".toList

theorem sanitize_stoppedStream :
    sanitize stoppedStream = ⟨[], some (.atLine 3 (.invalidJson ⟨.endInList, 1, 2⟩))⟩ := by
  decide +kernel

theorem sanitize_result_returnedStream :
    IsSanitized returnedStream 1 ∧
      (sanitize returnedStream).output =
        "\x7b\"scenario\":\"quota-throughput\",\"tenant_alias\":\"tenant-001\","
          ++ "\"window_seconds\":60,\"requests\":5,\"average_latency_ms\":3,"
          ++ "\"saturation_ratio\":0.852\x7d\n" ∧
      ∃ number, IsStopped stoppedStream number
        (.atLine 3 (.invalidJson ⟨.endInList, 1, 2⟩)) := by
  have hwritten : (sanitize returnedStream).result = .ok 1 := by
    rw [sanitize_returnedStream]
    rfl
  have herror : (sanitize stoppedStream).result =
      .error (.atLine 3 (.invalidJson ⟨.endInList, 1, 2⟩)) := by
    rw [sanitize_stoppedStream]
    rfl
  refine ⟨?_, ?_, ?_⟩
  · generalize returnedStream = stream at hwritten
    have hsanitized := sanitize_result stream
    rw [hwritten] at hsanitized
    exact hsanitized
  · rw [sanitize_returnedStream]
    decide +kernel
  · generalize stoppedStream = stream at herror
    have hstopped := sanitize_result stream
    rw [herror] at hstopped
    exact hstopped

end GoldenFixtures.Archive
