import Reckoner.CommandLine
import Reckoner.Proofs.Declaration.Form
import Reckoner.Proofs.Sheet.Locality
import Reckoner.Session.Basic

/-!
# The report on a text

A text that is printed is cut into lines as a stream, and a text that is edited as a buffer. The two
lists of lines agree up to their last line: a stream has none that is empty, and keeps a carriage
return at its end. An empty line shows nothing. A carriage return is blank, it is neither the space
nor the colon by which a declaration is taken apart, and so at the end of a line it changes neither
what the line is nor what is shown beside it; only the place of a missing colon reaches one
character further.
-/

namespace Reckoner

/-! ## A carriage return at the end of a line -/

namespace Line

variable {line : Line} {c : Char}

theorem trimEnd_concat (hc : isBlank c = true) (line : Line) :
    trimEnd (line ++ [c]) = line.trimEnd := by
  simp [trimEnd, hc]

/-- A blank at the end stays there unless the whole line is blank. -/
theorem trimStart_concat (hc : isBlank c = true) (line : Line) :
    trimStart (line ++ [c]) = if line.trimStart.isEmpty then [] else line.trimStart ++ [c] := by
  rw [trimStart, List.dropWhile_append, List.dropWhile_cons_of_pos hc, List.dropWhile_nil]
  rfl

theorem trim_concat (hc : isBlank c = true) (line : Line) : trim (line ++ [c]) = line.trim := by
  rw [trim, trim, trimStart_concat hc]
  split
  · rename_i hempty
    rw [List.isEmpty_iff.mp hempty]
  · exact trimEnd_concat hc _

/-- One more character at the end does not complete a beginning that it is not part of. -/
theorem isPrefixOf_concat {head : List Char} (hc : c ∉ head) (line : Line) :
    head.isPrefixOf (line ++ [c]) = head.isPrefixOf line := by
  rw [Bool.eq_iff_iff, List.isPrefixOf_iff_prefix, List.isPrefixOf_iff_prefix,
    List.prefix_concat_iff]
  refine or_iff_right fun heq ↦ hc ?_
  rw [heq]
  exact List.mem_append_right _ (List.mem_singleton_self c)

theorem takeWhile_concat_of_neg {p : Char → Bool} (hc : p c = false) (line : List Char) :
    (line ++ [c]).takeWhile p = line.takeWhile p := by
  induction line with
  | nil => simp [hc]
  | cons d line ih => cases hd : p d <;> simp [hd, ih]

theorem dropWhile_concat_of_neg {p : Char → Bool} (hc : p c = false) (line : List Char) :
    (line ++ [c]).dropWhile p = line.dropWhile p ++ [c] := by
  induction line with
  | nil => simp [hc]
  | cons d line ih => cases hd : p d <;> simp [hd, ih]

end Line

/-- The carriage return does not change what a line is. -/
theorem LineKind.of_concat_return (line : Line) :
    LineKind.of (line ++ ['\r']) = LineKind.of line := by
  have hblank : isBlank '\r' = true := by decide
  rw [of, of, Line.trim_concat hblank]
  split
  · rfl
  · rename_i hne
    have hstart : line.trimStart.isEmpty = false := by
      refine Bool.eq_false_iff.mpr fun hempty ↦ hne ?_
      rw [Line.trim, List.isEmpty_iff.mp hempty]
      rfl
    have hcomment : "//".toList.isPrefixOf (Line.trimStart (line ++ ['\r'])) =
        "//".toList.isPrefixOf line.trimStart := by
      rw [Line.trimStart_concat hblank, hstart]
      exact Line.isPrefixOf_concat (by decide) _
    have hhead : Declaration.isHeadOf (line ++ ['\r']) = Declaration.isHeadOf line := by
      simp only [Declaration.isHeadOf, Declaration.heads, List.any_cons, List.any_nil]
      rw [Line.isPrefixOf_concat (by decide), Line.isPrefixOf_concat (by decide)]
    rw [hcomment, hhead]

namespace Declaration

/-- A declaration with one more character behind its expression. -/
def extend (c : Char) (declaration : Declaration) : Declaration :=
  { declaration with expression := declaration.expression ++ [c] }

/-- A carriage return goes to the expression of a declaration, and the cause why a line is none does
not change by it. -/
theorem parse_concat_return (isReserved : String → Bool) {line : Line}
    (hlength : keywordLength + 1 ≤ line.length) :
    (parse isReserved (line ++ ['\r'])).mapError Located.cause =
      ((parse isReserved line).mapError Located.cause).map (extend '\r') := by
  have hbody : body (line ++ ['\r']) = body line ++ ['\r'] := by
    rw [body, body, List.drop_append_of_le_length hlength,
      Line.dropWhile_concat_of_neg (by decide)]
  have hstart : nameStart (line ++ ['\r']) = nameStart line := by
    rw [nameStart, nameStart, List.drop_append_of_le_length hlength,
      Line.takeWhile_concat_of_neg (by decide)]
  by_cases hcolon : ':' ∈ body line
  · obtain ⟨front, expression, hsplit, hfront⟩ := List.eq_append_cons_of_mem hcolon
    have hreturn : body (line ++ ['\r']) = front ++ ':' :: (expression ++ ['\r']) := by
      rw [hbody, hsplit, List.append_assoc, List.cons_append]
    rw [parse_of_body hsplit hfront, parse_of_body hreturn hfront, hstart]
    split
    · rfl
    · split <;> rfl
  · have hreturn : ':' ∉ body (line ++ ['\r']) := by
      rw [hbody, List.mem_append, List.mem_singleton]
      exact not_or.mpr ⟨hcolon, by decide⟩
    rw [parse_of_notMem hcolon, parse_of_notMem hreturn]
    rfl

end Declaration

/-- A carriage return at the end of a line does not change what is shown beside it. -/
theorem Outcome.display?_ofLine_concat_return (voc : Vocabulary) (scope : Scope) (line : Line) :
    (ofLine voc scope (line ++ ['\r'])).display? = (ofLine voc scope line).display? := by
  have hblank : isBlank '\r' = true := by decide
  rw [ofLine.eq_def, ofLine.eq_def, LineKind.of_concat_return, Line.trimEnd_concat hblank]
  cases hkind : LineKind.of line with
  | blank => rfl
  | comment => rfl
  | expression => rfl
  | declaration =>
    have hparse := Declaration.parse_concat_return voc.isReserved
      (Declaration.le_length_of_declaration hkind)
    dsimp only
    rw [ofDeclaration, ofDeclaration]
    cases hline : Declaration.parse voc.isReserved line with
    | error fault =>
      cases hreturn : Declaration.parse voc.isReserved (line ++ ['\r']) with
      | error fault' =>
        rw [hline, hreturn] at hparse
        have hcause : fault'.cause = fault.cause := Except.error.inj hparse
        simp only [display?, hcause]
      | ok declaration =>
        rw [hline, hreturn] at hparse
        cases hparse
    | ok declaration =>
      cases hreturn : Declaration.parse voc.isReserved (line ++ ['\r']) with
      | error fault =>
        rw [hline, hreturn] at hparse
        cases hparse
      | ok declaration' =>
        rw [hline, hreturn] at hparse
        have hextend : declaration' = declaration.extend '\r' := Except.ok.inj hparse
        rw [hextend]
        simp only [Declaration.extend, Line.trimEnd_concat hblank]

/-- Nor does dropping it. -/
theorem Outcome.display?_ofLine_dropReturn (voc : Vocabulary) (scope : Scope) (line : Line) :
    (ofLine voc scope line.dropReturn).display? = (ofLine voc scope line).display? := by
  rw [Line.dropReturn]
  split
  · rename_i hlast
    obtain ⟨start, rfl⟩ := List.getLast?_eq_some_iff.mp hlast
    rw [List.dropLast_concat, display?_ofLine_concat_return]
  · rfl

/-! ## The two lists of lines -/

namespace Sheet

variable (voc : Vocabulary) (lines : List Line)

/-- One more line adds its entry to the report. -/
theorem report_concat (line : Line) :
    ((new voc).evaluate (lines ++ [line])).report =
      ((new voc).evaluate lines).report ++
        reportEntry (Outcome.ofLine voc (scopeBelow voc lines) line,
          ((new voc).evaluate lines).outcomes.length) := by
  rw [report, report, outcomes_concat, List.zipIdx_append, List.map_append, String.join_append]
  simp

/-- What is shown of one more line is all of it that enters the report. -/
theorem report_concat_congr {line line' : Line}
    (h : (Outcome.ofLine voc (scopeBelow voc lines) line).display? =
      (Outcome.ofLine voc (scopeBelow voc lines) line').display?) :
    ((new voc).evaluate (lines ++ [line])).report =
      ((new voc).evaluate (lines ++ [line'])).report := by
  rw [report_concat, report_concat, reportEntry, reportEntry, h]

/-- An empty line at the end does not enter the report. -/
theorem report_concat_nil :
    ((new voc).evaluate (lines ++ [[]])).report = ((new voc).evaluate lines).report := by
  rw [report_concat]
  exact String.append_empty

end Sheet

/-- The report on a text as a stream is the report on its lines as a buffer. -/
theorem reportOf_eq (voc : Vocabulary) (text : List Char) :
    reportOf voc text = ((Sheet.new voc).evaluate (bufferLines text)).report := by
  obtain ⟨above, last, hpieces⟩ :=
    (List.eq_nil_or_concat (pieces text)).resolve_left (pieces_ne_nil text)
  rw [List.concat_eq_append] at hpieces
  have hbuffer : bufferLines text = above.map Line.dropReturn ++ [last.dropReturn] := by
    rw [bufferLines, hpieces, List.map_append, List.map_singleton]
  have hstream : streamLines text =
      above.map Line.dropReturn ++ [last].filter fun line ↦ !line.isEmpty := by
    simp only [streamLines, hpieces, List.dropLast_concat, List.getLast?_concat, Option.toList_some]
  rw [reportOf, hbuffer, hstream]
  cases last with
  | nil =>
    rw [List.filter_cons_of_neg (by simp), List.filter_nil, List.append_nil]
    exact (Sheet.report_concat_nil voc _).symm
  | cons c rest =>
    exact Sheet.report_concat_congr voc _ (Outcome.display?_ofLine_dropReturn voc _ _).symm

/-- A call that prints, and gets its log file and the text of its document, writes the report. -/
theorem Command.execute_run_print {actions : FileActions Id} {arguments : Arguments} {text : String}
    (hprint : arguments.print = true)
    (hlog : ∀ file ∈ arguments.logFile, actions.create file = .ok ())
    (hdocument : document actions arguments = .ok text) :
    (run arguments).execute actions = ⟨0, reportOf .standard text.toList, ""⟩ := by
  rw [execute.eq_def]
  simp only [bind, hdocument, hprint, if_true]
  cases hfile : arguments.logFile with
  | none => rfl
  | some file =>
    dsimp only
    rw [hlog file hfile]
    rfl

namespace Session

/-- The sheet of a new session reports what is printed of its text: a call that prints writes this
report, once it has the text. -/
theorem report_new (text : String) (path : Option String) :
    reportOf .standard text.toList = (new text.toList path).sheet.report ∧
      ∀ (actions : FileActions Id) (arguments : Arguments), arguments.print = true →
        (∀ file ∈ arguments.logFile, actions.create file = .ok ()) →
        Command.document actions arguments = .ok text →
        (Command.run arguments).execute actions =
          ⟨0, (new text.toList path).sheet.report, ""⟩ := by
  have hreport : reportOf .standard text.toList = (new text.toList path).sheet.report := by
    rw [reportOf_eq, ← Editor.lines_ofText]
    rfl
  refine ⟨hreport, fun actions arguments hprint hlog hdocument ↦ ?_⟩
  rw [Command.execute_run_print hprint hlog hdocument, hreport]

/-- A text whose last line has a carriage return and no line feed, from a file and with a log. -/
theorem report_new_return :
    let text := "dim x: 2\r\n\r\ndim y x\r"
    let actions : FileActions Id := ⟨fun _ ↦ .ok (), fun _ ↦ .ok text, .error .notFound⟩
    let arguments : Arguments := ⟨some "sheet.txt", true, none, some "log.txt"⟩
    arguments.print = true ∧ (∀ file ∈ arguments.logFile, actions.create file = .ok ()) ∧
      Command.document actions arguments = .ok text ∧
      streamLines text.toList ≠ bufferLines text.toList ∧
      (Command.run arguments).execute actions =
        ⟨0, (new text.toList (some "sheet.txt")).sheet.report, ""⟩ ∧
      (new text.toList (some "sheet.txt")).sheet.report = "1: = 2\n3: Missing ':'\n" := by
  intro text actions arguments
  have hdocument : Command.document actions arguments = .ok text := rfl
  obtain ⟨-, hprinted⟩ := report_new text (some "sheet.txt")
  exact ⟨rfl, fun _ _ ↦ rfl, hdocument, by decide +kernel,
    hprinted actions arguments rfl (fun _ _ ↦ rfl) hdocument, by decide +kernel⟩

end Session

end Reckoner
