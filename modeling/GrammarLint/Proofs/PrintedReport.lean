import GrammarLint.Cli.Run
import Mathlib.Data.List.Nodup

/-!
# Reports as they are printed

As text, a report has a line for each diagnostic and ends in how many there are, and in how
many files.  As a document, it has an object for each of them.
-/

namespace GrammarLint

open Document

/-- A diagnostic as a line, which ends in the name of the check if there is one. -/
inductive Diagnostic.OnLine : Diagnostic → String → Prop where
  | named {file message check : String} {line : Int} {severity : Severity} (h : check ≠ "") :
      OnLine ⟨file, line, message, check, severity⟩
        s!"{file}:{line}: {severity.word}: {message} [{check}]\n"
  | nameless {file message : String} {line : Int} {severity : Severity} :
      OnLine ⟨file, line, message, "", severity⟩ s!"{file}:{line}: {severity.word}: {message}\n"

/-- A diagnostic as an object in a list, with a field on each line. -/
def Diagnostic.object (diagnostic : Diagnostic) : String :=
  let fields := [
    "\"file\": " ++ encodeString diagnostic.file,
    "\"line\": " ++ toString diagnostic.line,
    "\"severity\": " ++ encodeString diagnostic.severity.word,
    "\"check\": " ++ encodeString diagnostic.check,
    "\"message\": " ++ encodeString diagnostic.message]
  "\x7b\n    " ++ String.intercalate ",\n    " fields ++ "\n  \x7d"

namespace Cli

/-- What is printed on diagnostics: as text their lines, in order, and a summary unless
there are none; as a document the list of their objects, in order. -/
inductive Prints (diagnostics : List Diagnostic) : ReportFormat → String → Prop where
  | nothing (hnone : diagnostics = []) : Prints diagnostics .text ""
  | lines {lines files : List String} (hsome : diagnostics ≠ [])
      (hlines : List.Forall₂ Diagnostic.OnLine diagnostics lines) (hdistinct : files.Nodup)
      (hfiles : ∀ file, file ∈ files ↔ ∃ diagnostic ∈ diagnostics, diagnostic.file = file) :
      Prints diagnostics .text (String.join lines ++
        s!"\n--- {diagnostics.length} diagnostic(s) in {files.length} file(s) ---\n")
  | noObjects (hnone : diagnostics = []) : Prints diagnostics .json "[]\n"
  | objects (hsome : diagnostics ≠ []) :
      Prints diagnostics .json
        ("[\n  " ++ String.intercalate ",\n  " (diagnostics.map Diagnostic.object) ++ "\n]\n")

/-! ## Lines -/

theorem onLine_text (diagnostic : Diagnostic) :
    diagnostic.OnLine (diagnostic.text ++ "\n") := by
  obtain ⟨file, line, message, check, severity⟩ := diagnostic
  unfold Diagnostic.text
  by_cases hcheck : check = ""
  · subst hcheck
    convert Diagnostic.OnLine.nameless using 1
    simp only [if_pos, String.append_empty, toString]
  · convert Diagnostic.OnLine.named hcheck using 1
    simp only [if_neg hcheck, String.append_assoc, toString]
    rfl

theorem nodup_eraseDups (names : List String) : names.eraseDups.Nodup := by
  induction hlength : names.length using Nat.strongRecOn generalizing names with
  | _ length ih =>
      cases names with
      | nil => exact List.nodup_nil
      | cons name names =>
          subst hlength
          rw [List.eraseDups_cons, List.nodup_cons]
          refine ⟨by simp [List.mem_eraseDups], ih _ ?_ _ rfl⟩
          exact Nat.lt_succ_of_le (List.length_filter_le ..)

theorem prints_reportText (diagnostics : List Diagnostic) :
    Prints diagnostics .text (reportText diagnostics) := by
  unfold reportText
  cases diagnostics with
  | nil => exact .nothing rfl
  | cons diagnostic diagnostics =>
      refine .lines (by simp) ?_ (nodup_eraseDups _) ?_
      · rw [List.forall₂_map_right_iff, List.forall₂_same]
        exact fun diagnostic _ => onLine_text diagnostic
      · intro file
        rw [List.mem_eraseDups, List.mem_map]

/-! ## Objects -/

theorem renderIndented_value (diagnostic : Diagnostic) :
    renderIndented 1 diagnostic.value = diagnostic.object := by
  have hfile : encodeString "file" ++ ": " = "\"file\": " := by decide
  have hline : encodeString "line" ++ ": " = "\"line\": " := by decide
  have hseverity : encodeString "severity" ++ ": " = "\"severity\": " := by decide
  have hcheck : encodeString "check" ++ ": " = "\"check\": " := by decide
  have hmessage : encodeString "message" ++ ": " = "\"message\": " := by decide
  have hopening : "\x7b" ++ freshLine 2 = "\x7b\n    " := by decide
  have hbetween : "," ++ freshLine 2 = ",\n    " := by decide
  have hclosing : freshLine 1 ++ "\x7d" = "\n  \x7d" := by decide
  unfold Diagnostic.value Diagnostic.object
  simp only [renderIndented, indentedFields, block, List.isEmpty_cons, Bool.false_eq_true,
    if_false, hfile, hline, hseverity, hcheck, hmessage, hopening, hbetween, hclosing,
    String.append_assoc]

theorem indentedItems_map (level : Nat) (values : List Value) :
    indentedItems level values = values.map (renderIndented level) := by
  induction values with
  | nil => rfl
  | cons value values ih => rw [indentedItems, ih, List.map_cons]

theorem prints_report (diagnostics : List Diagnostic) (format : ReportFormat) :
    Prints diagnostics format (report diagnostics format) := by
  cases format with
  | text => exact prints_reportText diagnostics
  | json =>
      have hitems : indentedItems 1 (diagnostics.map Diagnostic.value) =
          diagnostics.map Diagnostic.object := by
        rw [indentedItems_map, List.map_map]
        exact List.map_congr_left fun diagnostic _ => renderIndented_value diagnostic
      have hopening : "[" ++ freshLine 1 = "[\n  " := by decide
      have hbetween : "," ++ freshLine 1 = ",\n  " := by decide
      have hclosing : freshLine 0 ++ ("]" ++ "\n") = "\n]\n" := by decide
      unfold report
      dsimp only
      rw [renderIndented, hitems]
      cases diagnostics with
      | nil => exact .noObjects rfl
      | cons diagnostic diagnostics =>
          convert Prints.objects (List.cons_ne_nil diagnostic diagnostics) using 1
          simp only [block, List.map_cons, List.isEmpty_cons, Bool.false_eq_true, if_false]
          simp only [hopening, hbetween, hclosing, String.append_assoc]

example : report [⟨"a.g", 3, "Say \"b\".", "", .warning⟩] .json =
    "[\n  \x7b\n    \"file\": \"a.g\",\n    \"line\": 3,\n    \"severity\": \"warning\",\n" ++
      "    \"check\": \"\",\n    \"message\": \"Say \\\"b\\\".\"\n  \x7d\n]\n" := by
  decide

end Cli

end GrammarLint
