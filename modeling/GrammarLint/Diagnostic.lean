import GrammarLint.Document.Writer
import GrammarLint.Fault
import GrammarLint.Files.Path

/-!
# Diagnostics

A diagnostic is one violation of a convention: where it is, how severe it is,
which check found it, and what it says.  The collector stamps every diagnostic
with the file that is being processed, and keeps the order of arrival.
-/

namespace GrammarLint

open Document Text

inductive Severity where
  | error
  | warning
  | info
  deriving DecidableEq, Repr

namespace Severity

def word : Severity → String
  | .error => "error"
  | .warning => "warning"
  | .info => "info"

def all : List Severity := [.error, .warning, .info]

def ofValue? (value : Value) : Option Severity :=
  let given := lowerLatin (trim (plainText value))
  all.find? (·.word == given)

end Severity

structure Diagnostic where
  file : String
  line : Int
  message : String
  check : String := ""
  severity : Severity := .error
  deriving DecidableEq, Repr

namespace Diagnostic

def value (d : Diagnostic) : Value :=
  .object [
    ("file", .string d.file),
    ("line", .int d.line),
    ("severity", .string d.severity.word),
    ("check", .string d.check),
    ("message", .string d.message)]

def text (d : Diagnostic) : String :=
  s!"{d.file}:{d.line}: {d.severity.word}: {d.message}" ++
    (if d.check = "" then "" else s!" [{d.check}]")

def le (a b : Diagnostic) : Bool :=
  a.file < b.file || (a.file == b.file && a.line ≤ b.line)

/-- Diagnostics of one line of one file stay in their order. -/
def sort (diagnostics : List Diagnostic) : List Diagnostic :=
  diagnostics.mergeSort le

end Diagnostic

structure Collector where
  file : String := ""
  diagnostics : List Diagnostic := []
  deriving DecidableEq, Repr

namespace Collector

def beginFile (collector : Collector) (file : Option String) : Collector :=
  { collector with file := fileLabel file }

def add (collector : Collector) (line : Int) (message check : String) (severity : Severity) :
    Collector :=
  { collector with
    diagnostics := collector.diagnostics ++ [⟨collector.file, line, message, check, severity⟩] }

def reset (collector : Collector) : Collector :=
  { collector with diagnostics := [] }

end Collector

end GrammarLint
