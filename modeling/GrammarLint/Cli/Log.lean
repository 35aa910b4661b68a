/-!
# Log records

What the program says about its own work, apart from its output.  Errors are
always shown; the other records only if more is asked for.
-/

namespace GrammarLint.Cli

inductive Level where
  | error
  | info
  | debug
  deriving DecidableEq, Repr

namespace Level

def label : Level → String
  | .error => "ERROR"
  | .info => "INFO "
  | .debug => "DEBUG"

/-- The verbosity from which on records of a level are shown. -/
def threshold : Level → Nat
  | .error => 0
  | .info => 1
  | .debug => 2

end Level

inductive Channel where
  | program
  | config
  | header
  | walker
  | source
  deriving DecidableEq, Repr

def Channel.name : Channel → String
  | .program => "grammar_conventions"
  | .config => "grammar_conventions.config"
  | .header => "grammar_conventions.checks.header"
  | .walker => "grammar_conventions.walker"
  | .source => "grammar_conventions.frontend"

structure Record where
  level : Level
  channel : Channel
  message : String
  deriving DecidableEq, Repr

namespace Record

def text (record : Record) : String :=
  s!"[{record.level.label}] {record.channel.name}: {record.message}"

def error (message : String) : Record := ⟨.error, .program, message⟩

end Record

def shown (verbosity : Nat) (records : List Record) : List Record :=
  records.filter fun record => record.level.threshold ≤ verbosity

end GrammarLint.Cli
