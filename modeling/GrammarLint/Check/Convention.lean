import GrammarLint.Check.Delimiters
import GrammarLint.Check.Header
import GrammarLint.Check.Indentation
import GrammarLint.Check.Spacing
import GrammarLint.Check.TokenNames
import GrammarLint.Check.TokenOrder
import GrammarLint.Config.Basic

/-!
# The built-in conventions

The closed list of conventions, with the name, the kinds and the settings of
each.  A convention is told about the nodes of its kinds as they are entered.
-/

namespace GrammarLint

open Document Files

inductive Convention where
  | header
  | optionsIndentation
  | optionsSpacing
  | delimiters
  | tokensIndentation
  | tokenNames
  | tokenOrder
  | tokensSpacing
  deriving DecidableEq, Repr

structure Settings where
  notice : List String := []
  spaced : Bool := true
  deriving DecidableEq, Repr

def spacedOption : String := "withSpacesAroundEqual"

namespace Convention

def name : Convention → String
  | .header => "HeaderCheck"
  | .optionsIndentation => "OptionsIndentationCheck"
  | .optionsSpacing => "OptionsSpaceCheck"
  | .delimiters => "RuleColonSemicolonCheck"
  | .tokensIndentation => "TokensIndentationCheck"
  | .tokenNames => "TokensNamingCheck"
  | .tokenOrder => "TokensOrderCheck"
  | .tokensSpacing => "TokensSpaceCheck"

def description : Convention → String
  | .header => "@header sections must start with the license notice"
  | .optionsIndentation => "indentation of option pairs"
  | .optionsSpacing => "spaces around = in option pairs"
  | .delimiters => "rule delimiters on their own line"
  | .tokensIndentation => "indentation of token declarations"
  | .tokenNames => "imaginary tokens must be upper case"
  | .tokenOrder => "order of token declarations"
  | .tokensSpacing => "spaces around = in token pairs"

def all : List Convention := [
  .header, .optionsIndentation, .optionsSpacing, .delimiters,
  .tokensIndentation, .tokenNames, .tokenOrder, .tokensSpacing]

def kinds : Convention → List Kind
  | .header => [.ampersand]
  | .optionsIndentation => [.options]
  | .optionsSpacing => [.options]
  | .delimiters => [.rule]
  | .tokensIndentation => [.tokens]
  | .tokenNames => [.tokens]
  | .tokenOrder => [.tokens]
  | .tokensSpacing => [.tokens]

def needsSettings : Convention → Bool
  | .header => true
  | _ => false

def label (convention : Convention) : String :=
  s!"<{convention.name} {convention.name}>"

def prepare (fs : FileSystem) (config : CheckConfig) (settings : Settings) :
    Convention → Except Fault Settings
  | .header => do
      let notice ← Check.Header.loadNotice fs (config.get headerOption .null)
      return { settings with notice }
  | .optionsSpacing | .tokensSpacing => do
      let spaced ← liftConfig (config.getBool spacedOption (.bool true))
      return { settings with spaced }
  | _ => .ok settings

/-- What a convention says as a node is entered.  Only the delimiters look at
the tokens of the source. -/
def enter (settings : Settings) (source : Option Source) (site : Site) :
    Convention → Reaction
  | .header => .ofRemarks (Check.Header.enter settings.notice site)
  | .optionsIndentation =>
      .ofRemarks
        (Check.Indentation.enter Check.Indentation.options Check.Indentation.judgeOption site)
  | .optionsSpacing => .ofRemarks (Check.Spacing.enter "option" settings.spaced site.node)
  | .delimiters => Check.Delimiters.enter source site.node
  | .tokensIndentation =>
      .ofRemarks
        (Check.Indentation.enter Check.Indentation.tokens Check.Indentation.judgeToken site)
  | .tokenNames => .ofRemarks (Check.TokenNames.enter site.node)
  | .tokenOrder => .ofRemarks (Check.TokenOrder.enter site.node)
  | .tokensSpacing => .ofRemarks (Check.Spacing.enter "token" settings.spaced site.node)

end Convention

/-! ## Catalogues -/

structure Catalogue where
  conventions : List Convention
  deriving DecidableEq, Repr

namespace Catalogue

def empty : Catalogue := ⟨[]⟩

def standard : Catalogue := ⟨Convention.all⟩

def register (catalogue : Catalogue) (convention : Convention) : Catalogue :=
  if catalogue.conventions.contains convention then catalogue
  else ⟨catalogue.conventions ++ [convention]⟩

def find? (catalogue : Catalogue) (name : String) : Option Convention :=
  catalogue.conventions.find? (·.name == name)

def names (catalogue : Catalogue) : List String :=
  (catalogue.conventions.map Convention.name).mergeSort (· ≤ ·)

end Catalogue

def defaultConfigs (headerFile : Option String) : List CheckConfig :=
  let plain : List CheckConfig :=
    (Convention.all.filter (!·.needsSettings)).map fun convention => { name := convention.name }
  match headerFile with
  | some file =>
      if file = "" then plain
      else
        { name := Convention.header.name, options := [(headerOption, .string file)] } :: plain
  | none => plain

end GrammarLint
