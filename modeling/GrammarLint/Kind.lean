/-!
# Node kinds

The closed table of the kinds a node of a grammar's tree can have.  Every kind
has a name, by which configurations refer to it, and a number, by which kinds
are ordered.
-/

namespace GrammarLint

inductive Kind where
  | combinedGrammar
  | lexerGrammar
  | parserGrammar
  | treeGrammar
  | options
  | tokens
  | imports
  | scope
  | ampersand
  | id
  | tokenRef
  | ruleRef
  | stringLiteral
  | charLiteral
  | integer
  | action
  | argAction
  | rule
  | block
  | alternative
  | endOfRule
  | returns
  | throws
  | catchClause
  | finallyClause
  | fragmentRule
  | protectedRule
  | publicRule
  | privateRule
  | assign
  | plusAssign
  | bang
  | root
  | optional
  | closure
  | positiveClosure
  | negation
  | range
  | wildcard
  | arrow
  | implies
  | treeBegin
  | labelRef
  | comma
  | openElementOption
  | closeElementOption
  deriving DecidableEq, Repr

namespace Kind

def name : Kind → String
  | .combinedGrammar => "COMBINED_GRAMMAR"
  | .lexerGrammar => "LEXER_GRAMMAR"
  | .parserGrammar => "PARSER_GRAMMAR"
  | .treeGrammar => "TREE_GRAMMAR"
  | .options => "OPTIONS"
  | .tokens => "TOKENS"
  | .imports => "IMPORT"
  | .scope => "SCOPE"
  | .ampersand => "AMPERSAND"
  | .id => "ID"
  | .tokenRef => "TOKEN_REF"
  | .ruleRef => "RULE_REF"
  | .stringLiteral => "STRING_LITERAL"
  | .charLiteral => "CHAR_LITERAL"
  | .integer => "INT"
  | .action => "ACTION"
  | .argAction => "ARG_ACTION"
  | .rule => "RULE"
  | .block => "BLOCK"
  | .alternative => "ALT"
  | .endOfRule => "EOR"
  | .returns => "RET"
  | .throws => "THROWS"
  | .catchClause => "CATCH"
  | .finallyClause => "FINALLY"
  | .fragmentRule => "FRAGMENT"
  | .protectedRule => "PROTECTED"
  | .publicRule => "PUBLIC"
  | .privateRule => "PRIVATE"
  | .assign => "ASSIGN"
  | .plusAssign => "PLUS_ASSIGN"
  | .bang => "BANG"
  | .root => "ROOT"
  | .optional => "OPTIONAL"
  | .closure => "CLOSURE"
  | .positiveClosure => "POSITIVE_CLOSURE"
  | .negation => "NOT"
  | .range => "RANGE"
  | .wildcard => "WILDCARD"
  | .arrow => "REWRITE"
  | .implies => "IMPLIES"
  | .treeBegin => "TREE_BEGIN"
  | .labelRef => "LABEL_REF"
  | .comma => "COMMA"
  | .openElementOption => "OPEN_ELEMENT_OPTION"
  | .closeElementOption => "CLOSE_ELEMENT_OPTION"

def number : Kind → Nat
  | .combinedGrammar => 1
  | .lexerGrammar => 2
  | .parserGrammar => 3
  | .treeGrammar => 4
  | .options => 10
  | .tokens => 11
  | .imports => 12
  | .scope => 13
  | .ampersand => 14
  | .id => 20
  | .tokenRef => 21
  | .ruleRef => 22
  | .stringLiteral => 23
  | .charLiteral => 24
  | .integer => 25
  | .action => 26
  | .argAction => 27
  | .rule => 30
  | .block => 31
  | .alternative => 32
  | .endOfRule => 33
  | .returns => 34
  | .throws => 35
  | .catchClause => 36
  | .finallyClause => 37
  | .fragmentRule => 38
  | .protectedRule => 39
  | .publicRule => 40
  | .privateRule => 41
  | .assign => 50
  | .plusAssign => 51
  | .bang => 52
  | .root => 53
  | .optional => 54
  | .closure => 55
  | .positiveClosure => 56
  | .negation => 57
  | .range => 58
  | .wildcard => 59
  | .arrow => 60
  | .implies => 61
  | .treeBegin => 62
  | .labelRef => 63
  | .comma => 64
  | .openElementOption => 65
  | .closeElementOption => 66

def all : List Kind := [
  .combinedGrammar, .lexerGrammar, .parserGrammar, .treeGrammar, .options, .tokens,
  .imports, .scope, .ampersand, .id, .tokenRef, .ruleRef, .stringLiteral, .charLiteral,
  .integer, .action, .argAction, .rule, .block, .alternative, .endOfRule, .returns,
  .throws, .catchClause, .finallyClause, .fragmentRule, .protectedRule, .publicRule,
  .privateRule, .assign, .plusAssign, .bang, .root, .optional, .closure, .positiveClosure,
  .negation, .range, .wildcard, .arrow, .implies, .treeBegin, .labelRef, .comma,
  .openElementOption, .closeElementOption]

theorem mem_all (kind : Kind) : kind ∈ all := by
  cases kind <;> decide

theorem find?_name (kind : Kind) : all.find? (·.name == kind.name) = some kind :=
  have found : ∀ kind ∈ all, all.find? (·.name == kind.name) = some kind := by decide +kernel
  found kind kind.mem_all

theorem name_ne_empty (kind : Kind) : kind.name ≠ "" := by
  cases kind <;> decide

theorem isUpper_of_mem_name {kind : Kind} {c : Char} (h : c ∈ kind.name.toList) :
    c.isUpper = true ∨ c = '_' := by
  have hupper : (kind.name.toList.all fun c => c.isUpper || c == '_') = true := by
    cases kind <;> decide
  rw [List.all_eq_true] at hupper
  simpa using hupper c h

theorem notMem_name {c : Char} (h : ¬(c.isUpper = true ∨ c = '_')) (kind : Kind) :
    c ∉ kind.name.toList :=
  fun hmember => h (isUpper_of_mem_name hmember)

def grammars : List Kind :=
  [.combinedGrammar, .lexerGrammar, .parserGrammar, .treeGrammar]

/-- The members of a collection of kinds, each once and by increasing number. -/
def inOrder (kinds : List Kind) : List Kind :=
  all.filter (kinds.contains ·)

@[simp]
theorem mem_inOrder {kind : Kind} {kinds : List Kind} :
    kind ∈ inOrder kinds ↔ kind ∈ kinds := by
  simp [inOrder, mem_all]

theorem inOrder_congr {kinds others : List Kind} (h : ∀ kind, kind ∈ kinds ↔ kind ∈ others) :
    inOrder kinds = inOrder others := by
  apply List.filter_congr
  intro kind _
  rw [Bool.eq_iff_iff, List.contains_iff_mem, List.contains_iff_mem, h]

end Kind

end GrammarLint
