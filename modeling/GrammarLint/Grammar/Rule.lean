/-!
# Rules of the grammar of grammars

The names of the rules by which a grammar text is read.  Rules whose matches
are the significant tokens of a text are `Terminal`s: keywords, punctuation
marks, and the seven shapes with a text of their own.  The other rules give the
text its structure, or describe the inside of an embedded block.
-/

namespace GrammarLint.Grammar

inductive Keyword where
  | grammar
  | lexer
  | parser
  | tree
  | options
  | imports
  | tokens
  | scope
  | returns
  | throws
  | fragmentRule
  | protectedRule
  | publicRule
  | privateRule
  | catchClause
  | finallyClause
  deriving DecidableEq, Repr

namespace Keyword

def text : Keyword → String
  | .grammar => "grammar"
  | .lexer => "lexer"
  | .parser => "parser"
  | .tree => "tree"
  | .options => "options"
  | .imports => "import"
  | .tokens => "tokens"
  | .scope => "scope"
  | .returns => "returns"
  | .throws => "throws"
  | .fragmentRule => "fragment"
  | .protectedRule => "protected"
  | .publicRule => "public"
  | .privateRule => "private"
  | .catchClause => "catch"
  | .finallyClause => "finally"

def name : Keyword → String
  | .grammar => "GRAMMAR_KW"
  | .lexer => "LEXER_KW"
  | .parser => "PARSER_KW"
  | .tree => "TREE_KW"
  | .options => "OPTIONS_KW"
  | .imports => "IMPORT_KW"
  | .tokens => "TOKENS_KW"
  | .scope => "SCOPE_KW"
  | .returns => "RETURNS_KW"
  | .throws => "THROWS_KW"
  | .fragmentRule => "FRAGMENT_KW"
  | .protectedRule => "PROTECTED_KW"
  | .publicRule => "PUBLIC_KW"
  | .privateRule => "PRIVATE_KW"
  | .catchClause => "CATCH_KW"
  | .finallyClause => "FINALLY_KW"

def all : List Keyword := [
  .grammar, .lexer, .parser, .tree, .options, .imports, .tokens, .scope, .returns,
  .throws, .fragmentRule, .protectedRule, .publicRule, .privateRule, .catchClause, .finallyClause]

theorem mem_all (keyword : Keyword) : keyword ∈ all := by
  cases keyword <;> decide

end Keyword

inductive Mark where
  | semicolon
  | doubleColon
  | colon
  | leftBrace
  | rightBrace
  | treeBegin
  | leftParen
  | rightParen
  | bar
  | atSign
  | arrow
  | range
  | plusAssign
  | implies
  | assign
  | question
  | star
  | plus
  | bang
  | caret
  | tilde
  | dot
  | less
  | greater
  | comma
  | dollar
  deriving DecidableEq, Repr

namespace Mark

def text : Mark → String
  | .semicolon => ";"
  | .doubleColon => "::"
  | .colon => ":"
  | .leftBrace => "\x7b"
  | .rightBrace => "\x7d"
  | .treeBegin => "^("
  | .leftParen => "("
  | .rightParen => ")"
  | .bar => "|"
  | .atSign => "@"
  | .arrow => "->"
  | .range => ".."
  | .plusAssign => "+="
  | .implies => "=>"
  | .assign => "="
  | .question => "?"
  | .star => "*"
  | .plus => "+"
  | .bang => "!"
  | .caret => "^"
  | .tilde => "~"
  | .dot => "."
  | .less => "<"
  | .greater => ">"
  | .comma => ","
  | .dollar => "$"

def name : Mark → String
  | .semicolon => "SEMI"
  | .doubleColon => "COLONCOLON"
  | .colon => "COLON"
  | .leftBrace => "LBRACE"
  | .rightBrace => "RBRACE"
  | .treeBegin => "TREE_BEGIN"
  | .leftParen => "LPAREN"
  | .rightParen => "RPAREN"
  | .bar => "BAR"
  | .atSign => "AT"
  | .arrow => "REWRITE"
  | .range => "RANGE"
  | .plusAssign => "PLUS_ASSIGN"
  | .implies => "IMPLIES"
  | .assign => "ASSIGN"
  | .question => "QUESTION"
  | .star => "STAR"
  | .plus => "PLUS"
  | .bang => "BANG"
  | .caret => "ROOT_OP"
  | .tilde => "TILDE"
  | .dot => "DOT"
  | .less => "LT"
  | .greater => "GT"
  | .comma => "COMMA"
  | .dollar => "DOLLAR"

def all : List Mark := [
  .semicolon, .doubleColon, .colon, .leftBrace, .rightBrace, .treeBegin, .leftParen,
  .rightParen, .bar, .atSign, .arrow, .range, .plusAssign, .implies, .assign,
  .question, .star, .plus, .bang, .caret, .tilde, .dot, .less, .greater, .comma, .dollar]

theorem mem_all (mark : Mark) : mark ∈ all := by
  cases mark <;> decide

end Mark

inductive Terminal where
  | keyword (word : Keyword)
  | mark (sign : Mark)
  | identifier
  | qualifiedId
  | stringLiteral
  | doubleQuoted
  | integer
  | actionBlock
  | argBlock
  deriving DecidableEq, Repr

namespace Terminal

def name : Terminal → String
  | .keyword word => word.name
  | .mark sign => sign.name
  | .identifier => "IDENT"
  | .qualifiedId => "QUALIFIED_ID"
  | .stringLiteral => "STRING_LITERAL"
  | .doubleQuoted => "DQ_STRING"
  | .integer => "INT"
  | .actionBlock => "ACTION_BLOCK"
  | .argBlock => "ARG_BLOCK"

def all : List Terminal :=
  Keyword.all.map .keyword ++ Mark.all.map .mark ++
    [.identifier, .qualifiedId, .stringLiteral, .doubleQuoted, .integer, .actionBlock, .argBlock]

theorem mem_all (type : Terminal) : type ∈ all := by
  cases type <;> simp [all, Keyword.mem_all, Mark.mem_all]

def ofName? (name : String) : Option Terminal :=
  all.find? (·.name == name)

end Terminal

inductive Rule where
  | terminal (type : Terminal)
  | trivia
  | grammarFile
  | grammarHead
  | grammarType
  | prequel
  | optionsSpec
  | option
  | optionValue
  | importSpec
  | delegate
  | tokensSpec
  | tokenSpec
  | grammarScope
  | actionSpec
  | ruleSpec
  | ruleModifier
  | ruleBang
  | ruleArgs
  | returnsSpec
  | throwsSpec
  | ruleScope
  | exceptionGroup
  | catchClause
  | finallyClause
  | altList
  | alternative
  | element
  | subrule
  | subruleOptions
  | atom
  | operator
  | actionChunk
  | actionNested
  | actionString
  | actionComment
  | actionText
  | actionQuote
  | argChunk
  | argNested
  | argText
  deriving DecidableEq, Repr

namespace Rule

def name : Rule → String
  | .terminal type => type.name
  | .trivia => "_"
  | .grammarFile => "grammar_file"
  | .grammarHead => "grammar_head"
  | .grammarType => "grammar_type"
  | .prequel => "prequel"
  | .optionsSpec => "options_spec"
  | .option => "option"
  | .optionValue => "option_value"
  | .importSpec => "import_spec"
  | .delegate => "delegate"
  | .tokensSpec => "tokens_spec"
  | .tokenSpec => "token_spec"
  | .grammarScope => "grammar_scope"
  | .actionSpec => "action_spec"
  | .ruleSpec => "rule_spec"
  | .ruleModifier => "rule_modifier"
  | .ruleBang => "rule_bang"
  | .ruleArgs => "rule_args"
  | .returnsSpec => "returns_spec"
  | .throwsSpec => "throws_spec"
  | .ruleScope => "rule_scope"
  | .exceptionGroup => "exception_group"
  | .catchClause => "catch_clause"
  | .finallyClause => "finally_clause"
  | .altList => "alt_list"
  | .alternative => "alternative"
  | .element => "element"
  | .subrule => "subrule"
  | .subruleOptions => "subrule_options"
  | .atom => "atom"
  | .operator => "operator"
  | .actionChunk => "action_chunk"
  | .actionNested => "action_nested"
  | .actionString => "action_string"
  | .actionComment => "action_comment"
  | .actionText => "action_text"
  | .actionQuote => "action_quote"
  | .argChunk => "arg_chunk"
  | .argNested => "arg_nested"
  | .argText => "arg_text"

def structural : List Rule := [
  .grammarFile, .grammarHead, .grammarType, .prequel, .optionsSpec, .option, .optionValue,
  .importSpec, .delegate, .tokensSpec, .tokenSpec, .grammarScope, .actionSpec, .ruleSpec,
  .ruleModifier, .ruleBang, .ruleArgs, .returnsSpec, .throwsSpec, .ruleScope,
  .exceptionGroup, .catchClause, .finallyClause, .altList, .alternative, .element,
  .subrule, .subruleOptions, .atom, .operator, .actionChunk, .actionNested, .actionString,
  .actionComment, .actionText, .actionQuote, .argChunk, .argNested, .argText]

def all : List Rule :=
  Terminal.all.map .terminal ++ .trivia :: structural

theorem mem_all (rule : Rule) : rule ∈ all := by
  cases rule <;> simp [all, structural, Terminal.mem_all]

def ofName? (name : String) : Option Rule :=
  all.find? (·.name == name)

end Rule

end GrammarLint.Grammar
