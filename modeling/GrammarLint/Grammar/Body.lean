import GrammarLint.Grammar.Expr

/-!
# The grammar of grammars

What each rule matches.  A grammar file is a head, sections, and rules.  The
alternatives of a rule are read permissively: apart from parenthesised
subrules, a rule body is a stream of elements, arrows included.  Embedded
blocks in braces and brackets nest, and brackets inside their strings and
comments do not count.
-/

namespace GrammarLint.Grammar

namespace Rule

def expr (rule : Rule) : Expr := .rule rule

end Rule

def Keyword.expr (keyword : Keyword) : Expr := .rule (.terminal (.keyword keyword))

def Mark.expr (mark : Mark) : Expr := .rule (.terminal (.mark mark))

def Terminal.expr (terminal : Terminal) : Expr := .rule (.terminal terminal)

/-- White space and comments may follow every token. -/
def gap : Expr := .rule .trivia

def identifier : Expr := Terminal.expr .identifier

def actionBlock : Expr := Terminal.expr .actionBlock

def argBlock : Expr := Terminal.expr .argBlock

def openBrace : String := "\x7b"

def closeBrace : String := "\x7d"

def Terminal.body : Terminal → Expr
  | .keyword word => .pattern (.word word.text)
  | .mark sign => .literal sign.text
  | .identifier => .pattern .identifier
  | .qualifiedId => .pattern .qualified
  | .stringLiteral => .pattern (.quoted '\'')
  | .doubleQuoted => .pattern (.quoted '"')
  | .integer => .pattern .digits
  | .actionBlock =>
      .inOrder (.literal openBrace) [.many (Rule.expr .actionChunk), .literal closeBrace]
  | .argBlock => .inOrder (.literal "[") [.many (Rule.expr .argChunk), .literal "]"]

def Rule.body : Rule → Expr
  | .terminal type => type.body
  | .trivia => .pattern .trivia
  -- file structure
  | .grammarFile =>
      .inOrder gap [expr .grammarHead, .many (expr .prequel), .many (expr .ruleSpec)]
  | .grammarHead =>
      .inOrder (.optional (expr .grammarType))
        [Keyword.expr .grammar, gap, identifier, gap, Mark.expr .semicolon, gap]
  | .grammarType =>
      .inOrder (.firstOf (Keyword.expr .lexer) [Keyword.expr .parser, Keyword.expr .tree]) [gap]
  | .prequel =>
      .firstOf (expr .optionsSpec)
        [expr .importSpec, expr .tokensSpec, expr .grammarScope, expr .actionSpec]
  | .optionsSpec =>
      .inOrder (Keyword.expr .options)
        [gap, Mark.expr .leftBrace, gap, .many (expr .option), Mark.expr .rightBrace, gap]
  | .option =>
      .inOrder identifier
        [gap, Mark.expr .assign, gap, expr .optionValue, gap, Mark.expr .semicolon, gap]
  | .optionValue =>
      .firstOf (Terminal.expr .qualifiedId)
        [Terminal.expr .stringLiteral, Terminal.expr .integer, Mark.expr .star]
  | .importSpec =>
      .inOrder (Keyword.expr .imports)
        [gap, expr .delegate, .many (.inOrder (Mark.expr .comma) [gap, expr .delegate]),
          Mark.expr .semicolon, gap]
  | .delegate =>
      .inOrder identifier
        [gap, .optional (.inOrder (Mark.expr .assign) [gap, identifier, gap])]
  | .tokensSpec =>
      .inOrder (Keyword.expr .tokens)
        [gap, Mark.expr .leftBrace, gap, .many (expr .tokenSpec), Mark.expr .rightBrace, gap]
  | .tokenSpec =>
      .inOrder identifier
        [gap, .optional (.inOrder (Mark.expr .assign) [gap, Terminal.expr .stringLiteral, gap]),
          Mark.expr .semicolon, gap]
  | .grammarScope =>
      .inOrder (Keyword.expr .scope) [gap, identifier, gap, actionBlock, gap]
  | .actionSpec =>
      .inOrder (Mark.expr .atSign)
        [gap, .optional (.inOrder identifier [gap, Mark.expr .doubleColon, gap]),
          identifier, gap, actionBlock, gap]
  -- rules
  | .ruleSpec =>
      .inOrder (.optional (expr .ruleModifier))
        [identifier, gap, .optional (expr .ruleBang), .optional (expr .ruleArgs),
          .optional (expr .returnsSpec), .optional (expr .throwsSpec),
          .optional (expr .optionsSpec), .optional (expr .ruleScope),
          .many (expr .actionSpec), Mark.expr .colon, gap, expr .altList,
          Mark.expr .semicolon, gap, .optional (expr .exceptionGroup)]
  | .ruleModifier =>
      .inOrder
        (.firstOf (Keyword.expr .fragmentRule)
          [Keyword.expr .protectedRule, Keyword.expr .publicRule, Keyword.expr .privateRule])
        [gap]
  | .ruleBang => .inOrder (Mark.expr .bang) [gap]
  | .ruleArgs => .inOrder argBlock [gap]
  | .returnsSpec => .inOrder (Keyword.expr .returns) [gap, argBlock, gap]
  | .throwsSpec =>
      .inOrder (Keyword.expr .throws)
        [gap, Terminal.expr .qualifiedId, gap,
          .many (.inOrder (Mark.expr .comma) [gap, Terminal.expr .qualifiedId, gap])]
  | .ruleScope =>
      .inOrder (Keyword.expr .scope)
        [gap, .optional (.inOrder actionBlock [gap]),
          .optional
            (.inOrder identifier
              [gap, .many (.inOrder (Mark.expr .comma) [gap, identifier, gap]),
                Mark.expr .semicolon, gap])]
  | .exceptionGroup =>
      .firstOf
        (.inOrder (.many1 (expr .catchClause)) [.optional (expr .finallyClause)])
        [expr .finallyClause]
  | .catchClause =>
      .inOrder (Keyword.expr .catchClause) [gap, argBlock, gap, actionBlock, gap]
  | .finallyClause => .inOrder (Keyword.expr .finallyClause) [gap, actionBlock, gap]
  | .altList =>
      .inOrder (expr .alternative)
        [.many (.inOrder (Mark.expr .bar) [gap, expr .alternative])]
  | .alternative => .many (expr .element)
  | .element => .firstOf (expr .subrule) [expr .atom]
  | .subrule =>
      .inOrder (.firstOf (Mark.expr .treeBegin) [Mark.expr .leftParen])
        [gap, .optional (expr .subruleOptions), expr .altList, Mark.expr .rightParen, gap]
  | .subruleOptions => .inOrder (expr .optionsSpec) [Mark.expr .colon, gap]
  | .atom =>
      .inOrder
        (.firstOf actionBlock
          [argBlock, Terminal.expr .stringLiteral, Terminal.expr .doubleQuoted,
            Terminal.expr .integer, identifier, expr .operator])
        [gap]
  | .operator =>
      .firstOf (Mark.expr .arrow)
        [Mark.expr .range, Mark.expr .plusAssign, Mark.expr .implies, Mark.expr .assign,
          Mark.expr .question, Mark.expr .star, Mark.expr .plus, Mark.expr .bang,
          Mark.expr .caret, Mark.expr .tilde, Mark.expr .dot, Mark.expr .less,
          Mark.expr .greater, Mark.expr .comma, Mark.expr .dollar]
  -- embedded blocks
  | .actionChunk =>
      .firstOf (expr .actionNested)
        [expr .actionString, expr .actionComment, expr .actionText, expr .actionQuote]
  | .actionNested =>
      .inOrder (.literal openBrace) [.many (expr .actionChunk), .literal closeBrace]
  | .actionString => .firstOf (.pattern (.quoted '"')) [.pattern (.quoted '\'')]
  | .actionComment => .firstOf (.pattern .lineComment) [.pattern .blockComment]
  | .actionText =>
      .firstOf (.pattern (.runWithout ['\x7b', '\x7d', '"', '\'', '/'])) [.literal "/"]
  | .actionQuote => .pattern (.oneOf ['"', '\''])
  | .argChunk =>
      .firstOf (expr .argNested) [expr .actionString, expr .argText, expr .actionQuote]
  | .argNested => .inOrder (.literal "[") [.many (expr .argChunk), .literal "]"]
  | .argText => .pattern (.runWithout ['[', ']', '"', '\''])

end GrammarLint.Grammar
