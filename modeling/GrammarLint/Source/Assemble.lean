import GrammarLint.Source.Outline
import GrammarLint.Tree.Node

/-!
# From outlines to nodes

Every group of an outline turns the items of its parts, tokens and nodes in
source order, into items of its own.  Groups that have a node of their own give
that node; the others pass their items on.  Where the items are not those that
the rule of the group promises, there is no result.
-/

namespace GrammarLint

open Grammar

inductive Item where
  | token (value : Token)
  | node (value : Node)
  deriving DecidableEq, Repr

namespace Item

def token? : Item → Option Token
  | .token value => some value
  | .node _ => none

def node? : Item → Option Node
  | .token _ => none
  | .node value => some value

def tokens (items : List Item) : List Token :=
  items.filterMap token?

def nodes (items : List Item) : List Node :=
  items.filterMap node?

def tokensOf (types : List Terminal) (items : List Item) : List Token :=
  (tokens items).filter (types.contains ·.type)

end Item

/-! ## Nodes of tokens -/

/-- A quoted text of one character, or of a backslash and one character, is a
character literal. -/
def literalKind (text : String) : Kind :=
  match text.toList.tail.dropLast with
  | [_] => .charLiteral
  | ['\\', _] => .charLiteral
  | _ => .stringLiteral

namespace Node

def ofBlock (kind : Kind) (token : Token) : Node :=
  { Node.ofToken kind token with text := String.ofList token.text.toList.tail.dropLast }

def moveTo (token : Token) (node : Node) : Node :=
  { node with line := token.line, column := token.column }

/-- Puts a block at its opening token; alternatives without a token of their own
take the same place. -/
def anchor (token : Token) (block : Node) : Node :=
  { block.moveTo token with
    tokenIndex := token.index
    children := block.children.map fun alt =>
      if alt.tokenIndex < 0 then alt.moveTo token else alt }

end Node

def grammarKind? : Terminal → Option Kind
  | .keyword .grammar => some .combinedGrammar
  | .keyword .lexer => some .lexerGrammar
  | .keyword .parser => some .parserGrammar
  | .keyword .tree => some .treeGrammar
  | _ => none

def modifierKind? : Terminal → Option Kind
  | .keyword .fragmentRule => some .fragmentRule
  | .keyword .protectedRule => some .protectedRule
  | .keyword .publicRule => some .publicRule
  | .keyword .privateRule => some .privateRule
  | _ => none

def operatorKind? : Mark → Option Kind
  | .arrow => some .arrow
  | .range => some .range
  | .plusAssign => some .plusAssign
  | .implies => some .implies
  | .assign => some .assign
  | .question => some .optional
  | .star => some .closure
  | .plus => some .positiveClosure
  | .bang => some .bang
  | .caret => some .root
  | .tilde => some .negation
  | .dot => some .wildcard
  | .less => some .openElementOption
  | .greater => some .closeElementOption
  | .comma => some .comma
  | .dollar => some .labelRef
  | _ => none

/-- The kind of an identifier in a rule body: tokens start with a capital. -/
def referenceKind (text : String) : Kind :=
  if text.toList.head?.any Char.isUpper then .tokenRef else .ruleRef

namespace Assemble

open Item

/-! ## File structure -/

def grammarFile (items : List Item) : Option Node :=
  match nodes items with
  | root :: sections => some (root.addChildren sections)
  | [] => none

def grammarHead (items : List Item) : Option Node :=
  match tokens items, tokensOf [.identifier] items with
  | first :: _, name :: _ =>
      (grammarKind? first.type).map fun kind =>
        (Node.ofToken kind first).addChild (.ofToken .id name)
  | _, _ => none

def listing (keyword : Keyword) (kind : Kind) (items : List Item) : Option Node :=
  match tokensOf [.keyword keyword] items with
  | first :: _ => some ((Node.ofToken kind first).addChildren (nodes items))
  | [] => none

def optionKind (value : Token) : Kind :=
  match value.type with
  | .stringLiteral => literalKind value.text
  | .integer => .integer
  | .mark .star => .stringLiteral
  | _ => .id

def pair (sign : Token) (left right : Node) : Node :=
  (Node.ofToken .assign sign).addChildren [left, right]

def option (items : List Item) : Option Node :=
  match tokens items with
  | key :: sign :: value :: _ =>
      some (pair sign (.ofToken .id key) (.ofToken (optionKind value) value))
  | _ => none

def delegate (items : List Item) : Option Node :=
  match tokens items with
  | [name] => some (.ofToken .id name)
  | [short, sign, name] => some (pair sign (.ofToken .id short) (.ofToken .id name))
  | _ => none

def tokenSpec (items : List Item) : Option Node :=
  match tokens items with
  | name :: next :: rest =>
      let reference := Node.ofToken .tokenRef name
      if next.type = .mark .assign then
        match rest with
        | literal :: _ =>
            some (pair next reference (.ofToken (literalKind literal.text) literal))
        | [] => none
      else some reference
  | _ => none

def grammarScope (items : List Item) : Option Node :=
  match tokensOf [.keyword .scope, .identifier, .actionBlock] items with
  | [keyword, name, action] =>
      some ((Node.ofToken .scope keyword).addChildren
        [.ofToken .id name, .ofBlock .action action])
  | _ => none

def actionSpec (items : List Item) : Option Node :=
  match tokensOf [.mark .atSign] items, tokensOf [.actionBlock] items with
  | sign :: _, action :: _ =>
      some ((Node.ofToken .ampersand sign).addChildren
        ((tokensOf [.identifier] items).map (Node.ofToken .id) ++ [.ofBlock .action action]))
  | _, _ => none

/-! ## Rules -/

def ruleParts (colon end? : Option Token) : List Item → List Node × Option Token
  | [] => ([], end?)
  | .node part :: items =>
      let placed :=
        match part.kind, colon with
        | .block, some sign => part.anchor sign
        | _, _ => part
      let (nodes, last) := ruleParts colon end? items
      (placed :: nodes, last)
  | .token sign :: items =>
      match sign.type with
      | .mark .colon => ruleParts (some sign) end? items
      | .mark .semicolon => ruleParts colon (some sign) items
      | _ => ruleParts colon end? items

def endLabel : String := "<end-of-rule>"

def ruleSpec (items : List Item) : Option Node :=
  match tokensOf [.identifier] items with
  | name :: _ =>
      let (parts, last) := ruleParts none none items
      let closing := last.toList.map fun token =>
        { Node.ofToken .endOfRule token with text := endLabel }
      some ((Node.ofToken .rule name).addChildren (.ofToken .id name :: parts ++ closing))
  | [] => none

def ruleModifier (items : List Item) : Option Node :=
  match tokens items with
  | first :: _ => (modifierKind? first.type).map (Node.ofToken · first)
  | [] => none

def ruleBang (items : List Item) : Option Node :=
  (tokens items).head?.map (Node.ofToken .bang)

def ruleArgs (items : List Item) : Option Node :=
  (tokens items).head?.map (Node.ofBlock .argAction)

def returnsSpec (items : List Item) : Option Node :=
  match tokens items with
  | [keyword, args] =>
      some ((Node.ofToken .returns keyword).addChild (.ofBlock .argAction args))
  | _ => none

def throwsSpec (items : List Item) : Option Node :=
  match tokensOf [.keyword .throws, .qualifiedId] items with
  | keyword :: names =>
      some ((Node.ofToken .throws keyword).addChildren (names.map (Node.ofToken .id)))
  | [] => none

def scopePart? (token : Token) : Option Node :=
  match token.type with
  | .actionBlock => some (.ofBlock .action token)
  | .identifier => some (.ofToken .id token)
  | _ => none

def ruleScope (items : List Item) : Option Node :=
  match tokens items with
  | keyword :: rest =>
      some ((Node.ofToken .scope keyword).addChildren (rest.filterMap scopePart?))
  | [] => none

def catchClause (items : List Item) : Option Node :=
  match tokens items with
  | [keyword, args, action] =>
      some ((Node.ofToken .catchClause keyword).addChildren
        [.ofBlock .argAction args, .ofBlock .action action])
  | _ => none

def finallyClause (items : List Item) : Option Node :=
  match tokens items with
  | [keyword, action] =>
      some ((Node.ofToken .finallyClause keyword).addChild (.ofBlock .action action))
  | _ => none

/-! ## Alternatives -/

def blockLabel : String := "BLOCK"

def altLabel : String := "ALT"

def altList (items : List Item) : Node :=
  { kind := .block, text := blockLabel, children := nodes items }

def alternative (items : List Item) : Node :=
  match nodes items with
  | [] => { kind := .alternative, text := altLabel }
  | first :: rest =>
      { kind := .alternative, text := altLabel, line := first.line, column := first.column,
        tokenIndex := first.tokenIndex, children := first :: rest }

/-- A subrule takes over the alternatives of its block, after its options. -/
def subrule (items : List Item) : Option Node :=
  match items, (nodes items).getLast? with
  | .token opening :: _, some block =>
      let kind := if opening.type = .mark .treeBegin then Kind.treeBegin else .block
      some (((Node.ofToken kind opening).addChildren
        ((nodes items).dropLast ++ block.children)).anchor opening)
  | _, _ => none

def atom (items : List Item) : Option Node :=
  match tokens items with
  | [] => none
  | first :: _ =>
      match first.type with
      | .identifier => some (.ofToken (referenceKind first.text) first)
      | .actionBlock => some (.ofBlock .action first)
      | .argBlock => some (.ofBlock .argAction first)
      | .stringLiteral => some (.ofToken (literalKind first.text) first)
      | .doubleQuoted => some (.ofToken .stringLiteral first)
      | .integer => some (.ofToken .integer first)
      | .mark sign => (operatorKind? sign).map (Node.ofToken · first)
      | _ => none

end Assemble

def assemble (rule : Rule) (items : List Item) : Option (List Item) :=
  let single (node : Option Node) : Option (List Item) := node.map fun n => [.node n]
  match rule with
  | .grammarFile => single (Assemble.grammarFile items)
  | .grammarHead => single (Assemble.grammarHead items)
  | .optionsSpec => single (Assemble.listing .options .options items)
  | .option => single (Assemble.option items)
  | .importSpec => single (Assemble.listing .imports .imports items)
  | .delegate => single (Assemble.delegate items)
  | .tokensSpec => single (Assemble.listing .tokens .tokens items)
  | .tokenSpec => single (Assemble.tokenSpec items)
  | .grammarScope => single (Assemble.grammarScope items)
  | .actionSpec => single (Assemble.actionSpec items)
  | .ruleSpec => single (Assemble.ruleSpec items)
  | .ruleModifier => single (Assemble.ruleModifier items)
  | .ruleBang => single (Assemble.ruleBang items)
  | .ruleArgs => single (Assemble.ruleArgs items)
  | .returnsSpec => single (Assemble.returnsSpec items)
  | .throwsSpec => single (Assemble.throwsSpec items)
  | .ruleScope => single (Assemble.ruleScope items)
  | .catchClause => single (Assemble.catchClause items)
  | .finallyClause => single (Assemble.finallyClause items)
  | .altList => single (some (Assemble.altList items))
  | .alternative => single (some (Assemble.alternative items))
  | .subrule => single (Assemble.subrule items)
  | .atom => single (Assemble.atom items)
  | _ => some items

namespace Outline

mutual

def items : Outline → Option (List Item)
  | .token value => some [.token value]
  | .group rule parts =>
      match itemsOf parts with
      | some items => assemble rule items
      | none => none

def itemsOf : List Outline → Option (List Item)
  | [] => some []
  | part :: parts =>
      match items part, itemsOf parts with
      | some first, some rest => some (first ++ rest)
      | _, _ => none

end

end Outline

end GrammarLint
