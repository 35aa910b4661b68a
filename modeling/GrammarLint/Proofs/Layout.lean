import GrammarLint.Proofs.Lexemes
import GrammarLint.Tree.Node

/-!
# Conventional layout

A grammar with options, tokens, and rules whose alternatives are names; how it is
written by the conventions, line by line; and the kinds and texts of its tree.
-/

namespace GrammarLint

open Grammar

namespace Layout

structure Name where
  chars : List Char
  valid : isName chars = true

def Name.text (name : Name) : String :=
  String.ofList name.chars

structure Literal where
  body : List Char
  valid : isPlain body = true

def modifiers : List String :=
  ["fragment", "protected", "public", "private"]

structure RuleLayout where
  name : Name
  name_free : name.text ∉ modifiers
  first : List Name
  others : List (List Name)

end Layout

/-- A grammar that the conventions can lay out.  Tokens are sorted by name, and
imaginary tokens are in upper case. -/
structure Layout where
  name : Layout.Name
  options : List (Layout.Name × Layout.Name)
  pairs : List (Layout.Name × Layout.Literal)
  pairs_sorted : (pairs.map (·.1.text)).Pairwise (· ≤ ·)
  imaginary : List Layout.Name
  imaginary_sorted : (imaginary.map (·.text)).Pairwise (· ≤ ·)
  imaginary_upper : ∀ name ∈ imaginary, name.chars.any Char.isLower = false
  rules : List Layout.RuleLayout

namespace Layout

/-! ## Lines -/

def optionEntry (entry : Name × Name) : List Char :=
  entry.1.chars ++ " = ".toList ++ entry.2.chars ++ ";".toList

def pairEntry (entry : Name × Literal) : List Char :=
  entry.1.chars ++ " = '".toList ++ entry.2.body ++ "';".toList

def imaginaryEntry (name : Name) : List Char :=
  name.chars ++ ";".toList

def indentation : List Char := "    ".toList

def blockLines (word : String) (entries : List (List Char)) : List (List Char) :=
  if entries = [] then []
  else (word ++ "\x7b").toList :: entries.map (indentation ++ ·) ++ ["\x7d".toList]

def alternativeText (names : List Name) : List Char :=
  [' '].intercalate (names.map Name.chars)

def ruleLines (rule : RuleLayout) : List (List Char) :=
  rule.name.chars :: ("    : ".toList ++ alternativeText rule.first) ::
    rule.others.map ("    | ".toList ++ alternativeText ·) ++ ["    ;".toList]

def lines (layout : Layout) : List (List Char) :=
  ("grammar ".toList ++ layout.name.chars ++ ";".toList) ::
    blockLines "options" (layout.options.map optionEntry) ++
    blockLines "tokens" (layout.pairs.map pairEntry ++ layout.imaginary.map imaginaryEntry) ++
    layout.rules.flatMap ruleLines

def joinLines (lines : List (List Char)) : List Char :=
  lines.flatMap (· ++ ['\n'])

def text (layout : Layout) : String :=
  String.ofList (joinLines layout.lines)

/-- A grammar with every part, and with a keyword for the name of a rule. -/
def sample : Layout where
  name := ⟨"clean".toList, rfl⟩
  options := [(⟨"language".toList, rfl⟩, ⟨"Java".toList, rfl⟩)]
  pairs := [(⟨"A".toList, rfl⟩, ⟨"a".toList, rfl⟩), (⟨"B".toList, rfl⟩, ⟨"b\"".toList, rfl⟩)]
  pairs_sorted := by decide
  imaginary := [⟨"BLOCK".toList, rfl⟩, ⟨"CALL".toList, rfl⟩]
  imaginary_sorted := by decide
  imaginary_upper := by decide
  rules := [
    ⟨⟨"start".toList, rfl⟩, by decide, [⟨"A".toList, rfl⟩, ⟨"scope".toList, rfl⟩], [[]]⟩,
    ⟨⟨"scope".toList, rfl⟩, by decide, [], []⟩]

example : sample.text =
    "grammar clean;\noptions\x7b\n    language = Java;\n\x7d\ntokens\x7b\n" ++
      "    A = 'a';\n    B = 'b\"';\n    BLOCK;\n    CALL;\n\x7d\n" ++
      "start\n    : A scope\n    | \n    ;\nscope\n    : \n    ;\n" := by
  decide +kernel

/-! ## Trees -/

def optionNode (entry : Name × Name) : Node :=
  { kind := .assign, text := "="
    children := [{ kind := .id, text := entry.1.text }, { kind := .id, text := entry.2.text }] }

def literalNode (literal : Literal) : Node :=
  { kind := if literal.body.length = 1 then .charLiteral else .stringLiteral
    text := String.ofList ('\'' :: literal.body ++ ['\'']) }

def pairNode (entry : Name × Literal) : Node :=
  { kind := .assign, text := "="
    children := [{ kind := .tokenRef, text := entry.1.text }, literalNode entry.2] }

def imaginaryNode (name : Name) : Node :=
  { kind := .tokenRef, text := name.text }

def blockNodes (kind : Kind) (word : String) (entries : List Node) : List Node :=
  if entries = [] then [] else [{ kind, text := word, children := entries }]

def referenceNode (name : Name) : Node :=
  { kind := if name.chars.head?.any Char.isUpper then .tokenRef else .ruleRef, text := name.text }

def alternativeNode (names : List Name) : Node :=
  { kind := .alternative, text := "ALT", children := names.map referenceNode }

def ruleNode (rule : RuleLayout) : Node :=
  { kind := .rule, text := rule.name.text
    children := [
      { kind := .id, text := rule.name.text },
      { kind := .block, text := "BLOCK"
        children := (rule.first :: rule.others).map alternativeNode },
      { kind := .endOfRule, text := "<end-of-rule>" }] }

def tree (layout : Layout) : Node :=
  { kind := .combinedGrammar, text := "grammar"
    children :=
      { kind := .id, text := layout.name.text } ::
        blockNodes .options "options" (layout.options.map optionNode) ++
        blockNodes .tokens "tokens"
          (layout.pairs.map pairNode ++ layout.imaginary.map imaginaryNode) ++
        layout.rules.map ruleNode }

end Layout

/-! ## Kinds and texts -/

namespace Node

mutual

def bare : Node → Node
  | ⟨kind, text, _, _, _, children⟩ => { kind, text, children := bares children }

def bares : List Node → List Node
  | [] => []
  | node :: nodes => bare node :: bares nodes

end

theorem bares_eq_map (nodes : List Node) : bares nodes = nodes.map bare := by
  induction nodes with
  | nil => rfl
  | cons node nodes ih => rw [bares, ih, List.map_cons]

theorem bare_eq (node : Node) :
    node.bare = { kind := node.kind, text := node.text, children := node.children.map bare } := by
  cases node
  rw [bare, bares_eq_map]

section Fields

variable (node : Node) (nodes : List Node)

@[simp] theorem bare_kind : node.bare.kind = node.kind := by
  rw [bare_eq]

@[simp] theorem bare_text : node.bare.text = node.text := by
  rw [bare_eq]

@[simp] theorem bare_children : node.bare.children = node.children.map bare := by
  rw [bare_eq]

theorem bare_addChildren :
    (node.addChildren nodes).bare = node.bare.addChildren (nodes.map bare) := by
  rw [bare_eq, bare_eq node]
  simp [addChildren]

end Fields

end Node

end GrammarLint
