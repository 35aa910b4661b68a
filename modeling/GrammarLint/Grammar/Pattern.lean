import GrammarLint.Text.Blank
import GrammarLint.Text.Word

/-!
# Patterns

The regular shapes that rules are built from.  Scanning a pattern at the front
of a text gives the characters matched and the characters after them.  Every
pattern is deterministic: no shorter match of it would let a rule succeed that
the scanned match makes fail.
-/

namespace GrammarLint.Grammar

open Text

inductive Pattern where
  /-- The word, not followed by a word character. -/
  | word (text : String)
  | identifier
  | qualified
  | quoted (quote : Char)
  | digits
  | lineComment
  | blockComment
  | runWithout (excluded : List Char)
  | oneOf (chars : List Char)
  | trivia
  deriving DecidableEq, Repr

/-! ## Identifiers -/

def isIdentStart (c : Char) : Bool := c.isAlpha || c == '_'

def isIdentPart (c : Char) : Bool := c.isAlphanum || c == '_'

def scanIdentifier? : List Char → Option (List Char × List Char)
  | [] => none
  | c :: chars =>
      if isIdentStart c then
        some (c :: chars.takeWhile isIdentPart, chars.dropWhile isIdentPart)
      else none

/-- The dots and identifiers that continue a qualified name; a dot that no
identifier follows is left. -/
def scanQualifiers (inName : Bool) : List Char → List Char × List Char
  | [] => ([], [])
  | c :: chars =>
      if inName && isIdentPart c then
        let (more, rest) := scanQualifiers true chars
        (c :: more, rest)
      else
        match c, chars with
        | '.', d :: chars =>
            if isIdentStart d then
              let (more, rest) := scanQualifiers true chars
              ('.' :: d :: more, rest)
            else ([], '.' :: d :: chars)
        | c, chars => ([], c :: chars)

/-! ## Quoted texts and comments -/

def scanQuotedBody? (quote : Char) : List Char → Option (List Char × List Char)
  | [] => none
  | '\\' :: c :: chars =>
      if c = '\n' then none
      else (scanQuotedBody? quote chars).map fun (body, rest) => ('\\' :: c :: body, rest)
  | c :: chars =>
      if c = quote then some ([c], chars)
      else if c = '\n' ∨ c = '\\' then none
      else (scanQuotedBody? quote chars).map fun (body, rest) => (c :: body, rest)

def scanCommentBody? : List Char → Option (List Char × List Char)
  | [] => none
  | '*' :: '/' :: chars => some (['*', '/'], chars)
  | c :: chars => (scanCommentBody? chars).map fun (body, rest) => (c :: body, rest)

def scanLineComment? : List Char → Option (List Char × List Char)
  | '/' :: '/' :: chars =>
      some ('/' :: '/' :: chars.takeWhile (· != '\n'), chars.dropWhile (· != '\n'))
  | _ => none

def scanBlockComment? : List Char → Option (List Char × List Char)
  | '/' :: '*' :: chars =>
      (scanCommentBody? chars).map fun (body, rest) => ('/' :: '*' :: body, rest)
  | _ => none

/-! ## Trivia -/

def triviaPiece (chars : List Char) : Nat :=
  match chars with
  | [] => 0
  | c :: _ =>
      if isSpace c then 1
      else
        match scanLineComment? chars with
        | some (comment, _) => comment.length
        | none =>
            match scanBlockComment? chars with
            | some (comment, _) => comment.length
            | none => 0

/-- Trivia at the front of a text, whose first `pending` characters are known
to belong to it. -/
def scanTrivia : (pending : Nat) → List Char → List Char × List Char
  | _, [] => ([], [])
  | pending + 1, c :: chars =>
      let (more, rest) := scanTrivia pending chars
      (c :: more, rest)
  | 0, c :: chars =>
      match triviaPiece (c :: chars) with
      | 0 => ([], c :: chars)
      | pending + 1 =>
          let (more, rest) := scanTrivia pending chars
          (c :: more, rest)

/-! ## Scanning -/

def endsWord : List Char → Bool
  | [] => true
  | c :: _ => !isWord c

namespace Pattern

def scan? (pattern : Pattern) (chars : List Char) : Option (List Char × List Char) :=
  match pattern with
  | .word text =>
      let word := text.toList
      let rest := chars.drop word.length
      if word.isPrefixOf chars && endsWord rest then some (word, rest) else none
  | .identifier => scanIdentifier? chars
  | .qualified =>
      (scanIdentifier? chars).map fun (name, rest) =>
        let (more, rest) := scanQualifiers false rest
        (name ++ more, rest)
  | .quoted quote =>
      match chars with
      | c :: chars =>
          if c = quote then
            (scanQuotedBody? quote chars).map fun (body, rest) => (c :: body, rest)
          else none
      | [] => none
  | .digits =>
      match chars.takeWhile Char.isDigit with
      | [] => none
      | run => some (run, chars.dropWhile Char.isDigit)
  | .lineComment => scanLineComment? chars
  | .blockComment => scanBlockComment? chars
  | .runWithout excluded =>
      match chars.takeWhile (!excluded.contains ·) with
      | [] => none
      | run => some (run, chars.dropWhile (!excluded.contains ·))
  | .oneOf choices =>
      match chars with
      | c :: chars => if choices.contains c then some ([c], chars) else none
      | [] => none
  | .trivia => some (scanTrivia 0 chars)

end Pattern

end GrammarLint.Grammar
