import GrammarLint.Text.Digit

/-!
# Arguments

How a list of arguments is read.  A usage knows some options and wants some
operands.  Every argument is first classified by its looks alone; then options
and operands are consumed from the left, and what nothing consumes is left over.

A long option may be shortened to any beginning that no other shares, and takes
a value behind an equals sign or from the next argument.  Single-letter flags
may be written together, and the last of them may take the rest as its value.
After `--` there are operands only.
-/

namespace GrammarLint.Cli

open Text

/-! ## Outcomes -/

inductive Misuse where
  | ambiguous (argument : String) (candidates : List String)
  | unwantedValue (option value : String)
  | missingValue (option : String)
  | notAChoice (value : String) (choices : List String)
  | missingOperand (name : String)
  | leftOver (arguments : List String)
  | noCommand
  deriving DecidableEq, Repr

def Misuse.message : Misuse → String
  | .ambiguous argument candidates =>
      s!"ambiguous option: {argument} could match " ++ String.intercalate ", " candidates
  | .unwantedValue option value => s!"argument {option}: ignored explicit argument {value}"
  | .missingValue option => s!"argument {option}: expected one argument"
  | .notAChoice value choices =>
      s!"invalid choice: {value} (choose from " ++ String.intercalate ", " choices ++ ")"
  | .missingOperand name => s!"the following arguments are required: {name}"
  | .leftOver arguments => "unrecognized arguments: " ++ String.intercalate " " arguments
  | .noCommand => "a command is required"

inductive Stop where
  | help
  | version
  | misuse (cause : Misuse)
  deriving DecidableEq, Repr

/-! ## Usages -/

inductive Effect (α : Type) where
  | flag (apply : α → Except Stop α)
  | value (apply : String → α → Except Stop α)

structure Switch (α : Type) where
  spellings : List String
  effect : Effect α

inductive Arity where
  | absent
  | one
  | many
  | everything
  deriving DecidableEq, Repr

structure Usage (α : Type) where
  switches : List (Switch α)
  arity : Arity := .absent
  accept : List String → α → Except Stop α := fun _ settings => .ok settings
  required : Option String := none

/-! ## Classification -/

inductive Given where
  | nothing
  | behind (value : String)
  | attached (chars : List Char)
  deriving DecidableEq, Repr

structure Found (α : Type) where
  spelling : String
  effect : Effect α
  given : Given

inductive Word (α : Type) where
  | operand (text : String)
  | separator
  | option (text : String) (found : Found α)
  | unknown (text : String)

def separatorText : String := "--"

namespace Word

variable {α : Type}

def text : Word α → String
  | .operand text => text
  | .separator => separatorText
  | .option text _ => text
  | .unknown text => text

def isOperand : Word α → Bool
  | .operand _ => true
  | _ => false

def isSeparator : Word α → Bool
  | .separator => true
  | _ => false

end Word

def splitEquals? (text : String) : Option (String × String) :=
  match text.toList.dropWhile (· != '=') with
  | '=' :: value =>
      some (String.ofList (text.toList.takeWhile (· != '=')), String.ofList value)
  | _ => none

/-- Digits behind an optional part of digits and a point; one line break may follow. -/
def isNumber (chars : List Char) : Bool :=
  let chars := if chars.getLast? = some '\n' then chars.dropLast else chars
  let digits := chars.takeWhile isDecimal
  match chars.dropWhile isDecimal with
  | [] => !digits.isEmpty
  | '.' :: fraction => !fraction.isEmpty && fraction.all isDecimal
  | _ => false

namespace Usage

variable {α : Type}

def spellings (usage : Usage α) : List (String × Effect α) :=
  usage.switches.flatMap fun option => option.spellings.map fun spelling =>
    (spelling, option.effect)

def effect? (usage : Usage α) (spelling : String) : Option (Effect α) :=
  (usage.spellings.find? (·.1 == spelling)).map (·.2)

def longCandidates (usage : Usage α) (text : String) : List (Found α) :=
  let (stem, given) : String × Given :=
    match splitEquals? text with
    | some (stem, value) => (stem, .behind value)
    | none => (text, .nothing)
  (usage.spellings.filter fun (spelling, _) => stem.toList.isPrefixOf spelling.toList).map
    fun (spelling, effect) => ⟨spelling, effect, given⟩

def candidates (usage : Usage α) (text : String) : List (Found α) :=
  match text.toList with
  | '-' :: '-' :: _ => usage.longCandidates text
  | '-' :: letter :: attached =>
      let spelling := String.ofList ['-', letter]
      match usage.effect? spelling with
      | some effect => [⟨spelling, effect, .attached attached⟩]
      | none => []
  | _ => []

def beforeEquals? (usage : Usage α) (text : String) : Option (Found α) :=
  match splitEquals? text with
  | some (spelling, value) =>
      (usage.effect? spelling).map fun effect => ⟨spelling, effect, .behind value⟩
  | none => none

/-- An argument that begins with a dash is an operand if it is a dash alone, or
stands for no option and is a number or holds a space. -/
def classifyDashed (usage : Usage α) (text : String) (behind : List Char) :
    Except Stop (Word α) :=
  match usage.effect? text with
  | some effect => .ok (.option text ⟨text, effect, .nothing⟩)
  | none =>
      if behind.isEmpty then .ok (.operand text)
      else
        match usage.beforeEquals? text with
        | some found => .ok (.option text found)
        | none =>
            match usage.candidates text with
            | [] =>
                if isNumber behind || behind.contains ' ' then .ok (.operand text)
                else .ok (.unknown text)
            | [found] => .ok (.option text found)
            | several => .error (.misuse (.ambiguous text (several.map (·.spelling))))

def classify (usage : Usage α) (text : String) : Except Stop (Word α) :=
  match text.toList with
  | '-' :: behind => usage.classifyDashed text behind
  | _ => .ok (.operand text)

def classifyAll (usage : Usage α) : List String → Except Stop (List (Word α))
  | [] => .ok []
  | text :: texts =>
      if text = separatorText then .ok (.separator :: texts.map .operand)
      else do
        let word ← usage.classify text
        let words ← classifyAll usage texts
        return word :: words

/-! ## Options -/

structure Deed (α : Type) where
  actions : List (α → Except Stop α)
  leftOver : List String := []
  rest : List (Word α)

def Deed.after (deed : Deed α) (apply : α → Except Stop α) : Deed α :=
  { deed with actions := apply :: deed.actions }

def readBare (rest : List (Word α)) (spelling : String) : Effect α → Except Stop (Deed α)
  | .flag apply => .ok { actions := [apply], rest }
  | .value apply =>
      match rest with
      | .operand value :: rest => .ok { actions := [apply value], rest }
      | _ => .error (.misuse (.missingValue spelling))

def readBehind (rest : List (Word α)) (spelling value : String) :
    Effect α → Except Stop (Deed α)
  | .flag _ => .error (.misuse (.unwantedValue spelling value))
  | .value apply => .ok { actions := [apply value], rest }

/-- Behind a flag of one letter, the next letter is an option of its own. -/
def readAttached (usage : Usage α) (rest : List (Word α)) (spelling : String)
    (effect : Effect α) : List Char → Except Stop (Deed α)
  | [] => readBare rest spelling effect
  | c :: chars =>
      match effect with
      | .value apply => .ok { actions := [apply (String.ofList (c :: chars))], rest }
      | .flag apply =>
          if c = '-' then
            .error (.misuse (.unwantedValue spelling (String.ofList (c :: chars))))
          else
            let next := String.ofList ['-', c]
            match usage.effect? next, chars with
            | none, _ =>
                .ok { actions := [apply], leftOver := [String.ofList ('-' :: c :: chars)], rest }
            | some effect, '=' :: value =>
                (readBehind rest next (String.ofList value) effect).map (·.after apply)
            | some effect, _ =>
                (readAttached usage rest next effect chars).map (·.after apply)

def readOption (usage : Usage α) (rest : List (Word α)) (found : Found α) :
    Except Stop (Deed α) :=
  match found.given with
  | .nothing => readBare rest found.spelling found.effect
  | .behind value => readBehind rest found.spelling value found.effect
  | .attached chars => readAttached usage rest found.spelling found.effect chars

end Usage

/-! ## Operands -/

def Arity.take? {α : Type} (arity : Arity) (words : List (Word α)) :
    Option (List String × List (Word α)) :=
  let separators := words.takeWhile Word.isSeparator
  match words.dropWhile Word.isSeparator with
  | .operand first :: rest =>
      let front := separators.map Word.text ++ [first]
      match arity with
      | .absent => none
      | .one =>
          some (front ++ (rest.takeWhile Word.isSeparator).map Word.text,
            rest.dropWhile Word.isSeparator)
      | .many =>
          let more : Word α → Bool := fun word => word.isOperand || word.isSeparator
          some (front ++ (rest.takeWhile more).map Word.text, rest.dropWhile more)
      | .everything => some (front ++ rest.map Word.text, [])
  | _ => none

/-- The first separator is no operand, unless everything is taken as it stands. -/
def Arity.values (arity : Arity) (texts : List String) : List String :=
  if arity = .everything then texts else texts.erase separatorText

/-! ## Consumption -/

structure Progress (α : Type) where
  settings : α
  taken : Bool := false
  leftOver : List String := []

namespace Usage

variable {α : Type}

def perform (settings : α) : List (α → Except Stop α) → Except Stop α
  | [] => .ok settings
  | action :: actions => do perform (← action settings) actions

def step (usage : Usage α) (progress : Progress α) (word : Word α) (rest : List (Word α)) :
    Except Stop (Progress α × List (Word α)) :=
  let skipped : Progress α × List (Word α) :=
    ({ progress with leftOver := progress.leftOver ++ [word.text] }, rest)
  match word with
  | .option _ found => do
      let deed ← usage.readOption rest found
      let settings ← perform progress.settings deed.actions
      return ({ progress with settings, leftOver := progress.leftOver ++ deed.leftOver },
        deed.rest)
  | .unknown _ => .ok skipped
  | _ =>
      if progress.taken then .ok skipped
      else
        match usage.arity.take? (word :: rest) with
        | none => .ok skipped
        | some (texts, rest) => do
            let settings ← usage.accept (usage.arity.values texts) progress.settings
            return ({ progress with settings, taken := true }, rest)

def consume (usage : Usage α) : (fuel : Nat) → Progress α → List (Word α) →
    Except Stop (Progress α)
  | 0, progress, _ => .ok progress
  | _, progress, [] => .ok progress
  | fuel + 1, progress, word :: rest => do
      let (progress, rest) ← usage.step progress word rest
      consume usage fuel progress rest

def read (usage : Usage α) (settings : α) (arguments : List String) :
    Except Stop (α × List String) := do
  let words ← usage.classifyAll arguments
  let progress ← usage.consume words.length { settings } words
  match usage.required, progress.taken with
  | some name, false => .error (.misuse (.missingOperand name))
  | _, _ => return (progress.settings, progress.leftOver)

end Usage

end GrammarLint.Cli
