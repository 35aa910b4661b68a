/-!
# Blank characters

Two classes of white space occur.  `isBlank` is the class that trimming
removes; `isSpace` is the class the grammar patterns treat as layout, which
leaves out the four information separators U+001C to U+001F.
-/

namespace GrammarLint.Text

def isSeparator (c : Char) : Bool :=
  0x1C ≤ c.toNat && c.toNat ≤ 0x1F

def isSpace (c : Char) : Bool :=
  let code := c.toNat
  (9 ≤ code && code ≤ 13) || code == 0x20 || code == 0x85 || code == 0xA0 ||
    code == 0x1680 || (0x2000 ≤ code && code ≤ 0x200A) || code == 0x2028 ||
    code == 0x2029 || code == 0x202F || code == 0x205F || code == 0x3000

def isBlank (c : Char) : Bool :=
  isSpace c || isSeparator c

/-! ## Trimming -/

def trimStart (chars : List Char) : List Char :=
  chars.dropWhile isBlank

def trimEnd (chars : List Char) : List Char :=
  (chars.reverse.dropWhile isBlank).reverse

def trim (text : String) : String :=
  String.ofList (trimEnd (trimStart text.toList))

def allBlank (text : String) : Bool :=
  text.toList.all isBlank

/-- Lower case of the twenty-six Latin letters; the words it is compared with
hold no others. -/
def lowerLatin (text : String) : String :=
  String.ofList (text.toList.map Char.toLower)

end GrammarLint.Text
