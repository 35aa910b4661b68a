/-!
# Document values

The values a configuration document is made of.  An object keeps its fields in
the order in which their names first occur, and holds each name once.
-/

namespace GrammarLint.Document

inductive Value where
  | null
  | bool (value : Bool)
  | int (value : Int)
  | float (value : Float)
  | string (value : String)
  | list (items : List Value)
  | object (fields : List (String × Value))

instance : Inhabited Value := ⟨.null⟩

/-- Sets a field: a name already present keeps its place and takes the new value. -/
def setField (name : String) (value : Value) :
    List (String × Value) → List (String × Value)
  | [] => [(name, value)]
  | (other, old) :: fields =>
      if other = name then (name, value) :: fields
      else (other, old) :: setField name value fields

def getField? (name : String) : List (String × Value) → Option Value
  | [] => none
  | (other, value) :: fields => if other = name then some value else getField? name fields

def Value.sort : Value → String
  | .null => "NoneType"
  | .bool _ => "bool"
  | .int _ => "int"
  | .float _ => "float"
  | .string _ => "str"
  | .list _ => "list"
  | .object _ => "dict"

end GrammarLint.Document
