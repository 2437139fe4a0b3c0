import LocalNames.Text.Lowercase
import LocalNames.TypeKey

/-! The shape of a type decides whether it gets a family of its own, and after what the names
in that family are called. -/

namespace LocalNames

inductive Shape
  /-- A primitive type, or a name about which nothing is known. -/
  | primitive (name : String)
  /-- A name that starts with an ASCII capital. -/
  | reference (name : String)
  | array (element : String)
  deriving DecidableEq

namespace Shape

def ofText (text : String) : Shape :=
  if '[' ∈ text.toList then array (String.ofList (text.toList.takeWhile (· != '[')))
  else if text.toList.head?.any Char.isUpper then reference text
  else primitive text

def baseOf (name : String) : String :=
  String.ofList ((Text.lowercase name).toList.filter (· != '.'))

/-- The name a new family of this shape starts with; primitives get no family. -/
def familyName? : Shape → Option String
  | primitive _ => none
  | reference name => some (baseOf name)
  | array element => some ("a" ++ baseOf element)

end Shape

def TypeKey.shape (key : TypeKey) : Shape :=
  Shape.ofText key.text

end LocalNames
