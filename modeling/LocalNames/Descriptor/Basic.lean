import LocalNames.Access

/-! Method descriptors: the types of a method's parameters and of its result, and how many slots
the receiver and the parameters take. The variables in the slots behind them are the method's
own. -/

namespace LocalNames

inductive PrimitiveType
  | byte
  | char
  | double
  | float
  | int
  | long
  | short
  | boolean
  deriving DecidableEq

namespace PrimitiveType

def letter : PrimitiveType → Char
  | byte => 'B'
  | char => 'C'
  | double => 'D'
  | float => 'F'
  | int => 'I'
  | long => 'J'
  | short => 'S'
  | boolean => 'Z'

def ofLetter? : Char → Option PrimitiveType
  | 'B' => some byte
  | 'C' => some char
  | 'D' => some double
  | 'F' => some float
  | 'I' => some int
  | 'J' => some long
  | 'S' => some short
  | 'Z' => some boolean
  | _ => none

@[simp]
theorem ofLetter?_letter (p : PrimitiveType) : ofLetter? p.letter = some p := by
  cases p <;> rfl

theorem letter_of_ofLetter? {c : Char} {p : PrimitiveType} (h : ofLetter? c = some p) :
    p.letter = c := by
  unfold ofLetter? at h
  split at h <;> cases h <;> rfl

def text : PrimitiveType → String
  | byte => "byte"
  | char => "char"
  | double => "double"
  | float => "float"
  | int => "int"
  | long => "long"
  | short => "short"
  | boolean => "boolean"

end PrimitiveType

/-- The type of a value. -/
inductive FieldType
  | primitive (type : PrimitiveType)
  | object (name : String)
  | array (element : FieldType)
  deriving DecidableEq

namespace FieldType

/-- The slots a value takes. -/
def width : FieldType → Nat
  | primitive .long => 2
  | primitive .double => 2
  | _ => 1

/-- The slots of values one behind the other, counted without the bound of a machine word. -/
def totalWidth : List FieldType → Nat
  | [] => 0
  | t :: ts => t.width + totalWidth ts

/-- The type as a program writes it. -/
def text : FieldType → String
  | primitive type => type.text
  | object name => String.ofList (name.toList.map fun c => if c = '/' then '.' else c)
  | array element => element.text ++ "[]"

/-- The type as a descriptor writes it. -/
def encode : FieldType → List Char
  | primitive type => [type.letter]
  | object name => 'L' :: name.toList ++ [';']
  | array element => '[' :: element.encode

/-- Whether no class name holds the semicolon that would end it. -/
def Encodable : FieldType → Prop
  | primitive _ => True
  | object name => ';' ∉ name.toList
  | array element => element.Encodable

end FieldType

structure MethodDescriptor where
  parameters : List FieldType
  /-- The type of the result; a method may give none. -/
  result : Option FieldType
  deriving DecidableEq

namespace MethodDescriptor

/-- The slots of all parameters, and of the receiver unless the method is static. -/
def slots (d : MethodDescriptor) (access : Access) : Nat :=
  (if access.isStatic then 0 else 1) + FieldType.totalWidth d.parameters

def encode (d : MethodDescriptor) : String :=
  String.ofList ('(' :: d.parameters.flatMap FieldType.encode ++
    ')' :: d.result.elim ['V'] FieldType.encode)

def Encodable (d : MethodDescriptor) : Prop :=
  (∀ t ∈ d.parameters, t.Encodable) ∧ ∀ t ∈ d.result, t.Encodable

end MethodDescriptor

end LocalNames
