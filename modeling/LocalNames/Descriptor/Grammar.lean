import LocalNames.Descriptor.Basic
import LocalNames.Descriptor.Error

/-! The grammar of method descriptors. Alternatives are tried at the same place, and a repetition
ends where its item fails, so faults are passed over and reading goes on in front of them. Of all
faults on the way the one that got furthest is reported. -/

namespace LocalNames.DescriptorGrammar

structure Fault where
  /-- What stands from the place of the fault on. -/
  rest : List Char
  expected : List Expectation

/-- The fault that got further; at one place either expectation could be met. -/
def Fault.further (e f : Fault) : Fault :=
  if e.rest.length < f.rest.length then e
  else if f.rest.length < e.rest.length then f
  else ⟨e.rest, f.expected.foldr Expectation.insert e.expected⟩

inductive Reading (α : Type)
  /-- Reading goes on with `rest`; `passed` is the furthest of the faults passed over. -/
  | done (value : α) (rest : List Char) (passed : Option Fault)
  | failed (fault : Fault)

/-- A reading in front of which `passed` has been passed over. -/
def Reading.behind {α : Type} (passed : Option Fault) : Reading α → Reading α
  | done a rest later => done a rest (passed.merge Fault.further later)
  | failed fault => failed (passed.elim fault fault.further)

/-! ### Combinators -/

abbrev Parser (α : Type) := List Char → Reading α

instance : Monad Parser where
  pure a cs := .done a cs none
  bind p f cs :=
    match p cs with
    | .done a rest passed => (f a rest).behind passed
    | .failed fault => .failed fault

instance {α : Type} : OrElse (Parser α) where
  orElse p q cs :=
    match p cs with
    | .done a rest passed => .done a rest passed
    | .failed fault =>
      match q () cs with
      | .done a rest passed => .done a rest passed
      | .failed other => .failed (fault.further other)

/-- A character that `f` takes. -/
def one {α : Type} (expected : List Expectation) (f : Char → Option α) : Parser α
  | [] => .failed ⟨[], expected⟩
  | c :: cs =>
    match f c with
    | some a => .done a cs none
    | none => .failed ⟨c :: cs, expected⟩

def just (c : Char) : Parser Unit :=
  one [.char c] fun d => if d = c then some () else none

def ending : Parser Unit
  | [] => .done () [] none
  | c :: cs => .failed ⟨c :: cs, [.ending]⟩

/-- Goes on behind `items`, with as many items as stand one behind the other, but no more than
`bound`. -/
def repeated {α : Type} (item : Parser α) :
    Nat → List α → Option Fault → Parser (List α)
  | 0, items, passed, cs => .done items cs passed
  | bound + 1, items, passed, cs =>
    match item cs with
    | .done a rest more => repeated item bound (items ++ [a]) (passed.merge Fault.further more) rest
    | .failed fault => .done items cs (passed.merge Fault.further (some fault))

/-- All items that stand one behind the other; each of them takes a character. -/
def many {α : Type} (item : Parser α) : Parser (List α) := fun cs =>
  repeated item (cs.length + 1) [] none cs

def enclosed {α : Type} (opening closing : Char) (item : Parser α) : Parser (List α) := do
  just opening
  let items ← many item
  just closing
  return items

/-! ### Descriptors -/

/-- The letters are not said to be expected. -/
def primitive : Parser FieldType :=
  one [] fun c => (PrimitiveType.ofLetter? c).map .primitive

def nameChar : Parser Char :=
  one [] fun c => if c = ';' then none else some c

def object : Parser FieldType := do
  return .object (String.ofList (← enclosed 'L' ';' nameChar))

/-- An array, of which `element` reads what stands behind its bracket. -/
def array (element : Parser FieldType) : Parser FieldType := do
  just '['
  return .array (← element)

def typeOver (element : Parser FieldType) : Parser FieldType :=
  (primitive <|> object) <|> array element

/-- The elements of an array are read from what is behind the first character. -/
def fieldType : List Char → Reading FieldType
  | [] => typeOver primitive []
  | c :: cs => typeOver (fun _ => fieldType cs) (c :: cs)

def resultType : Parser (Option FieldType) :=
  (do just 'V'; return none) <|> (do return some (← fieldType))

/-- What stands behind the parameters. -/
def returning (parameters : List FieldType) : Parser MethodDescriptor := do
  let result ← resultType
  ending
  return ⟨parameters, result⟩

def descriptor : Parser MethodDescriptor := do
  returning (← enclosed '(' ')' fieldType)

/-- What the fault says about the text it was found in. -/
def Fault.report (descriptor : String) (fault : Fault) : DescriptorError :=
  match fault.rest with
  | [] => .unexpectedEnd descriptor fault.expected
  | found :: _ =>
    .unexpectedChar descriptor fault.expected found
      (descriptor.toList.length - fault.rest.length)

end DescriptorGrammar

def MethodDescriptor.read (descriptor : String) : Except DescriptorError MethodDescriptor :=
  match DescriptorGrammar.descriptor descriptor.toList with
  | .done d _ _ => .ok d
  | .failed fault => .error (fault.report descriptor)

end LocalNames
