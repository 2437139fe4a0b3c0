import LocalNames.Descriptor.Grammar
import LocalNames.Registry
import LocalNames.VarId

/-! Naming the variables of one method after their types. Counters keep running from one request
to the next, while a parameter that has a name keeps it. -/

namespace LocalNames

/-- The types of variables; requests are served in the order of their identities. -/
abbrev VariableTypes := Std.ExtTreeMap VarId String

structure Namer where
  access : Access
  descriptor : String
  renamesParameters : Bool
  registry : Registry
  /-- The names parameters have been given, by slot. -/
  parameters : Std.ExtTreeMap UInt32 String
  deriving DecidableEq

namespace Namer

/-- A namer that has given no name yet. -/
def start (access : Access) (descriptor : String) (renamesParameters : Bool) : Namer where
  access := access
  descriptor := descriptor
  renamesParameters := renamesParameters
  registry := .builtin
  parameters := ∅

/-- The next name from the family of a type. -/
def draw (n : Namer) (key : TypeKey) : String × Namer :=
  let (name, registry) := n.registry.nextName key
  (name, { n with registry := registry })

@[simp]
theorem parameters_draw (n : Namer) (key : TypeKey) : (n.draw key).2.parameters = n.parameters :=
  rfl

/-- The name of the parameter in a slot, which is drawn when it is first asked for. -/
def parameterName (n : Namer) (slot : UInt32) (key : TypeKey) : String × Namer :=
  match n.parameters[slot]? with
  | some name => (name, n)
  | none =>
    let (name, drawn) := n.draw key
    (name, { drawn with parameters := drawn.parameters.insert slot name })

theorem parameterName_of_some {n : Namer} {slot : UInt32} {name : String}
    (h : n.parameters[slot]? = some name) (key : TypeKey) :
    n.parameterName slot key = (name, n) := by
  rw [parameterName, h]

/-- Once asked for, the name is there. -/
@[simp]
theorem parameters_parameterName (n : Namer) (slot : UInt32) (key : TypeKey) :
    (n.parameterName slot key).2.parameters[slot]? = some (n.parameterName slot key).1 := by
  unfold parameterName
  split
  · assumption
  · simp

/-- The name of a variable when `slots` slots belong to the receiver and the parameters. The
receiver gets none, and parameters only do where they are renamed. -/
def nameVariable (n : Namer) (slots : Nat) (v : VarId) (key : TypeKey) : Option String × Namer :=
  if key.isReceiver then (none, n)
  else if slots ≤ v.slot.toNat then
    let (name, n) := n.draw key
    (some name, n)
  else if n.renamesParameters then
    let (name, n) := n.parameterName v.slot key
    (some name, n)
  else (none, n)

def nameVariables (n : Namer) (slots : Nat) :
    List (VarId × String) → List (VarId × String) × Namer
  | [] => ([], n)
  | (v, type) :: rest =>
    let (name?, n) := n.nameVariable slots v (.ofType type)
    let (names, n) := n.nameVariables slots rest
    (name?.toList.map (v, ·) ++ names, n)

/-- Names variables, in the order in which the names are drawn. -/
def rename (n : Namer) (types : VariableTypes) :
    Except DescriptorError (List (VarId × String) × Namer) :=
  (MethodDescriptor.read n.descriptor).map fun d =>
    n.nameVariables (d.slots n.access) types.toList

/-- The name of a parameter that is not renamed: its own, with a body or without. -/
def keepParameter (access : Access) (name : String) (slot : UInt32) : String :=
  ParameterHook.keep (fun name _ => name) access name slot

/-- The name of the parameter in a slot, asked for apart from the variables. -/
def renameParameter (n : Namer) (access : Access) (type name : String) (slot : UInt32) :
    String × Namer :=
  if n.renamesParameters then n.parameterName slot (.ofType type)
  else (keepParameter access name slot, n)

/-- Goes on naming where the registry of another method stands; parameters keep their names. -/
def adopt (n : Namer) (parent : Registry) : Namer :=
  { n with registry := parent }

@[simp]
theorem parameters_adopt (n : Namer) (parent : Registry) :
    (n.adopt parent).parameters = n.parameters := rfl

end Namer

end LocalNames
