import LocalNames.Listing.Basic
import LocalNames.Namer

/-! Naming all methods of a listing, in its order. A method with a parent goes on where the parent
stands after its own naming. -/

namespace LocalNames

structure RenamedMethod where
  name : String
  vars : List (VarId × String)
  parameters : List (ParameterRequest × String)
  /-- The families as they stand after naming. -/
  registry : Registry
  deriving DecidableEq

namespace RenamedMethod

def text (m : RenamedMethod) : String :=
  "method " ++ m.name ++ "\n" ++
    String.join (m.vars.map fun (v, name) => "  " ++ v.text ++ " " ++ name ++ "\n") ++
    String.join (m.parameters.map fun (p, name) =>
      "  param " ++ toString p.slot ++ " " ++ p.name ++ " -> " ++ name ++ "\n")

end RenamedMethod

namespace Namer

/-- Answers requests in their order. -/
def answer (n : Namer) (access : Access) :
    List ParameterRequest → List (ParameterRequest × String) × Namer
  | [] => ([], n)
  | p :: rest =>
    let (name, n) := n.renameParameter access p.type p.name p.slot
    let (names, n) := n.answer access rest
    ((p, name) :: names, n)

end Namer

/-- The namer a method starts with. Of several earlier methods with the name of its parent the
latest counts, and `earlier` has the latest first. -/
def Method.namer (m : Method) (renamesParameters : Bool) (earlier : List RenamedMethod) : Namer :=
  let n := Namer.start m.access m.descriptor renamesParameters
  match m.parent.bind fun parent => earlier.find? (·.name == parent) with
  | some parent => n.adopt parent.registry
  | none => n

def Method.rename (m : Method) (renamesParameters : Bool) (earlier : List RenamedMethod) :
    Except DescriptorError RenamedMethod := do
  let (vars, n) ← (m.namer renamesParameters earlier).rename (.ofList m.vars)
  let (parameters, n) := n.answer m.access m.parameters
  return ⟨m.name, vars, parameters, n.registry⟩

/-- Names methods that come after `earlier` ones. -/
def renameFrom (renamesParameters : Bool) (earlier : List RenamedMethod) :
    List Method → Except DescriptorError (List RenamedMethod)
  | [] => .ok []
  | m :: ms => do
    let renamed ← m.rename renamesParameters earlier
    let later ← renameFrom renamesParameters (renamed :: earlier) ms
    return renamed :: later

def renameListing (renamesParameters : Bool) (methods : List Method) :
    Except DescriptorError (List RenamedMethod) :=
  renameFrom renamesParameters [] methods

end LocalNames
