import LocalNames.Access
import LocalNames.VarId

/-! Listings: methods with their typed variables, and the parameters whose names are asked for. -/

namespace LocalNames

structure ParameterRequest where
  slot : UInt32
  name : String
  type : String
  deriving DecidableEq

structure Method where
  name : String
  access : Access
  descriptor : String
  /-- The name of an earlier method, after which this one goes on. -/
  parent : Option String
  vars : List (VarId × String)
  parameters : List ParameterRequest
  deriving DecidableEq

namespace Method

/-- A method of which only the head is known. -/
def headed (name descriptor : String) (access : Access) : Method where
  name := name
  access := access
  descriptor := descriptor
  parent := none
  vars := []
  parameters := []

def declares (m : Method) (v : VarId) : Bool := m.vars.any (·.1 == v)

end Method

end LocalNames
