import LocalNames.Listing.Basic

/-! The written form of listings, one directive a line. -/

namespace LocalNames

def ParameterRequest.render (p : ParameterRequest) : String :=
  " ".intercalate ["param", toString p.slot, p.name, p.type] ++ "\n"

namespace Method

def renderHead (m : Method) : String :=
  " ".intercalate ["method", m.name, m.descriptor, m.access.text] ++ "\n"

def renderParent (m : Method) : String :=
  m.parent.elim "" fun parent => "inherit " ++ parent ++ "\n"

def renderVariable (v : VarId × String) : String :=
  " ".intercalate ["var", toString v.1.slot, toString v.1.version, v.2] ++ "\n"

def render (m : Method) : String :=
  m.renderHead ++ m.renderParent ++ String.join (m.vars.map renderVariable) ++
    String.join (m.parameters.map (·.render))

end Method

def renderListing (methods : List Method) : String :=
  String.join (methods.map (·.render))

end LocalNames
