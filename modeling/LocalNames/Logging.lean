import LocalNames.Session

/-! What naming logs. A run has the same events whoever listens; which of them are written, and in
what form, is for the environment to say, and a `Logger` stands for what it says. -/

namespace LocalNames

inductive LogLevel
  | warn
  | info
  | debug
  | trace
  deriving DecidableEq

/-- One line for the log. -/
structure LogEvent where
  level : LogLevel
  /-- The part of the program that the event comes from. -/
  target : String
  message : String
  fields : List (String × String)
  deriving DecidableEq

namespace LogEvent

def listingRead (methods : Nat) : LogEvent :=
  ⟨.info, "jadnames", "Listing read", [("methods", toString methods)]⟩

def unknownParent (method parent : String) : LogEvent :=
  ⟨.warn, "jadnames::session", "unknown parent method", [("method", method), ("parent", parent)]⟩

def namedMethod (method : String) (named : Nat) : LogEvent :=
  ⟨.info, "jadnames::session", "named method",
    [("method", method), ("variables", toString named)]⟩

def adoptingParent (families : Nat) : LogEvent :=
  ⟨.debug, "jadnames::provider::jad", "adopting parent context",
    [("families", toString families)]⟩

def renamedVariables (slots named : Nat) : LogEvent :=
  ⟨.debug, "jadnames::provider::jad", "renamed variables",
    [("params", toString slots), ("named", toString named)]⟩

def newFamily (key : TypeKey) (base : String) : LogEvent :=
  ⟨.debug, "jadnames::registry", "new naming family",
    [("typ", key.text), ("family", Text.lowercase key.text), ("base", base)]⟩

def nextName (key : TypeKey) (name : String) : LogEvent :=
  ⟨.trace, "jadnames::registry", "next name", [("typ", key.text), ("minted", name)]⟩

end LogEvent

/-! ### Events of naming -/

namespace Registry

/-- The base name of the family that is made when a name is drawn for a type, if one is. -/
def foundedBy? (r : Registry) (key : TypeKey) : Option String :=
  match r.familyOf? key with
  | some _ => none
  | none => key.shape.familyName?

def drawLog (r : Registry) (key : TypeKey) : List LogEvent :=
  (r.foundedBy? key).toList.map (.newFamily key) ++ [.nextName key (r.nextName key).1]

end Registry

namespace Namer

/-- Nothing is logged for a parameter that has a name. -/
def parameterLog (n : Namer) (slot : UInt32) (key : TypeKey) : List LogEvent :=
  if slot ∈ n.parameters then [] else n.registry.drawLog key

def variableLog (n : Namer) (slots : Nat) (v : VarId) (key : TypeKey) : List LogEvent :=
  if key.isReceiver then []
  else if slots ≤ v.slot.toNat then n.registry.drawLog key
  else if n.renamesParameters then n.parameterLog v.slot key
  else []

def variablesLog (n : Namer) (slots : Nat) : List (VarId × String) → List LogEvent
  | [] => []
  | (v, type) :: rest =>
    n.variableLog slots v (.ofType type) ++
      (n.nameVariable slots v (.ofType type)).2.variablesLog slots rest

def renameLog (n : Namer) (types : VariableTypes) : List LogEvent :=
  match MethodDescriptor.read n.descriptor with
  | .error _ => []
  | .ok d =>
    let slots := d.slots n.access
    n.variablesLog slots types.toList ++
      [.renamedVariables slots (n.nameVariables slots types.toList).1.length]

def answerLog (n : Namer) (access : Access) : List ParameterRequest → List LogEvent
  | [] => []
  | p :: rest =>
    (if n.renamesParameters then n.parameterLog p.slot (.ofType p.type) else []) ++
      (n.renameParameter access p.type p.name p.slot).2.answerLog access rest

end Namer

namespace Method

/-- Whether the parent is found among `earlier` methods. -/
def parentLog (m : Method) (earlier : List RenamedMethod) : List LogEvent :=
  match m.parent with
  | none => []
  | some parent =>
    match earlier.find? (·.name == parent) with
    | some p => [.adoptingParent p.registry.families.size]
    | none => [.unknownParent m.name parent]

/-- A descriptor that cannot be read ends the log of its method. -/
def log (m : Method) (renamesParameters : Bool) (earlier : List RenamedMethod) : List LogEvent :=
  let n := m.namer renamesParameters earlier
  m.parentLog earlier ++ n.renameLog (.ofList m.vars) ++
    match n.rename (.ofList m.vars) with
    | .error _ => []
    | .ok (vars, n) => n.answerLog m.access m.parameters ++ [.namedMethod m.name vars.length]

end Method

/-- The log of naming methods that come after `earlier` ones, up to the first that fails. -/
def logFrom (renamesParameters : Bool) (earlier : List RenamedMethod) :
    List Method → List LogEvent
  | [] => []
  | m :: ms =>
    m.log renamesParameters earlier ++
      match m.rename renamesParameters earlier with
      | .error _ => []
      | .ok renamed => logFrom renamesParameters (renamed :: earlier) ms

/-- The log of a listing that has been read. -/
def listingLog (renamesParameters : Bool) (methods : List Method) : List LogEvent :=
  .listingRead methods.length :: logFrom renamesParameters [] methods

/-! ### Loggers -/

/-- What is written for an event. It is empty where the event is not enabled. -/
abbrev Logger := LogEvent → String

namespace Logger

def write (logger : Logger) (events : List LogEvent) : String :=
  String.join (events.map logger)

/-- Nothing but warnings is enabled. -/
def QuietBelowWarn (logger : Logger) : Prop :=
  ∀ e : LogEvent, e.level ≠ .warn → logger e = ""

/-- The logger of an environment that asks for nothing: a line for each warning, without colours. -/
def warnings : Logger := fun e =>
  if e.level = .warn then
    " WARN " ++ e.target ++ ": " ++ e.message ++
      String.join (e.fields.map fun (name, value) => " " ++ name ++ "=" ++ value) ++ "\n"
  else ""

theorem quietBelowWarn_warnings : warnings.QuietBelowWarn :=
  fun _ h => if_neg h

/-- Where only warnings are enabled, events without a warning leave nothing. -/
theorem QuietBelowWarn.write_eq_empty {logger : Logger} (hquiet : logger.QuietBelowWarn)
    {events : List LogEvent} (h : ∀ e ∈ events, e.level ≠ .warn) : logger.write events = "" := by
  induction events with
  | nil => rfl
  | cons e events ih =>
    obtain ⟨he, h⟩ := List.forall_mem_cons.mp h
    rw [write, List.map_cons, String.join_cons, hquiet e he, String.empty_append]
    exact ih h

end Logger

end LocalNames
