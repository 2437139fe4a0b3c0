import LocalNames.Descriptor.Grammar
import LocalNames.Listing.Basic
import LocalNames.Listing.Grammar
import LocalNames.Text.Decimal

/-! Directives are assembled into methods one by one. A faulty directive is reported and has no
effect, except that a faulty `method` line silences the lines that would belong to it. -/

namespace LocalNames

/-- What lines belong to that start no method. -/
inductive Block
  /-- No method has been started. -/
  | outside
  /-- The last `method` line was faulty. -/
  | rejected
  | method (method : Method)
  deriving DecidableEq

def Block.methods : Block → List Method
  | outside | rejected => []
  | method m => [m]

structure Reader where
  /-- The methods before the current one. -/
  earlier : List Method
  block : Block
  deriving DecidableEq

namespace Reader

def start : Reader := ⟨[], .outside⟩

def methods (r : Reader) : List Method := r.earlier ++ r.block.methods

def declares (methods : List Method) (name : String) : Bool :=
  methods.any (·.name == name)

/-- The access that flags spell, or the first flag that is none. -/
def readFlags : List Word → Except ListingError Access
  | [] => .ok .empty
  | flag :: flags =>
    match Modifier.ofKeyword? flag.value with
    | none => .error (.unknownFlag flag)
    | some m => (readFlags flags).map (·.insert m)

/-- The method that a `method` line starts behind the methods `before`. Of its faults the first
in this order counts: its name, its descriptor, its flags. -/
def readMethod (before : List Method) (name descriptor : Word) (flags : List Word) :
    Except ListingError Method :=
  if declares before name.value then .error (.duplicateMethod name)
  else
    match MethodDescriptor.read descriptor.value with
    | .error reason => .error (.invalidDescriptor reason descriptor.span)
    | .ok _ => (readFlags flags).map (.headed name.value descriptor.value)

def readNumber (word : Word) : Except ListingError UInt32 :=
  match Text.word32? word.value with
  | some n => .ok n
  | none => .error (.invalidNumber word)

/-- Changes the method that a line belongs to; behind a faulty `method` line nothing happens. -/
def amend (r : Reader) (keyword : Keyword) (head : Span)
    (change : Method → Except ListingError Method) : Except ListingError Reader :=
  match r.block with
  | .outside => .error (.outsideMethod keyword head)
  | .rejected => .ok r
  | .method m => (change m).map fun m => ⟨r.earlier, .method m⟩

def addParent (earlier : List Method) (parent : Word) (m : Method) : Except ListingError Method :=
  if !declares earlier parent.value then .error (.unknownParent parent)
  else if m.parent.isSome then .error (.secondParent m.name parent.span)
  else .ok { m with parent := some parent.value }

def addVariable (v : VarId) (type : String) (place : Span) (m : Method) :
    Except ListingError Method :=
  if m.declares v then .error (.duplicateVariable v place)
  else .ok { m with vars := m.vars ++ [(v, type)] }

def addParameter (p : ParameterRequest) (m : Method) : Except ListingError Method :=
  .ok { m with parameters := m.parameters ++ [p] }

/-- The reader after a directive, unless the directive is faulty. -/
def extend (r : Reader) : Directive → Except ListingError Reader
  | .method name descriptor flags =>
    (readMethod r.methods name descriptor flags).map fun m => ⟨r.methods, .method m⟩
  | .inherit head parent => r.amend .inherit head (addParent r.earlier parent)
  | .var head slot version type => do
    let v : VarId := ⟨← readNumber slot, ← readNumber version⟩
    r.amend .var head (addVariable v type (head.through version.span))
  | .param head slot name type => do
    let p : ParameterRequest := ⟨← readNumber slot, name.value, type⟩
    r.amend .param head (addParameter p)
  | .unknown word => .error (.unknownDirective word)
  | .rejected .method => .ok ⟨r.methods, .rejected⟩
  | .rejected _ => .ok r

def startsMethod : Directive → Bool
  | .method _ _ _ | .rejected .method => true
  | _ => false

/-- The reader after a faulty directive. -/
def afterFault (r : Reader) (d : Directive) : Reader :=
  if startsMethod d then ⟨r.methods, .rejected⟩ else r

def step (r : Reader) (d : Directive) : Reader × Option ListingError :=
  match r.extend d with
  | .ok next => (next, none)
  | .error e => (r.afterFault d, some e)

/-- The reader after all directives, and the errors in their order. -/
def run (r : Reader) : List Directive → Reader × List ListingError
  | [] => (r, [])
  | d :: ds =>
    let (next, error?) := r.step d
    let (last, errors) := next.run ds
    (last, error?.toList ++ errors)

end Reader

/-- The methods of a listing, or everything that is wrong with it, in the order of its places. -/
def readListing (source : String) : Except (List ListingError) (List Method) :=
  let (directives, malformed) := directivesOf source
  let (reader, faults) := Reader.start.run directives
  let errors := malformed ++ faults
  if errors.isEmpty then .ok reader.methods
  else .error (errors.mergeSort fun e f => e.span.start ≤ f.span.start)

end LocalNames
