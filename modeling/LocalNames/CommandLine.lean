import LocalNames.FamilyTree
import LocalNames.Listing.Reader
import LocalNames.Logging

/-! The command line: one listing is read, its methods are named, and the names or the families
are written. Arguments are taken from left to right, and the first that cannot be used decides.

The log goes to standard output, too, as far as the environment enables it. So an outcome depends on
a `Logger`; it is `Logger.warnings` where the environment does not say otherwise. -/

namespace LocalNames.CommandLine

inductive Mode
  /-- Write the chosen names. -/
  | names
  /-- Write every method's families after naming. -/
  | registry
  deriving DecidableEq

def Mode.ofText? : String → Option Mode
  | "names" => some names
  | "registry" => some registry
  | _ => none

/-! ### Arguments -/

/-- What the arguments so far have asked for. -/
structure Options where
  mode : Option Mode
  renamesParameters : Bool
  file : Option String
  deriving DecidableEq

namespace Options

/-- Nothing has been asked for. -/
def initial : Options := ⟨none, false, none⟩

/-- A mode may be given once. -/
def addMode? (o : Options) (value : String) : Option Options :=
  if o.mode.isSome then none
  else (Mode.ofText? value).map fun mode => { o with mode := some mode }

/-- Parameters may be asked for once. -/
def addRenaming? (o : Options) : Option Options :=
  if o.renamesParameters then none else some { o with renamesParameters := true }

/-- A single file may be given, and its name is not empty. -/
def addFile? (o : Options) (file : String) : Option Options :=
  if o.file.isSome || file.isEmpty then none else some { o with file := some file }

end Options

/-- What a command line asks for. -/
inductive Request
  | run (mode : Mode) (renamesParameters : Bool) (file : String)
  | help
  | version
  | misuse
  deriving DecidableEq

/-- What one argument amounts to. -/
inductive Step
  | goesOn (options : Options)
  /-- The next argument is the mode. -/
  | modeFollows (options : Options)
  | ends (request : Request)
  deriving DecidableEq

def Step.ofOptions? : Option Options → Step
  | some o => goesOn o
  | none => ends .misuse

def withoutEquals : List Char → List Char
  | '=' :: cs => cs
  | cs => cs

/-- Short options, several of which may share one argument. -/
def shortStep (o : Options) : List Char → Step
  | [] => .goesOn o
  | 'p' :: cs =>
    match o.addRenaming? with
    | some o => shortStep o cs
    | none => .ends .misuse
  | 'm' :: [] => .modeFollows o
  | 'm' :: cs => .ofOptions? (o.addMode? (String.ofList (withoutEquals cs)))
  | 'h' :: _ => .ends .help
  | 'V' :: _ => .ends .version
  | _ :: _ => .ends .misuse

/-- A long option, with the value that an equals sign sets off from its name. -/
def longStep (o : Options) (name : String) (value : Option String) : Step :=
  match name, value with
  | "mode", none => .modeFollows o
  | "mode", some value => .ofOptions? (o.addMode? value)
  | "rename-parameters", none => .ofOptions? o.addRenaming?
  | "help", none => .ends .help
  | "version", none => .ends .version
  | _, _ => .ends .misuse

/-- An argument that is not `--`. A lone dash is a file like any other. -/
def argumentStep (o : Options) (argument : String) : Step :=
  match argument.toList with
  | '-' :: '-' :: cs =>
    let value := match cs.dropWhile (· != '=') with
      | [] => none
      | _ :: value => some (String.ofList value)
    longStep o (String.ofList (cs.takeWhile (· != '='))) value
  | '-' :: c :: cs => shortStep o (c :: cs)
  | _ => .ofOptions? (o.addFile? argument)

/-- The end of the arguments. -/
def Options.request (o : Options) : Request :=
  match o.file with
  | some file => .run (o.mode.getD .names) o.renamesParameters file
  | none => .misuse

/-- The arguments behind `--` are files, whatever they look like. -/
def requestOfFiles (o : Options) (files : List String) : Request :=
  ((files.foldlM Options.addFile? o).map Options.request).getD .misuse

/-- Whether an argument cannot be the value of the option before it. -/
def looksLikeOption (argument : String) : Bool :=
  match argument.toList with
  | '-' :: _ :: _ => true
  | _ => false

def requestFrom (o : Options) : List String → Request
  | [] => o.request
  | argument :: rest =>
    if argument = "--" then requestOfFiles o rest
    else
      match argumentStep o argument, rest with
      | .goesOn o, rest => requestFrom o rest
      | .modeFollows o, value :: rest =>
        if looksLikeOption value then .misuse
        else
          match o.addMode? value with
          | some o => requestFrom o rest
          | none => .misuse
      | .modeFollows _, [] => .misuse
      | .ends request, _ => request

def requestOf (arguments : List String) : Request :=
  requestFrom .initial arguments

/-! ### Running -/

structure Outcome where
  exitCode : Nat
  /-- The text for standard output. -/
  output : String
  /-- The lines for standard error. -/
  complaints : List String
  deriving DecidableEq

namespace Outcome

def success (output : String) : Outcome := ⟨0, output, []⟩

def failure (exitCode : Nat) (complaints : List String) : Outcome := ⟨exitCode, "", complaints⟩

/-- The outcome behind a text that standard output has already. -/
def behind (o : Outcome) (written : String) : Outcome := { o with output := written ++ o.output }

@[simp]
theorem exitCode_behind (o : Outcome) (written : String) :
    (o.behind written).exitCode = o.exitCode := rfl

@[simp]
theorem output_behind (o : Outcome) (written : String) :
    (o.behind written).output = written ++ o.output := rfl

end Outcome

def usage : String := "Usage: jadnames [OPTIONS] <INPUT_FILE>"

def helpText : String :=
  usage ++ "\n\nArguments:\n  <INPUT_FILE>  Method listing to name variables for\n\nOptions:\n" ++
    "  -m, --mode <MODE>        Output mode [default: names] [possible values: names, registry]\n" ++
    "  -p, --rename-parameters  Also rename method parameters\n" ++
    "  -h, --help               Print help\n" ++
    "  -V, --version            Print version\n"

def versionText : String := "jadnames 0.1.0\n"

def Mode.write : Mode → RenamedMethod → String
  | names, m => m.text
  | registry, m => (FamilyTree.ofRegistry m.name m.registry).text

/-- What comes of naming methods. -/
def runMethods (mode : Mode) (renamesParameters : Bool) (methods : List Method) : Outcome :=
  match renameListing renamesParameters methods with
  | .error e => .failure 1 [e.message]
  | .ok renamed => .success (String.join (renamed.map mode.write))

/-- What comes of a listing. All that is logged stands in front of what is written, and there is
nothing to log for a listing that cannot be read. -/
def runSource (logger : Logger) (mode : Mode) (renamesParameters : Bool) (source : String) :
    Outcome :=
  match readListing source with
  | .error errors => .failure 1 (errors.map (·.message))
  | .ok methods =>
    (runMethods mode renamesParameters methods).behind
      (logger.write (listingLog renamesParameters methods))

/-- What comes of a file's content. A path that leads to no regular file has none, nor has a file
that cannot be read. -/
def runContent (logger : Logger) (mode : Mode) (renamesParameters : Bool) (file : String) :
    Option ByteArray → Outcome
  | none => .failure 1 ["No proper input file: " ++ Text.quoted file]
  | some bytes =>
    match String.fromUTF8? bytes with
    | none => .failure 1 ["The input file is not valid UTF-8"]
    | some source => runSource logger mode renamesParameters source

namespace Request

/-- What comes of a request, where `content` looks files up. -/
def outcomeWith {m : Type → Type} [Monad m] (logger : Logger)
    (content : String → m (Option ByteArray)) : Request → m Outcome
  | run mode renamesParameters file =>
    runContent logger mode renamesParameters file <$> content file
  | help => return .success helpText
  | version => return .success versionText
  | misuse => return .failure 2 [usage]

/-- What comes of a request when the environment enables no more than it does by itself. -/
def outcome {m : Type → Type} [Monad m] (content : String → m (Option ByteArray))
    (request : Request) : m Outcome :=
  request.outcomeWith .warnings content

end Request

end LocalNames.CommandLine
