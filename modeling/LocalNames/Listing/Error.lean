import LocalNames.Descriptor.Error
import LocalNames.Listing.Directive
import LocalNames.VarId

/-! What can be wrong with a listing, and where. -/

namespace LocalNames

inductive ListingError
  | unknownDirective (word : Word)
  | unexpectedInput (word : Word)
  | missingArgument (missing : Argument) (place : Span)
  | invalidNumber (word : Word)
  | unknownFlag (word : Word)
  | invalidDescriptor (reason : DescriptorError) (place : Span)
  | outsideMethod (keyword : Keyword) (place : Span)
  | duplicateMethod (name : Word)
  | unknownParent (name : Word)
  | secondParent (method : String) (place : Span)
  | duplicateVariable (id : VarId) (place : Span)
  deriving DecidableEq

namespace ListingError

def span : ListingError → Span
  | unknownDirective word | unexpectedInput word | invalidNumber word | unknownFlag word
  | duplicateMethod word | unknownParent word => word.span
  | missingArgument _ place | invalidDescriptor _ place | outsideMethod _ place
  | secondParent _ place | duplicateVariable _ place => place

def message : ListingError → String
  | unknownDirective word => "Unknown directive: " ++ word.value
  | unexpectedInput word => "Encountered unexpected input: " ++ word.value
  | missingArgument missing _ => "Missing " ++ missing.text
  | invalidNumber word => "Expected a slot or version number, found " ++ word.value
  | unknownFlag word => "Unknown access flag: " ++ word.value
  | invalidDescriptor _ _ => "Invalid method descriptor"
  | outsideMethod keyword _ => "`" ++ keyword.text ++ "` outside of a method"
  | duplicateMethod name => "Method " ++ name.value ++ " is declared twice"
  | unknownParent name => "Method " ++ name.value ++ " is not declared before this point"
  | secondParent method _ => "Method " ++ method ++ " already inherits from another method"
  | duplicateVariable v _ => "Variable " ++ v.text ++ " is listed twice"

/-- Advice on how to mend the listing. -/
def help? : ListingError → Option String
  | unknownDirective _ =>
    some ("Expected one of: " ++ ", ".intercalate (Keyword.all.map (·.text)))
  | unexpectedInput _ => some ("Expected one of: " ++ Token.lineBreak.text)
  | invalidDescriptor reason _ => some reason.message
  | outsideMethod _ _ => some "Start a method with `method <name> <descriptor> [flags]` first"
  | unknownParent _ => some "A method can only inherit from a method listed above it"
  | _ => none

/-- What is written at the place of the error. -/
def label : ListingError → String
  | unknownDirective _ | unexpectedInput _ | unknownFlag _ | outsideMethod _ _ => "here"
  | missingArgument _ _ => "expected before this"
  | invalidNumber _ => "not a number"
  | invalidDescriptor _ _ => "this descriptor"
  | duplicateMethod _ => "second declaration"
  | unknownParent _ => "inherited here"
  | secondParent _ _ => "second parent"
  | duplicateVariable _ _ => "second occurrence"

end ListingError

end LocalNames
