import LocalNames.Listing.Token

/-! Directives: what a line says before any of its arguments are looked at. -/

namespace LocalNames

/-- The arguments that a directive cannot do without. -/
inductive Argument
  | methodName
  | methodDescriptor
  | parentName
  | slot
  | version
  | variableType
  | parameterName
  | parameterType
  deriving DecidableEq

def Argument.text : Argument → String
  | methodName => "method name"
  | methodDescriptor => "method descriptor"
  | parentName => "parent method name"
  | slot => "slot"
  | version => "version"
  | variableType => "variable type"
  | parameterName => "parameter name"
  | parameterType => "parameter type"

/-- Where it matters later, `head` is the place of the keyword. -/
inductive Directive
  | method (name descriptor : Word) (flags : List Word)
  | inherit (head : Span) (parent : Word)
  | var (head : Span) (slot version : Word) (type : String)
  | param (head : Span) (slot name : Word) (type : String)
  /-- The first word is no keyword. -/
  | unknown (word : Word)
  /-- Arguments are missing, which has been reported. -/
  | rejected (keyword : Keyword)
  deriving DecidableEq

namespace Directive

/-- A type goes from its first word to the end of the line, with the blanks in between. -/
def typeText (source : List Char) (first : Word) (others : List Word) : String :=
  (first.span.through (((first :: others).getLast (by simp)).span)).slice source

end Directive

end LocalNames
