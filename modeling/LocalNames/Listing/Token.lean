import LocalNames.Span

/-! The tokens of a listing: words, and the line feeds between lines. Some words are keywords. -/

namespace LocalNames

/-- The words that start a directive. -/
inductive Keyword
  | method
  | inherit
  | var
  | param
  deriving DecidableEq

namespace Keyword

def all : List Keyword := [method, inherit, var, param]

def text : Keyword → String
  | method => "method"
  | inherit => "inherit"
  | var => "var"
  | param => "param"

def ofText? (word : String) : Option Keyword :=
  all.find? (·.text == word)

@[simp]
theorem ofText?_text (k : Keyword) : ofText? k.text = some k := by
  cases k <;> decide

theorem text_of_ofText? {word : String} {k : Keyword} (h : ofText? word = some k) :
    k.text = word := by
  simpa using List.find?_some h

end Keyword

inductive Token
  | keyword (keyword : Keyword)
  | word (text : String)
  | lineBreak
  deriving DecidableEq

namespace Token

/-- The token of a word that has been read to its end. -/
def ofText (text : String) : Token :=
  match Keyword.ofText? text with
  | some k => keyword k
  | none => word text

def text : Token → String
  | keyword k => k.text
  | word text => text
  | lineBreak => "end of line"

@[simp]
theorem text_ofText (text : String) : (ofText text).text = text := by
  unfold ofText
  split
  · next h => exact Keyword.text_of_ofText? h
  · rfl

end Token

/-- A value and the place it was read from. -/
structure Spanned (α : Type) where
  value : α
  span : Span
  deriving DecidableEq

abbrev Word := Spanned String

end LocalNames
