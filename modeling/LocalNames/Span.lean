/-! Byte ranges of a source text in UTF-8. -/

namespace LocalNames

structure Span where
  start : Nat
  stop : Nat
  deriving DecidableEq

namespace Span

/-- The empty span at a place. -/
def marker (place : Nat) : Span := ⟨place, place⟩

def length (s : Span) : Nat := s.stop - s.start

def isEmpty (s : Span) : Bool := s.start == s.stop

/-- From the start of one span to the end of another. -/
def through (s t : Span) : Span := ⟨s.start, t.stop⟩

/-- The characters that lie in a span, of a text that begins at `place`. -/
def sliceFrom (s : Span) (place : Nat) : List Char → List Char
  | [] => []
  | c :: cs =>
    if s.stop < place + c.utf8Size then []
    else if place < s.start then s.sliceFrom (place + c.utf8Size) cs
    else c :: s.sliceFrom (place + c.utf8Size) cs

def slice (s : Span) (source : List Char) : String :=
  String.ofList (s.sliceFrom 0 source)

end Span

end LocalNames
