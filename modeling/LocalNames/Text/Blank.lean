import LocalNames.Text.CharClass

/-! White space. All of it separates words; only the line feed also ends a line. -/

namespace LocalNames.Text

/-- The property White_Space. -/
def whiteSpace : CharClass := ⟨
  [(0x9, 0xD), (0x20, 0x20), (0x85, 0x85), (0xA0, 0xA0), (0x1680, 0x1680), (0x2000, 0x200A),
    (0x2028, 0x2029), (0x202F, 0x202F), (0x205F, 0x205F), (0x3000, 0x3000)]⟩

def isBlank (c : Char) : Bool :=
  whiteSpace.contains c

theorem isBlank_lineFeed : isBlank '\n' = true := rfl

end LocalNames.Text
