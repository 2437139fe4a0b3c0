import LocalNames.Text.EscapeTable

/-! Text between quotes, as error messages show it. The quote itself and the backslash are
escaped, and so is whatever would not show by itself. -/

namespace LocalNames.Text

/-- A code point in hexadecimal digits, none in front that could be left out. -/
def codePointEscape (c : Char) : List Char :=
  ['\\', 'u', '\x7b'] ++ Nat.toDigits 16 c.toNat ++ ['\x7d']

/-- One character of a text between two `quote`s. -/
def escapeChar (quote c : Char) : List Char :=
  if c = quote ∨ c = '\\' then ['\\', c]
  else match c with
    | '\x00' => ['\\', '0']
    | '\t' => ['\\', 't']
    | '\r' => ['\\', 'r']
    | '\n' => ['\\', 'n']
    | _ => if invisible.contains c then codePointEscape c else [c]

def quotedChar (c : Char) : String :=
  String.ofList ('\'' :: escapeChar '\'' c ++ ['\''])

def quoted (s : String) : String :=
  String.ofList ('"' :: s.toList.flatMap (escapeChar '"') ++ ['"'])

end LocalNames.Text
