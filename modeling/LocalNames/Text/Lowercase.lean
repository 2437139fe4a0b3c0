import LocalNames.Text.CaseTables

/-! Lowercase forms. Every character has a form of its own, except that a capital sigma at the
end of a word becomes the final sigma `ς`. -/

namespace LocalNames.Text

def CaseRun.contains (run : CaseRun) (n : Nat) : Bool :=
  n ≤ run.last && (n - run.first) % run.stride == 0

/-- The code point of the lowercase form; a code point outside all runs is its own. -/
def lowercaseIn (n : Nat) : List CaseRun → Nat
  | [] => n
  | run :: rest =>
    if n < run.first then n
    else if run.contains n then run.target + (n - run.first)
    else lowercaseIn n rest

/-- The lowercase form of a character, whatever stands around it. -/
def lowercaseChar (c : Char) : List Char :=
  if c = 'İ' then ['i', '\u0307'] else [Char.ofNat (lowercaseIn c.toNat lowercaseRuns)]

/-- Whether a letter is met first when ignorable characters are passed over. -/
def meetsLetter (cs : List Char) : Bool :=
  (cs.find? fun c => !caseIgnorable.contains c).any casedLetters.contains

/-- The same looking back over `c`, where `letter` is the answer before it. -/
def letterAfter (letter : Bool) (c : Char) : Bool :=
  if caseIgnorable.contains c then letter else casedLetters.contains c

/-- The lowercase form of the characters that follow; `letter` tells whether looking back from
them meets a letter. A sigma ends a word when there is a letter before it and none after. -/
def lowercaseFrom (letter : Bool) : List Char → List Char
  | [] => []
  | c :: cs =>
    let form :=
      if c = 'Σ' then [if letter && !meetsLetter cs then 'ς' else 'σ'] else lowercaseChar c
    form ++ lowercaseFrom (letterAfter letter c) cs

def lowercase (s : String) : String :=
  String.ofList (lowercaseFrom false s.toList)

end LocalNames.Text
