/-! A family of names. Its candidates take turns, and the number of the round is written after
them; the names depend on nothing but the position in this endless sequence. -/

namespace LocalNames

/-- A family where it stands. Names are counted without the bound of a machine word, so that the
count never comes round to a position that has been passed. -/
structure Family where
  /-- How many names have been passed. -/
  index : Nat
  /-- Whether the first round goes without a number. -/
  skipZero : Bool
  first : String
  rest : List String
  deriving DecidableEq

namespace Family

/-- A family for a type that is seen for the first time. -/
def fresh (name : String) : Family where
  index := 0
  skipZero := true
  first := name
  rest := []

def candidates (f : Family) : List String :=
  f.first :: f.rest

theorem candidates_length_pos (f : Family) : 0 < f.candidates.length :=
  Nat.succ_pos _

/-- The candidate whose turn it is at position `i`. -/
def candidateAt (f : Family) (i : Nat) : String :=
  f.candidates.get ⟨i % f.candidates.length, Nat.mod_lt _ f.candidates_length_pos⟩

/-- The number of the round at position `i`, as far as it is written. -/
def numberAt (f : Family) (i : Nat) : String :=
  let round := i / f.candidates.length
  if f.skipZero && round == 0 then "" else toString round

def nameAt (f : Family) (i : Nat) : String :=
  f.candidateAt i ++ f.numberAt i

/-- The name that is next. -/
def peek (f : Family) : String :=
  f.nameAt f.index

def pass (f : Family) : Family :=
  { f with index := f.index + 1 }

def advance (f : Family) : String × Family :=
  (f.peek, f.pass)

@[simp]
theorem nameAt_pass (f : Family) (i : Nat) : f.pass.nameAt i = f.nameAt i := rfl

@[simp]
theorem candidates_pass (f : Family) : f.pass.candidates = f.candidates := rfl

end Family

end LocalNames
