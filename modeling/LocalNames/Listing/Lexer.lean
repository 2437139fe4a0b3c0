import LocalNames.Listing.Error
import LocalNames.Text.Blank

/-! The tokens of a source are read from its characters. Blanks separate words, and a `//` where a
word could start opens a comment up to the end of the line. Reading fails where something stands
that is neither a token nor between tokens. -/

namespace LocalNames

namespace Lexer

/-- What is left of a source, and where it begins. -/
structure Rest where
  place : Nat
  chars : List Char

/-- Reads from the front of what is left, and takes a character at least. -/
structure Item (α : Type) where
  read : Rest → Option (α × Rest)
  shorter : ∀ {r rest a}, read r = some (a, rest) → rest.chars.length < r.chars.length

namespace Item

variable {α β : Type}

/-! ### Combinators -/

/-- All items that stand one behind the other. -/
def many (p : Item α) (r : Rest) : List α × Rest :=
  match h : p.read r with
  | none => ([], r)
  | some (a, rest) =>
    have := p.shorter h
    let more := p.many rest
    (a :: more.1, more.2)
termination_by r.chars.length

theorem many_of_none {p : Item α} {r : Rest} (h : p.read r = none) : p.many r = ([], r) := by
  rw [many]
  split
  · rfl
  · next hread => cases h.symm.trans hread

theorem many_of_some {p : Item α} {r rest : Rest} {a : α} (h : p.read r = some (a, rest)) :
    p.many r = (a :: (p.many rest).1, (p.many rest).2) := by
  rw [many]
  split
  · next hread => cases h.symm.trans hread
  · next hread =>
    cases h.symm.trans hread
    rfl

theorem length_many_le (p : Item α) (r : Rest) :
    (p.many r).2.chars.length ≤ r.chars.length := by
  fun_induction p.many r with
  | case1 => exact Nat.le_refl _
  | case2 r a rest _ hshorter more ih => exact Nat.le_trans ih (Nat.le_of_lt hshorter)

/-- A character of a kind. -/
def char (kind : Char → Bool) : Item Char where
  read
    | ⟨_, []⟩ => none
    | ⟨place, c :: cs⟩ => if kind c then some (c, ⟨place + c.utf8Size, cs⟩) else none
  shorter {r _ _} h := by
    obtain ⟨place, _ | ⟨c, cs⟩⟩ := r
    · cases h
    · dsimp only at h
      split at h
      · cases h
        exact Nat.lt_succ_self _
      · cases h

@[simp]
theorem read_char_nil (kind : Char → Bool) (place : Nat) :
    (char kind).read ⟨place, []⟩ = none :=
  rfl

@[simp]
theorem read_char_cons (kind : Char → Bool) (place : Nat) (c : Char) (cs : List Char) :
    (char kind).read ⟨place, c :: cs⟩ =
      if kind c then some (c, ⟨place + c.utf8Size, cs⟩) else none :=
  rfl

def map (f : α → β) (p : Item α) : Item β where
  read r := (p.read r).map fun (a, rest) => (f a, rest)
  shorter h := by
    obtain ⟨⟨a, rest⟩, hread, ⟨⟩⟩ := Option.map_eq_some_iff.mp h
    exact p.shorter hread

@[simp]
theorem read_map (f : α → β) (p : Item α) (r : Rest) :
    (p.map f).read r = (p.read r).map fun (a, rest) => (f a, rest) :=
  rfl

/-- The first of two that can be read. -/
def or (p q : Item α) : Item α where
  read r := (p.read r).or (q.read r)
  shorter h := by
    rcases Option.or_eq_some_iff.mp h with hread | ⟨_, hread⟩
    · exact p.shorter hread
    · exact q.shorter hread

@[simp]
theorem read_or (p q : Item α) (r : Rest) : (p.or q).read r = (p.read r).or (q.read r) := rfl

/-- Two items, one behind the other. -/
def andThen (p : Item α) (q : Item β) : Item (α × β) where
  read r := (p.read r).bind fun (a, rest) => (q.read rest).map fun (b, last) => ((a, b), last)
  shorter h := by
    obtain ⟨⟨a, rest⟩, hread, hmap⟩ := Option.bind_eq_some_iff.mp h
    obtain ⟨⟨b, last⟩, hlast, ⟨⟩⟩ := Option.map_eq_some_iff.mp hmap
    exact Nat.lt_trans (q.shorter hlast) (p.shorter hread)

@[simp]
theorem read_andThen (p : Item α) (q : Item β) (r : Rest) : (p.andThen q).read r =
    (p.read r).bind fun (a, rest) => (q.read rest).map fun (b, last) => ((a, b), last) :=
  rfl

/-- An item, and all of another kind behind it. -/
def andMany (p : Item α) (q : Item β) : Item (α × List β) where
  read r := (p.read r).map fun (a, rest) =>
    let more := q.many rest
    ((a, more.1), more.2)
  shorter h := by
    obtain ⟨⟨a, rest⟩, hread, ⟨⟩⟩ := Option.map_eq_some_iff.mp h
    exact Nat.lt_of_le_of_lt (q.length_many_le rest) (p.shorter hread)

@[simp]
theorem read_andMany (p : Item α) (q : Item β) (r : Rest) : (p.andMany q).read r =
    (p.read r).map fun (a, rest) => ((a, (q.many rest).1), (q.many rest).2) :=
  rfl

/-- An item, and where it stands. -/
def spanned (p : Item α) : Item (Spanned α) where
  read r := (p.read r).map fun (a, rest) => (⟨a, ⟨r.place, rest.place⟩⟩, rest)
  shorter h := by
    obtain ⟨⟨a, rest⟩, hread, ⟨⟩⟩ := Option.map_eq_some_iff.mp h
    exact p.shorter hread

@[simp]
theorem read_spanned (p : Item α) (r : Rest) : p.spanned.read r =
    (p.read r).map fun (a, rest) => (⟨a, ⟨r.place, rest.place⟩⟩, rest) :=
  rfl

/-- An item between any number of others. -/
def padded (p : Item α) (padding : Item β) : Item α where
  read r := (p.read (padding.many r).2).map fun (a, rest) => (a, (padding.many rest).2)
  shorter h := by
    obtain ⟨⟨a, rest⟩, hread, ⟨⟩⟩ := Option.map_eq_some_iff.mp h
    exact Nat.lt_of_le_of_lt (padding.length_many_le rest) <|
      Nat.lt_of_lt_of_le (p.shorter hread) (padding.length_many_le _)

@[simp]
theorem read_padded (p : Item α) (padding : Item β) (r : Rest) : (p.padded padding).read r =
    (p.read (padding.many r).2).map fun (a, rest) => (a, (padding.many rest).2) :=
  rfl

end Item

/-! ### Tokens -/

open Item

def lineBreak : Item Token := (char (· == '\n')).map fun _ => .lineBreak

/-- All characters up to the next blank. -/
def word : Item Token :=
  let letter := char (!Text.isBlank ·)
  (letter.andMany letter).map fun (c, cs) => .ofText (String.ofList (c :: cs))

def comment : Item Unit :=
  let slash := char (· == '/')
  ((slash.andThen slash).andMany (char (· != '\n'))).map fun _ => ()

/-- What separates words. A line feed ends a directive, too, and so it is a token. -/
def blank : Item Unit := ((char fun c => Text.isBlank c && c != '\n').map fun _ => ()).or comment

def token : Item (Spanned Token) := (lineBreak.or word).spanned.padded blank

end Lexer

/-- The tokens of a source, if they are all that stands in it. -/
def readTokens (source : String) : Except ListingError (List (Spanned Token)) :=
  let (tokens, rest) := Lexer.token.many (Lexer.blank.many ⟨0, source.toList⟩).2
  match rest.chars with
  | [] => .ok tokens
  | c :: _ => .error (.unexpectedInput ⟨c.toString, ⟨rest.place, rest.place + c.utf8Size⟩⟩)

end LocalNames
