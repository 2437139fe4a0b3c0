import LocalNames.Listing.Lexer

/-! The grammar of listings over their tokens. A directive whose arguments break off is rejected,
and what is left of its line is skipped; a line that goes on behind its directive is dropped with
its line break. Reading goes on with the next line in either case. -/

namespace LocalNames.Grammar

abbrev Tokens := List (Spanned Token)

/-! ### Words -/

/-- The word that a token is; a keyword is one, too, where an argument stands. -/
def word? (t : Spanned Token) : Option Word :=
  if t.value = .lineBreak then none else some ⟨t.value.text, t.span⟩

/-- All words up to the next line break, and the tokens behind them. -/
def takeWords : Tokens → List Word × Tokens
  | [] => ([], [])
  | t :: ts =>
    match word? t with
    | none => ([], t :: ts)
    | some w => (w :: (takeWords ts).1, (takeWords ts).2)

theorem takeWords_suffix (ts : Tokens) : (takeWords ts).2 <:+ ts := by
  induction ts with
  | nil => exact List.suffix_rfl
  | cons t ts ih =>
    rw [takeWords]
    split
    · exact List.suffix_rfl
    · exact ih.trans (List.suffix_cons t ts)

/-- From here on to the next line break. -/
def skip (ts : Tokens) : Tokens := ts.dropWhile (·.value ≠ .lineBreak)

/-! ### Arguments -/

/-- Reads from the front of the tokens. -/
abbrev Parser := StateT Tokens (Except ListingError)

/-- What a parser leaves is the end of what it was given. -/
def Consumes {α : Type} (p : Parser α) : Prop :=
  ∀ ts a rest, p.run ts = .ok (a, rest) → rest <:+ ts

theorem consumes_pure {α : Type} (a : α) : Consumes (pure a) := by
  intro ts b rest h
  cases h
  exact List.suffix_rfl

theorem consumes_bind {α β : Type} {p : Parser α} {f : α → Parser β} (hp : Consumes p)
    (hf : ∀ a, Consumes (f a)) : Consumes (p >>= f) := by
  intro ts b rest h
  cases hr : p.run ts with
  | error e =>
    rw [StateT.run_bind, hr] at h
    cases h
  | ok read =>
    rw [StateT.run_bind, hr] at h
    exact (hf read.1 read.2 b rest h).trans (hp ts read.1 read.2 hr)

section

-- `stop` is the empty span at the end of the source.
variable (source : List Char) (stop : Span)

/-- A word that the directive cannot do without. -/
def word (missing : Argument) : Parser Word := fun ts =>
  match ts with
  | [] => .error (.missingArgument missing stop)
  | t :: ts =>
    match word? t with
    | none => .error (.missingArgument missing t.span)
    | some w => .ok (w, ts)

theorem consumes_word (missing : Argument) : Consumes (word stop missing) := by
  intro ts w rest h
  cases ts with
  | nil => cases h
  | cons t ts =>
    simp only [StateT.run, word] at h
    split at h
    · cases h
    · cases h
      exact List.suffix_cons _ _

def words : Parser (List Word) := fun ts => .ok (takeWords ts)

theorem consumes_words : Consumes words := by
  intro ts ws rest h
  have hrest : (takeWords ts).2 = rest := congrArg Prod.snd (Except.ok.inj h)
  exact hrest ▸ takeWords_suffix ts

def type (missing : Argument) : Parser String := do
  let first ← word stop missing
  return Directive.typeText source first (← words)

/-- What follows a keyword that stands at `head`. -/
def arguments (head : Span) : Keyword → Parser Directive
  | .method => do
    let name ← word stop .methodName
    let descriptor ← word stop .methodDescriptor
    return .method name descriptor (← words)
  | .inherit => do
    return .inherit head (← word stop .parentName)
  | .var => do
    let slot ← word stop .slot
    let version ← word stop .version
    return .var head slot version (← type source stop .variableType)
  | .param => do
    let slot ← word stop .slot
    let name ← word stop .parameterName
    return .param head slot name (← type source stop .parameterType)

theorem consumes_type (missing : Argument) : Consumes (type source stop missing) :=
  consumes_bind (consumes_word stop missing) fun _ =>
    consumes_bind consumes_words fun _ => consumes_pure _

theorem consumes_arguments (head : Span) (k : Keyword) :
    Consumes (arguments source stop head k) := by
  cases k with
  | method =>
    exact consumes_bind (consumes_word stop _) fun _ =>
      consumes_bind (consumes_word stop _) fun _ =>
        consumes_bind consumes_words fun _ => consumes_pure _
  | inherit => exact consumes_bind (consumes_word stop _) fun _ => consumes_pure _
  | var =>
    exact consumes_bind (consumes_word stop _) fun _ =>
      consumes_bind (consumes_word stop _) fun _ =>
        consumes_bind (consumes_type source stop _) fun _ => consumes_pure _
  | param =>
    exact consumes_bind (consumes_word stop _) fun _ =>
      consumes_bind (consumes_word stop _) fun _ =>
        consumes_bind (consumes_type source stop _) fun _ => consumes_pure _

/-! ### Lines -/

/-- What has been found in front of the tokens `rest`. -/
structure Found where
  directives : List Directive
  errors : List ListingError
  rest : Tokens

/-- The directive that begins with `first`. -/
def directive (first : Spanned Token) (ts : Tokens) : Found :=
  match first.value with
  | .keyword k =>
    match (arguments source stop first.span k).run ts with
    | .ok (d, rest) => ⟨[d], [], rest⟩
    | .error e => ⟨[.rejected k], [e], skip ts⟩
  | token => ⟨[.unknown ⟨token.text, first.span⟩], [], (takeWords ts).2⟩

/-- The line that begins with `first`: one directive, and nothing behind it. -/
def line (first : Spanned Token) (ts : Tokens) : Found :=
  let found := directive source stop first ts
  match found.rest with
  | [] => ⟨[], found.errors ++ [.unexpectedInput ⟨Token.lineBreak.text, stop⟩], []⟩
  | extra :: rest =>
    if extra.value = .lineBreak then ⟨found.directives, found.errors, rest⟩
    else ⟨[], found.errors ++ [.unexpectedInput ⟨extra.value.text, extra.span⟩], (skip ts).tail⟩

theorem skip_suffix (ts : Tokens) : skip ts <:+ ts := List.dropWhile_suffix _

theorem directive_suffix (first : Spanned Token) (ts : Tokens) :
    (directive source stop first ts).rest <:+ ts := by
  unfold directive
  split
  · split
    · next d rest h => exact consumes_arguments source stop first.span _ ts d rest h
    · exact skip_suffix ts
  · exact takeWords_suffix ts

theorem line_suffix (first : Spanned Token) (ts : Tokens) :
    (line source stop first ts).rest <:+ ts := by
  have hrest := directive_suffix source stop first ts
  unfold line
  dsimp only
  split
  · exact List.nil_suffix
  · next extra rest h =>
    split
    · exact (List.suffix_cons extra rest).trans (h ▸ hrest)
    · exact (List.tail_suffix _).trans (skip_suffix ts)

/-- The directives of all lines, and what is wrong with the shape of lines; blank lines are
skipped. -/
def lines : Tokens → List Directive × List ListingError
  | [] => ([], [])
  | first :: ts =>
    if first.value = .lineBreak then lines ts
    else
      let found := line source stop first ts
      let later := lines found.rest
      (found.directives ++ later.1, found.errors ++ later.2)
termination_by ts => ts.length
decreasing_by
  · exact Nat.lt_succ_self _
  · exact Nat.lt_succ_of_le (line_suffix source stop first ts).length_le

end

/-- The last line may end with the source instead of a line break. -/
def close (stop : Span) (ts : Tokens) : Tokens :=
  if (ts.getLast?.map (·.value)) = some .lineBreak then ts else ts ++ [⟨.lineBreak, stop⟩]

end LocalNames.Grammar

namespace LocalNames

/-- The directives of a source, and what is wrong with the shape of its lines. -/
def directivesOf (source : String) : List Directive × List ListingError :=
  let stop := .marker source.utf8ByteSize
  match readTokens source with
  | .ok tokens => Grammar.lines source.toList stop (Grammar.close stop tokens)
  | .error e => ([], [e])

end LocalNames
