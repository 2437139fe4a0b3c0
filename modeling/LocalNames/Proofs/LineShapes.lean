import LocalNames.Proofs.TextLines
import LocalNames.Listing.Grammar

/-! The grammar of listings line by line. The words of a line alone tell whether it is a directive
and, if not, what is wrong with it; however the grammar recovers, each line is found as if it stood
alone. -/

namespace LocalNames

theorem filterMap_cons_eq {α β : Type} (f : α → Option β) (a : α) (as : List α) :
    (a :: as).filterMap f = (f a).toList ++ as.filterMap f := by
  cases h : f a <;> simp [h]

/-- The arguments that a directive cannot do without, in their order. -/
def Keyword.needs : Keyword → List Argument
  | method => [.methodName, .methodDescriptor]
  | inherit => [.parentName]
  | var => [.slot, .version, .variableType]
  | param => [.slot, .parameterName, .parameterType]

/-- What a line is by its words. -/
inductive LineShape
  | empty
  /-- The line ends where an argument is missing. -/
  | short (keyword : Keyword) (missing : Argument) (stop : Span)
  /-- A parent is followed by another word. -/
  | surplus (extra : Word)
  /-- The first word is no keyword. -/
  | unknown (first : Word)
  | whole (directive : Directive)

namespace LineShape

/-- A keyword with all the arguments it needs. -/
def ofAll (source : List Char) (head : Span) : Keyword → List Word → LineShape
  | .method, name :: descriptor :: flags => whole (.method name descriptor flags)
  | .inherit, [parent] => whole (.inherit head parent)
  | .inherit, _ :: extra :: _ => surplus extra
  | .var, slot :: version :: type :: more =>
    whole (.var head slot version (Directive.typeText source type more))
  | .param, slot :: name :: type :: more =>
    whole (.param head slot name (Directive.typeText source type more))
  | _, _ => empty

def ofArguments (source : List Char) (stop head : Span) (k : Keyword) (arguments : List Word) :
    LineShape :=
  match k.needs[arguments.length]? with
  | some missing => short k missing stop
  | none => ofAll source head k arguments

def ofWords (source : List Char) (stop : Span) : List Word → LineShape
  | [] => empty
  | first :: arguments =>
    match Keyword.ofText? first.value with
    | some k => ofArguments source stop first.span k arguments
    | none => unknown first

def ofLine (source : List Char) (l : SourceLine) : LineShape := ofWords source l.stop l.words

/-- The lines of a source as they are by their words. -/
def ofSource (source : String) : List LineShape :=
  (SourceLine.ofSource source).map (ofLine source.toList)

/-- What the words of a line spell, case by case. -/
inductive Spelt (source : List Char) (stop : Span) : List Word → LineShape → Prop
  | empty : Spelt source stop [] empty
  | unknown {first : Word} {others : List Word} :
      Keyword.ofText? first.value = none → Spelt source stop (first :: others) (unknown first)
  | short {head : Word} {arguments : List Word} {k : Keyword} {missing : Argument} :
      head.value = k.text → k.needs[arguments.length]? = some missing →
      Spelt source stop (head :: arguments) (short k missing stop)
  | surplus {head parent extra : Word} {others : List Word} :
      head.value = Keyword.inherit.text →
      Spelt source stop (head :: parent :: extra :: others) (surplus extra)
  | method {head name descriptor : Word} {flags : List Word} :
      head.value = Keyword.method.text →
      Spelt source stop (head :: name :: descriptor :: flags)
        (whole (.method name descriptor flags))
  | inherit {head parent : Word} : head.value = Keyword.inherit.text →
      Spelt source stop [head, parent] (whole (.inherit head.span parent))
  | var {head slot version first : Word} {more : List Word} : head.value = Keyword.var.text →
      Spelt source stop (head :: slot :: version :: first :: more)
        (whole (.var head.span slot version (Directive.typeText source first more)))
  | param {head slot name first : Word} {more : List Word} : head.value = Keyword.param.text →
      Spelt source stop (head :: slot :: name :: first :: more)
        (whole (.param head.span slot name (Directive.typeText source first more)))

theorem spelt_ofAll (source : List Char) (stop : Span) {head : Word} {k : Keyword}
    {arguments : List Word} (hk : head.value = k.text) (h : k.needs[arguments.length]? = none) :
    Spelt source stop (head :: arguments) (ofAll source head.span k arguments) := by
  match k, arguments, h with
  | .method, _ :: _ :: _, _ => exact .method hk
  | .inherit, [_], _ => exact .inherit hk
  | .inherit, _ :: _ :: _, _ => exact .surplus hk
  | .var, _ :: _ :: _ :: _, _ => exact .var hk
  | .param, _ :: _ :: _ :: _, _ => exact .param hk

theorem spelt_ofWords (source : List Char) (stop : Span) (ws : List Word) :
    Spelt source stop ws (ofWords source stop ws) := by
  cases ws with
  | nil => exact .empty
  | cons first arguments =>
    rw [ofWords]
    cases hk : Keyword.ofText? first.value with
    | none => exact .unknown hk
    | some k =>
      have hfirst := (Keyword.text_of_ofText? hk).symm
      simp only [ofArguments]
      cases hneeds : k.needs[arguments.length]? with
      | some missing => exact .short hfirst hneeds
      | none => exact spelt_ofAll source stop hfirst hneeds

/-- What the reader is handed. -/
def directive? : LineShape → Option Directive
  | short keyword _ _ => some (.rejected keyword)
  | unknown first => some (.unknown first)
  | whole d => some d
  | empty | surplus _ => none

/-- What is wrong with the line before any directive is read. -/
def fault? : LineShape → Option ListingError
  | short _ missing stop => some (.missingArgument missing stop)
  | surplus extra => some (.unexpectedInput extra)
  | empty | unknown _ | whole _ => none

end LineShape

namespace Grammar

/-! ### One line -/

section

variable (source : List Char) (eoi stop : Span) (rest : Tokens)

theorem word?_ofWord (w : Word) : word? (Token.ofWord w) = some w := by
  rw [word?, if_neg (Token.ofWord_ne_lineBreak w)]
  simp [Token.ofWord]

theorem takeWords_words (ws : List Word) :
    takeWords (ws.map Token.ofWord ++ ⟨.lineBreak, stop⟩ :: rest) =
      (ws, ⟨.lineBreak, stop⟩ :: rest) := by
  induction ws with
  | nil => rfl
  | cons w ws ih => rw [List.map_cons, List.cons_append, takeWords, word?_ofWord, ih]

theorem skip_words (ws : List Word) :
    skip (ws.map Token.ofWord ++ ⟨.lineBreak, stop⟩ :: rest) = ⟨.lineBreak, stop⟩ :: rest := by
  induction ws with
  | nil => rfl
  | cons w ws ih =>
    rw [List.map_cons, List.cons_append, skip,
      List.dropWhile_cons_of_pos (by simpa using Token.ofWord_ne_lineBreak w)]
    exact ih

theorem word_of_word (missing : Argument) (w : Word) (ts : Tokens) :
    (word eoi missing).run (Token.ofWord w :: ts) = .ok (w, ts) := by
  simp only [StateT.run, word, word?_ofWord]

theorem word_of_lineBreak (missing : Argument) :
    (word eoi missing).run (⟨.lineBreak, stop⟩ :: rest) = .error (.missingArgument missing stop) :=
  rfl

theorem words_of_words (ws : List Word) :
    words.run (ws.map Token.ofWord ++ ⟨.lineBreak, stop⟩ :: rest) =
      .ok (ws, ⟨.lineBreak, stop⟩ :: rest) :=
  congrArg Except.ok (takeWords_words stop rest ws)

theorem run_bind_of_ok {α β : Type} {p : Parser α} {f : α → Parser β} {ts : Tokens} {a : α}
    {later : Tokens} (h : p.run ts = .ok (a, later)) : (p >>= f).run ts = (f a).run later := by
  rw [StateT.run_bind, h]
  rfl

theorem run_bind_of_error {α β : Type} {p : Parser α} {f : α → Parser β} {ts : Tokens}
    {e : ListingError} (h : p.run ts = .error e) : (p >>= f).run ts = .error e := by
  rw [StateT.run_bind, h]
  rfl

theorem type_of_words (missing : Argument) (first : Word) (more : List Word) :
    (type source eoi missing).run
        ((first :: more).map Token.ofWord ++ ⟨.lineBreak, stop⟩ :: rest) =
      .ok (Directive.typeText source first more, ⟨.lineBreak, stop⟩ :: rest) :=
  (run_bind_of_ok (word_of_word eoi missing first _)).trans
    (run_bind_of_ok (words_of_words stop rest more))

theorem type_of_lineBreak (missing : Argument) :
    (type source eoi missing).run (⟨.lineBreak, stop⟩ :: rest) =
      .error (.missingArgument missing stop) :=
  run_bind_of_error (word_of_lineBreak eoi stop rest missing)

/-- Where an argument is missing, that is found, and nothing else. -/
theorem arguments_of_short (head : Span) {k : Keyword} {ws : List Word} {missing : Argument}
    (h : k.needs[ws.length]? = some missing) :
    (arguments source eoi head k).run (ws.map Token.ofWord ++ ⟨.lineBreak, stop⟩ :: rest) =
      .error (.missingArgument missing stop) := by
  match k, ws, h with
  | .method, [], rfl | .inherit, [], rfl | .var, [], rfl | .param, [], rfl =>
    exact run_bind_of_error (word_of_lineBreak eoi stop rest _)
  | .method, [a], rfl | .var, [a], rfl | .param, [a], rfl =>
    exact (run_bind_of_ok (word_of_word eoi _ a _)).trans
      (run_bind_of_error (word_of_lineBreak eoi stop rest _))
  | .var, [a, b], rfl | .param, [a, b], rfl =>
    exact (run_bind_of_ok (word_of_word eoi _ a _)).trans <|
      (run_bind_of_ok (word_of_word eoi _ b _)).trans
        (run_bind_of_error (type_of_lineBreak source eoi stop rest _))

/-- With all its arguments a directive is found, and at most a parent leaves words behind it. -/
theorem arguments_of_all (head : Span) {k : Keyword} {ws : List Word}
    (h : k.needs[ws.length]? = none) :
    (∃ d, LineShape.ofAll source head k ws = .whole d ∧
      (arguments source eoi head k).run (ws.map Token.ofWord ++ ⟨.lineBreak, stop⟩ :: rest) =
        .ok (d, ⟨.lineBreak, stop⟩ :: rest)) ∨
    ∃ d extra more, LineShape.ofAll source head k ws = .surplus extra ∧
      (arguments source eoi head k).run (ws.map Token.ofWord ++ ⟨.lineBreak, stop⟩ :: rest) =
        .ok (d, (extra :: more).map Token.ofWord ++ ⟨.lineBreak, stop⟩ :: rest) := by
  match k, ws, h with
  | .method, a :: b :: more, _ =>
    exact .inl ⟨_, rfl, (run_bind_of_ok (word_of_word eoi _ a _)).trans <|
      (run_bind_of_ok (word_of_word eoi _ b _)).trans
        (run_bind_of_ok (words_of_words stop rest more))⟩
  | .inherit, [a], _ => exact .inl ⟨_, rfl, run_bind_of_ok (word_of_word eoi _ a _)⟩
  | .inherit, a :: extra :: more, _ =>
    exact .inr ⟨_, extra, more, rfl, run_bind_of_ok (word_of_word eoi _ a _)⟩
  | .var, a :: b :: c :: more, _ | .param, a :: b :: c :: more, _ =>
    exact .inl ⟨_, rfl, (run_bind_of_ok (word_of_word eoi _ a _)).trans <|
      (run_bind_of_ok (word_of_word eoi _ b _)).trans
        (run_bind_of_ok (type_of_words source eoi stop rest _ c more))⟩

/-- What is found of a line with words is what its words tell, whatever follows it. -/
theorem line_eq (first : Word) (ws : List Word) :
    line source eoi (Token.ofWord first) (ws.map Token.ofWord ++ ⟨.lineBreak, stop⟩ :: rest) =
      ⟨(LineShape.ofWords source stop (first :: ws)).directive?.toList,
        (LineShape.ofWords source stop (first :: ws)).fault?.toList, rest⟩ := by
  have hspan : (Token.ofWord first).span = first.span := rfl
  rw [LineShape.ofWords]
  cases hk : Keyword.ofText? first.value with
  | none =>
    have hvalue : (Token.ofWord first).value = .word first.value := by
      simp [Token.ofWord, Token.ofText, hk]
    simp only [line, directive, hvalue, takeWords_words, hspan]
    rfl
  | some k =>
    have hvalue : (Token.ofWord first).value = .keyword k := by
      simp [Token.ofWord, Token.ofText, hk]
    simp only [line, directive, hvalue, hspan, LineShape.ofArguments]
    cases hneeds : k.needs[ws.length]? with
    | some missing =>
      simp only [arguments_of_short source eoi stop rest first.span hneeds, skip_words]
      rfl
    | none =>
      rcases arguments_of_all source eoi stop rest first.span hneeds with
        ⟨d, hshape, hrun⟩ | ⟨d, extra, more, hshape, hrun⟩
      · simp only [hrun, hshape]
        rfl
      · simp only [hrun, hshape, List.map_cons, List.cons_append, skip_words,
          if_neg (Token.ofWord_ne_lineBreak extra)]
        simp [Token.ofWord, LineShape.directive?, LineShape.fault?]

/-- Lines do not bear on each other. -/
theorem lines_append (ws : List Word) :
    lines source eoi (ws.map Token.ofWord ++ ⟨.lineBreak, stop⟩ :: rest) =
      ((LineShape.ofWords source stop ws).directive?.toList ++ (lines source eoi rest).1,
        (LineShape.ofWords source stop ws).fault?.toList ++ (lines source eoi rest).2) := by
  cases ws with
  | nil =>
    rw [List.map_nil, List.nil_append, lines, if_pos rfl]
    rfl
  | cons first ws =>
    rw [List.map_cons, List.cons_append, lines, if_neg (Token.ofWord_ne_lineBreak first)]
    simp only [line_eq]

end

/-! ### All lines -/

/-- A last line that has words gets the line break that it lacks. -/
theorem close_of_words (eoi : Span) (ws : List Word) :
    close eoi (ws.map Token.ofWord) = ws.map Token.ofWord ++ [⟨.lineBreak, eoi⟩] := by
  apply if_neg
  rw [List.getLast?_map, Option.map_map, Option.map_eq_some_iff]
  rintro ⟨w, _, hw⟩
  exact Token.ofWord_ne_lineBreak w hw

theorem close_append (eoi stop : Span) (before rest : Tokens) :
    close eoi (before ++ ⟨.lineBreak, stop⟩ :: rest) =
      before ++ ⟨.lineBreak, stop⟩ :: if rest = [] then [] else close eoi rest := by
  cases rest with
  | nil =>
    rw [if_pos rfl, close, if_pos]
    simp
  | cons t ts =>
    have hlast := List.getLast?_eq_some_getLast (List.cons_ne_nil t ts)
    rw [if_neg (List.cons_ne_nil t ts), close, close, List.getLast?_append, List.getLast?_cons_cons,
      hlast, Option.some_or]
    split_ifs <;> simp

/-- The grammar finds every line as it is by itself. -/
theorem lines_tokens (source : List Char) (eoi : Span) (ls : List SourceLine)
    (h : ∀ l ∈ ls.getLast?, l.stop = eoi) :
    lines source eoi (close eoi (SourceLine.tokens ls)) =
      ((ls.map (LineShape.ofLine source)).filterMap (·.directive?),
        (ls.map (LineShape.ofLine source)).filterMap (·.fault?)) := by
  have hnil : lines source eoi (close eoi []) = ([], []) := by
    have hclose : close eoi [] = [⟨.lineBreak, eoi⟩] := rfl
    rw [hclose, lines, if_pos rfl, lines]
  fun_induction SourceLine.tokens ls with
  | case1 => exact hnil
  | case2 last =>
    have hstop : last.stop = eoi := h last rfl
    rw [close_of_words, lines_append, lines, List.map_singleton, filterMap_cons_eq,
      filterMap_cons_eq, LineShape.ofLine, hstop]
    rfl
  | case3 l next more ih =>
    have hrest : lines source eoi (if SourceLine.tokens (next :: more) = [] then [] else
        close eoi (SourceLine.tokens (next :: more))) =
          lines source eoi (close eoi (SourceLine.tokens (next :: more))) := by
      split_ifs with hempty
      · rw [hempty, hnil, lines]
      · rfl
    have hshapes : (l :: next :: more).map (LineShape.ofLine source) =
        LineShape.ofLine source l :: (next :: more).map (LineShape.ofLine source) := rfl
    rw [close_append, lines_append, hrest, ih (by simpa using h), hshapes,
      filterMap_cons_eq _ (LineShape.ofLine source l),
      filterMap_cons_eq _ (LineShape.ofLine source l)]
    rfl

end Grammar

/-- What the grammar finds in a source. -/
theorem directivesOf_eq (source : String) : directivesOf source =
    ((LineShape.ofSource source).filterMap (·.directive?),
      (LineShape.ofSource source).filterMap (·.fault?)) := by
  rw [directivesOf, readTokens_eq]
  exact Grammar.lines_tokens _ _ _ (SourceLine.stop_getLast source)

end LocalNames
