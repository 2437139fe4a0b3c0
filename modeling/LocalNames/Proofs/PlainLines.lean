import LocalNames.Proofs.Unplaced
import LocalNames.Proofs.WellFormed

/-! Lines wherever they stand. What a line says, and whether something is wrong with its shape, is
told by its characters alone; so which methods are read depends on the characters of the lines and
on their order. -/

namespace LocalNames

namespace Text

/-! ### Words in a text that is moved -/

/-- The word when the text it stands in begins `n` bytes later. -/
def moved (n : Nat) (w : Word) : Word := ⟨w.value, ⟨n + w.span.start, n + w.span.stop⟩⟩

@[simp]
theorem moved_value (n : Nat) (w : Word) : (moved n w).value = w.value := rfl

theorem wordsFrom_add (n place : Nat) (cs : List Char) :
    wordsFrom (n + place) cs = (wordsFrom place cs).map (moved n) := by
  induction cs using byWords generalizing place with
  | nil => simp
  | blank c cs hc ih => rw [wordsFrom_blank _ _ hc, wordsFrom_blank _ _ hc, Nat.add_assoc, ih]
  | word w rest hw hrest ih =>
    rw [wordsFrom_append _ hw hrest, wordsFrom_append _ hw hrest, Nat.add_assoc, ih, List.map_cons,
      moved]

/-- The first word of a line, unless it opens a comment. -/
def firstWord? (line : List Char) : Option String :=
  (words line).head?.filter (!opensComment ·.toList)

end Text

namespace SourceLine

/-- A line that is a source of its own. -/
def alone (chars : List Char) : SourceLine := ⟨0, chars, .marker (Text.size chars)⟩

theorem words_eq_moved (l : SourceLine) :
    l.words = (alone l.chars).words.map (Text.moved l.place) := by
  have hmoved : Text.wordsFrom l.place l.chars =
      (Text.wordsFrom 0 l.chars).map (Text.moved l.place) :=
    Text.wordsFrom_add l.place 0 l.chars
  rw [words, hmoved, List.takeWhile_map]
  rfl

theorem alone_mem {chars : List Char} (h : '\n' ∉ chars) :
    alone chars ∈ ofSource (String.ofList chars) := by
  rw [ofSource, String.toList_ofList, List.splitOn_eq_singleton h]
  simp [ofPieces, alone]

/-- A type in a line is the same wherever the line stands. -/
theorem typeText_moved {source : String} {l : SourceLine} (hl : l ∈ ofSource source)
    {before : List Word} {first : Word} {more : List Word}
    (h : (alone l.chars).words = before ++ first :: more) :
    Directive.typeText source.toList (Text.moved l.place first) (more.map (Text.moved l.place)) =
      Directive.typeText l.chars first more := by
  have hwords : Text.wordsFrom 0 l.chars = before ++ first :: more ++
      (Text.wordsFrom 0 l.chars).dropWhile (!Text.opensComment ·.value.toList) := by
    rw [← h, words, alone, List.takeWhile_append_dropWhile]
  -- Both cut the type out of their source where it stands in the line.
  obtain ⟨pre, type, post, hchars, hphrase, htype⟩ := Text.exists_phrase hwords
  obtain ⟨_, _, _, hline, _⟩ := exists_of_mem hl
  have hhere : Text.wordsFrom (l.place + Text.size pre) type =
      Text.moved l.place first :: more.map (Text.moved l.place) := by
    rw [← Nat.zero_add (Text.size pre), Text.wordsFrom_add, htype, List.map_cons]
  rw [typeText_eq hl hchars hphrase hhere]
  have halone := typeText_eq (alone_mem hline) (l := alone l.chars) hchars hphrase htype
  rw [String.toList_ofList] at halone
  exact halone.symm

end SourceLine

/-! ### Shapes without places -/

namespace LineShape

/-- What a line is, wherever it stands. -/
def unplaced : LineShape → LineShape
  | empty => empty
  | short keyword missing _ => short keyword missing (.marker 0)
  | surplus extra => surplus (bare extra.value)
  | unknown first => unknown (bare first.value)
  | whole d => whole d.unplaced

theorem directive?_unplaced (s : LineShape) :
    s.unplaced.directive? = s.directive?.map (·.unplaced) := by
  cases s <;> rfl

theorem fault?_unplaced (s : LineShape) : s.unplaced.fault? = none ↔ s.fault? = none := by
  cases s <;> simp [unplaced, fault?]

/-- What a text is that is a line. -/
def ofText (line : List Char) : LineShape := (ofLine line (.alone line)).unplaced

theorem unplaced_ofAll {source chars : List Char} {head : Span} {n : Nat} {k : Keyword}
    {ws : List Word} (hk : k.needs[ws.length]? = none)
    (h : ∀ before first more, ws = before ++ first :: more →
      Directive.typeText source (Text.moved n first) (more.map (Text.moved n)) =
        Directive.typeText chars first more) (head' : Span) :
    (ofAll source head k (ws.map (Text.moved n))).unplaced = (ofAll chars head' k ws).unplaced := by
  match k, ws, hk with
  | .method, name :: descriptor :: flags, _ =>
    simp [ofAll, unplaced, Directive.unplaced]
  | .inherit, [parent], _ => rfl
  | .inherit, parent :: extra :: more, _ => rfl
  | .var, slot :: version :: type :: more, _ =>
    simp only [List.map_cons, ofAll, unplaced, Directive.unplaced, Text.moved_value,
      h [slot, version] type more rfl]
  | .param, slot :: name :: type :: more, _ =>
    simp only [List.map_cons, ofAll, unplaced, Directive.unplaced, Text.moved_value,
      h [slot, name] type more rfl]

/-- A line is what its characters make it. -/
theorem unplaced_ofLine {source : String} {l : SourceLine} (hl : l ∈ SourceLine.ofSource source) :
    (ofLine source.toList l).unplaced = ofText l.chars := by
  rw [ofText, ofLine, ofLine, l.words_eq_moved]
  cases hwords : (SourceLine.alone l.chars).words with
  | nil => rfl
  | cons first arguments =>
    rw [List.map_cons, ofWords, ofWords, Text.moved_value]
    cases Keyword.ofText? first.value with
    | none => rfl
    | some k =>
      dsimp only
      rw [ofArguments, ofArguments, List.length_map]
      cases hk : k.needs[arguments.length]? with
      | some missing => rfl
      | none =>
        refine unplaced_ofAll hk (fun before type more h => ?_) _
        have hall : (SourceLine.alone l.chars).words = first :: before ++ type :: more := by
          rw [hwords, h]
          rfl
        exact SourceLine.typeText_moved hl hall

end LineShape

/-! ### Reading lines -/

/-- The lines of a source, without the line feeds between them. -/
def linesOf (source : String) : List (List Char) := source.toList.splitOn '\n'

/-- What a line tells the reader. -/
def said? (line : List Char) : Option Directive := (LineShape.ofText line).directive?

/-- Nothing is wrong with the shape of the line. -/
def Shapely (line : List Char) : Prop := (LineShape.ofText line).fault? = none

theorem unplaced_ofSource (source : String) :
    (LineShape.ofSource source).map (·.unplaced) = (linesOf source).map .ofText := by
  have hchars : (SourceLine.ofSource source).map (·.chars) = linesOf source :=
    SourceLine.map_chars_ofPieces 0 _
  rw [← hchars, LineShape.ofSource, List.map_map, List.map_map]
  exact List.map_congr_left fun l hl => LineShape.unplaced_ofLine hl

theorem unplaced_directivesOf (source : String) :
    (directivesOf source).1.map (·.unplaced) = (linesOf source).filterMap said? := by
  have hsaid : (linesOf source).filterMap said? =
      ((linesOf source).map LineShape.ofText).filterMap (·.directive?) := by
    rw [List.filterMap_map]
    rfl
  rw [directivesOf_eq, hsaid, ← unplaced_ofSource, List.filterMap_map, List.map_filterMap]
  exact List.filterMap_congr fun s _ => s.directive?_unplaced.symm

theorem directivesOf_snd_eq_nil_iff (source : String) :
    (directivesOf source).2 = [] ↔ ∀ line ∈ linesOf source, Shapely line := by
  have hshapely : (∀ line ∈ linesOf source, Shapely line) ↔
      ∀ s ∈ (linesOf source).map LineShape.ofText, s.fault? = none := by
    rw [List.forall_mem_map]
    rfl
  rw [directivesOf_eq, List.filterMap_eq_nil_iff, hshapely, ← unplaced_ofSource,
    List.forall_mem_map]
  exact forall₂_congr fun s _ => s.fault?_unplaced.symm

/-- Which listings are read, by the characters of their lines. -/
theorem readListing_eq_ok_iff_lines {source : String} {ms : List Method} :
    readListing source = .ok ms ↔ (∀ line ∈ linesOf source, Shapely line) ∧
      (Reader.start.run ((linesOf source).filterMap said?)).2 = [] ∧
      (Reader.start.run ((linesOf source).filterMap said?)).1.methods = ms := by
  obtain ⟨hlast, hnil⟩ := Reader.run_unplaced .start (directivesOf source).1
  rw [unplaced_directivesOf] at hlast hnil
  rw [readListing_eq_ok_iff, directivesOf_snd_eq_nil_iff, ← hnil, ← hlast]

/-! ### First words -/

theorem firstWord?_eq (line : List Char) :
    Text.firstWord? line = (SourceLine.alone line).words.head?.map (·.value) := by
  rw [Text.firstWord?, Text.words, SourceLine.words, SourceLine.alone, List.head?_map]
  cases Text.wordsFrom 0 line with
  | nil => rfl
  | cons w ws =>
    rw [List.takeWhile_cons]
    cases h : Text.opensComment w.value.toList <;> simp [h]

theorem said?_of_firstWord?_eq_none {line : List Char} (h : Text.firstWord? line = none) :
    said? line = none := by
  rw [firstWord?_eq, Option.map_eq_none_iff, List.head?_eq_none_iff] at h
  rw [said?, LineShape.ofText, LineShape.ofLine, h]
  rfl

theorem shapely_of_firstWord?_eq_none {line : List Char} (h : Text.firstWord? line = none) :
    Shapely line := by
  rw [firstWord?_eq, Option.map_eq_none_iff, List.head?_eq_none_iff] at h
  rw [Shapely, LineShape.ofText, LineShape.ofLine, h]
  rfl

/-- The keyword of a directive that has all its arguments. -/
def Directive.keyword? : Directive → Option Keyword
  | method _ _ _ => some .method
  | inherit _ _ => some .inherit
  | var _ _ _ _ => some .var
  | param _ _ _ _ => some .param
  | unknown _ | rejected _ => none

/-- A shapely line says what its first word announces. -/
theorem exists_said? {line : List Char} (hshapely : Shapely line) {word : String}
    (hword : Text.firstWord? line = some word) :
    ∃ d, said? line = some d ∧ (∀ k, d ≠ .rejected k) ∧ d.keyword? = Keyword.ofText? word := by
  rw [firstWord?_eq] at hword
  rw [Shapely, LineShape.ofText, LineShape.ofLine, LineShape.fault?_unplaced] at hshapely
  rw [said?, LineShape.ofText, LineShape.ofLine, LineShape.directive?_unplaced]
  have hspelt := LineShape.spelt_ofWords line (SourceLine.alone line).stop
    (SourceLine.alone line).words
  generalize LineShape.ofWords line (SourceLine.alone line).stop (SourceLine.alone line).words = s
    at hspelt hshapely ⊢
  generalize (SourceLine.alone line).words = ws at hspelt hword
  cases hspelt with
  | empty => cases hword
  | short _ _ | surplus _ => cases hshapely
  | unknown hnone =>
    obtain rfl := Option.some_inj.mp hword
    exact ⟨_, rfl, fun _ => Directive.noConfusion, hnone.symm⟩
  | method hhead | inherit hhead | var hhead | param hhead =>
    obtain rfl := hhead.symm.trans (Option.some_inj.mp hword)
    rw [Keyword.ofText?_text]
    exact ⟨_, rfl, fun _ => Directive.noConfusion, rfl⟩

/-- What a shapely line says has all its arguments and stands behind its keyword. -/
theorem keyword_of_said? {line : List Char} (hshapely : Shapely line) {d : Directive}
    (hd : said? line = some d) : (∀ k, d ≠ .rejected k) ∧
      ∀ k, d.keyword? = some k → Text.firstWord? line = some k.text := by
  cases hword : Text.firstWord? line with
  | none =>
    rw [said?_of_firstWord?_eq_none hword] at hd
    cases hd
  | some word =>
    obtain ⟨d', hd', hrejected, hkeyword⟩ := exists_said? hshapely hword
    obtain rfl : d = d' := Option.some_inj.mp (hd.symm.trans hd')
    refine ⟨hrejected, fun k hk => ?_⟩
    rw [Keyword.text_of_ofText? (hkeyword.symm.trans hk)]

/-- A shapely line with the keyword of methods is a whole `method` directive. -/
theorem exists_method_of_firstWord? {line : List Char} (hshapely : Shapely line)
    (hword : Text.firstWord? line = some "method") :
    ∃ name descriptor flags, said? line = some (.method name descriptor flags) := by
  obtain ⟨d, hd, _, hkeyword⟩ := exists_said? hshapely hword
  have hmethod : Keyword.ofText? "method" = some .method := Keyword.ofText?_text .method
  rw [hmethod] at hkeyword
  cases d with
  | method name descriptor flags => exact ⟨name, descriptor, flags, hd⟩
  | _ => cases hkeyword

end LocalNames
