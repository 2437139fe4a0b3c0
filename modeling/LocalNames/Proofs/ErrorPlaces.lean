import LocalNames.Proofs.ByLine
import LocalNames.Proofs.Unplaced

/-! Where errors point. The place of an error begins and ends between characters of the source,
and what stands there is the text that the error is about. -/

namespace LocalNames

/-! ### Stretches of a source -/

/-- The text stands in the source at the span, which begins and ends between characters. -/
structure Span.Shows (s : Span) (source text : String) : Prop where
  start_le_stop : s.start ≤ s.stop
  stop_le : s.stop ≤ source.utf8ByteSize
  start_isValid : (⟨s.start⟩ : String.Pos.Raw).IsValid source
  stop_isValid : (⟨s.stop⟩ : String.Pos.Raw).IsValid source
  slice_eq : s.slice source.toList = text

theorem Text.isValid_size {source : String} {pre post : List Char}
    (h : source.toList = pre ++ post) : (⟨size pre⟩ : String.Pos.Raw).IsValid source := by
  refine String.Pos.Raw.isValid_iff_exists_append.mpr
    ⟨String.ofList pre, String.ofList post, ?_, ?_⟩
  · rw [← String.ofList_append, ← h, String.ofList_toList]
  · have hsize := size_toList (String.ofList pre)
    rw [String.toList_ofList] at hsize
    exact congrArg String.Pos.Raw.mk hsize

theorem Span.shows_of_append {source : String} {pre text post : List Char}
    (h : source.toList = pre ++ text ++ post) :
    (⟨Text.size pre, Text.size pre + Text.size text⟩ : Span).Shows source
      (String.ofList text) where
  start_le_stop := Nat.le_add_right _ _
  stop_le := by
    rw [← Text.size_toList, h, Text.size_append, Text.size_append]
    exact Nat.le_add_right _ _
  start_isValid := Text.isValid_size (by rw [h, List.append_assoc])
  stop_isValid := by
    rw [← Text.size_append]
    exact Text.isValid_size h
  slice_eq := by rw [h, Span.slice_append]

/-- From the beginning of one word to the end of the last. -/
def Span.across (first : Word) (more : List Word) : Span :=
  first.span.through ((first :: more).getLast (List.cons_ne_nil _ _)).span

namespace SourceLine

variable {source : String} {l : SourceLine}

theorem shows_word (hl : l ∈ ofSource source) {w : Word} (hw : w ∈ l.words) :
    w.span.Shows source w.value := by
  obtain ⟨before, after, hsource, _, hplace, _⟩ := exists_of_mem hl
  obtain ⟨pre, post, hchars, _, hspan⟩ :=
    Text.exists_of_mem_wordsFrom ((List.takeWhile_sublist _).subset hw)
  have hcut : source.toList = before ++ pre ++ w.value.toList ++ (post ++ after) := by
    rw [hsource, hchars]
    simp
  have hshows := Span.shows_of_append hcut
  rwa [String.ofList_toList, Text.size_append, ← hplace, ← hspan] at hshows

theorem shows_getElem? (hl : l ∈ ofSource source) {i : Nat} {w : Word}
    (hw : l.words[i]? = some w) : w.span.Shows source w.value :=
  shows_word hl (List.mem_of_getElem? hw)

/-- Words that follow each other on a line stand in one stretch of it. -/
theorem exists_shows_across (hl : l ∈ ofSource source) {before more after : List Word}
    {first : Word} (h : l.words = before ++ first :: more ++ after) :
    ∃ text, (Span.across first more).Shows source text ∧
      Text.words text.toList = (first :: more).map (·.value) := by
  obtain ⟨before, after, hsource, _, hplace, _⟩ := exists_of_mem hl
  obtain ⟨pre, phrase, post, hchars, hphrase, hwords⟩ := exists_phrase h
  have hcut : source.toList = before ++ pre ++ phrase ++ (post ++ after) := by
    rw [hsource, hchars]
    simp
  refine ⟨String.ofList phrase, ?_, ?_⟩
  · rw [Span.across, Text.through_of_isPhrase hphrase hwords, hplace, ← Text.size_append]
    exact Span.shows_of_append hcut
  · rw [String.toList_ofList, ← Text.map_value_wordsFrom (l.place + Text.size pre), hwords]

/-- A type is cut out of the source where its words stand. -/
theorem shows_typeText (hl : l ∈ ofSource source) {before more : List Word} {first : Word}
    (h : l.words = before ++ first :: more) :
    (Span.across first more).Shows source (Directive.typeText source.toList first more) := by
  have hwords : l.words = before ++ first :: more ++ [] := by rw [h, List.append_nil]
  obtain ⟨text, hshows, _⟩ := exists_shows_across hl hwords
  have htype : Directive.typeText source.toList first more = text := hshows.slice_eq
  rwa [htype]

/-- A line ends with its line feed or with the source. -/
theorem shows_stop (hl : l ∈ ofSource source) :
    l.stop.Shows source "\n" ∨
      (l.stop.Shows source "" ∧ l.stop = .marker source.utf8ByteSize) := by
  obtain ⟨pre, post, htext, _, hplace, hpost, hstop⟩ := exists_of_mem_ofPieces hl
  rw [List.intercalate_splitOn] at htext
  rw [Nat.zero_add] at hplace
  rw [hplace, ← Text.size_append] at hstop
  cases post with
  | nil =>
    have hcut : source.toList = pre ++ l.chars ++ [] ++ [] := by simpa using htext
    refine .inr ⟨hstop ▸ Span.shows_of_append hcut, hstop.trans ?_⟩
    rw [← Text.size_toList, htext, List.append_nil]
    rfl
  | cons c post =>
    obtain rfl := hpost c rfl
    have hcut : source.toList = pre ++ l.chars ++ ['\n'] ++ post := by simpa using htext
    exact .inl (hstop ▸ Span.shows_of_append hcut)

end SourceLine

/-! ### What errors point at -/

/-- What stands at the place of an error that is about the line `l`. -/
def ListingError.PointsAt (source : String) (l : SourceLine) (text : String) :
    ListingError → Prop
  | unknownDirective word => text = word.value ∧ l.words[0]? = some word
  | unexpectedInput word => text = word.value ∧ l.words[2]? = some word
  | missingArgument _ place =>
    place = l.stop ∧ (text = "\n" ∨ (text = "" ∧ place = .marker source.utf8ByteSize))
  | invalidNumber word => text = word.value ∧ (l.words[1]? = some word ∨ l.words[2]? = some word)
  | unknownFlag word => text = word.value ∧ word ∈ l.words.drop 3
  | invalidDescriptor reason place =>
    l.words[2]? = some ⟨text, place⟩ ∧ MethodDescriptor.read text = .error reason
  | outsideMethod keyword place => text = keyword.text ∧ l.words[0]? = some ⟨text, place⟩
  | duplicateMethod name => text = name.value ∧ l.words[1]? = some name
  | unknownParent name => text = name.value ∧ l.words[1]? = some name
  | secondParent _ place => l.words[1]? = some ⟨text, place⟩
  | duplicateVariable v place => ∃ head slot version more,
    l.words = head :: slot :: version :: more ∧ head.value = Keyword.var.text ∧
      Text.Writes slot.value v.slot ∧ Text.Writes version.value v.version ∧
      place = head.span.through version.span ∧
      Text.words text.toList = [head.value, slot.value, version.value]

namespace LineShape.Spelt

variable {source : List Char} {stop : Span} {ws : List Word} {d : Directive}

theorem getElem?_of_mem_numbers (h : Spelt source stop ws (.whole d)) {w : Word}
    (hw : w ∈ d.numbers) : ws[1]? = some w ∨ ws[2]? = some w := by
  cases h with
  | method _ | inherit _ => cases hw
  | var _ => simpa [Directive.numbers, eq_comm] using hw
  | param _ => simpa [Directive.numbers, eq_comm] using .inl (List.mem_singleton.mp hw)

theorem getElem?_of_member? (h : Spelt source stop ws (.whole d)) {k : Keyword} {head : Span}
    (hk : d.member? = some (k, head)) : ws[0]? = some ⟨k.text, head⟩ := by
  cases h with
  | method _ => cases hk
  | inherit hhead | var hhead | param hhead =>
    cases hk
    rw [← hhead]
    rfl

end LineShape.Spelt

namespace Reader

variable {source : String} {l : SourceLine} {before : List Directive} {e : ListingError}

/-- The fault of a directive points at words of its line. -/
theorem pointsAt_of_fault (hl : l ∈ SourceLine.ofSource source) {d : Directive}
    (hspelt : LineShape.Spelt source.toList l.stop l.words (.whole d)) (h : Fault before d e) :
    ∃ text, e.PointsAt source l text ∧ e.span.Shows source text := by
  have hnumbers {w : Word} (hw : w ∈ d.numbers) := hspelt.getElem?_of_mem_numbers hw
  have hmember {k : Keyword} {head : Span} (hk : d.member? = some (k, head)) :=
    hspelt.getElem?_of_member? hk
  generalize hwords : l.words = ws at hspelt
  cases h with
  | duplicateMethod _ | unknownParent _ _ =>
    cases hspelt
    have hname : l.words[1]? = some _ := congrArg (·[1]?) hwords
    exact ⟨_, ⟨rfl, hname⟩, SourceLine.shows_getElem? hl hname⟩
  | secondParent _ _ _ =>
    cases hspelt
    have hparent : l.words[1]? = some _ := congrArg (·[1]?) hwords
    exact ⟨_, hparent, SourceLine.shows_getElem? hl hparent⟩
  | invalidDescriptor _ hread =>
    cases hspelt
    have hdescriptor : l.words[2]? = some _ := congrArg (·[2]?) hwords
    exact ⟨_, ⟨hdescriptor, hread⟩, SourceLine.shows_getElem? hl hdescriptor⟩
  | @unknownFlag _ _ flag _ _ _ _ hflag =>
    cases hspelt
    have hmem : flag ∈ l.words.drop 3 := by
      rw [hwords]
      exact hflag.mem.1
    exact ⟨_, ⟨rfl, hmem⟩, SourceLine.shows_word hl (List.mem_of_mem_drop hmem)⟩
  | invalidNumber hnumber =>
    have hword := hnumbers hnumber.mem.1
    have hmem := hword.elim List.mem_of_getElem? List.mem_of_getElem?
    exact ⟨_, ⟨rfl, hword⟩, SourceLine.shows_word hl hmem⟩
  | outsideMethod hk _ _ =>
    exact ⟨_, ⟨rfl, hmember hk⟩, SourceLine.shows_getElem? hl (hmember hk)⟩
  | @duplicateVariable _ _ _ slot version _ _ _ _ hslot hversion _ =>
    cases hspelt with
    | @var head _ _ first more hhead =>
      have hcut : l.words = [] ++ head :: [slot, version] ++ first :: more := hwords
      obtain ⟨text, hshows, htext⟩ := SourceLine.exists_shows_across hl hcut
      exact ⟨text, ⟨head, slot, version, _, hwords, hhead, hslot, hversion, rfl, htext⟩, hshows⟩
  | unknown => cases hspelt

/-- What is wrong with a line points at a text of the line, or at its end. -/
theorem pointsAt_of_take (hl : l ∈ SourceLine.ofSource source)
    (h : ((behind before).take (.ofLine source.toList l)).2 = some e) :
    ∃ text, e.PointsAt source l text ∧ e.span.Shows source text := by
  have hspelt := LineShape.spelt_ofWords source.toList l.stop l.words
  rw [LineShape.ofLine] at h
  generalize LineShape.ofWords source.toList l.stop l.words = s at h hspelt
  cases s with
  | empty => cases h
  | short _ _ _ =>
    cases h
    generalize l.words = ws at hspelt
    cases hspelt
    rcases SourceLine.shows_stop hl with hstop | ⟨hstop, hend⟩
    · exact ⟨_, ⟨rfl, .inl rfl⟩, hstop⟩
    · exact ⟨_, ⟨rfl, .inr ⟨rfl, hend⟩⟩, hstop⟩
  | surplus extra =>
    cases h
    have hextra : l.words[2]? = some extra := by
      generalize l.words = ws at hspelt
      cases hspelt
      rfl
    exact ⟨_, ⟨rfl, hextra⟩, SourceLine.shows_getElem? hl hextra⟩
  | unknown first =>
    cases h
    have hfirst : l.words[0]? = some first := by
      generalize l.words = ws at hspelt
      cases hspelt
      rfl
    exact ⟨_, ⟨rfl, hfirst⟩, SourceLine.shows_getElem? hl hfirst⟩
  | whole d => exact pointsAt_of_fault hl hspelt (report_iff.mp h)

end Reader

/-! ### All errors -/

/-- The type that is cut out of the source for a directive. -/
def Directive.type? : Directive → Option String
  | var _ _ _ type | param _ _ _ type => some type
  | _ => none

/-- Types are cut out where the words behind the first three stand. -/
theorem exists_shows_type {source type : String} {d : Directive}
    (hd : d ∈ (directivesOf source).1) (htype : d.type? = some type) :
    ∃ l ∈ SourceLine.ofSource source, ∃ first more, l.words.drop 3 = first :: more ∧
      (Span.across first more).Shows source type := by
  rw [directivesOf_eq] at hd
  obtain ⟨s, hs, hd⟩ := List.mem_filterMap.mp hd
  obtain ⟨l, hl, rfl⟩ := List.mem_map.mp hs
  have hspelt := LineShape.spelt_ofWords source.toList l.stop l.words
  rw [LineShape.ofLine] at hd
  generalize hwords : l.words = ws at hd hspelt
  generalize LineShape.ofWords source.toList l.stop ws = s at hd hspelt
  refine ⟨l, hl, ?_⟩
  cases hspelt <;> cases hd <;> cases htype
  case var head slot version first more _ | param head slot version first more _ =>
    have htype : l.words = [head, slot, version] ++ first :: more := hwords
    exact ⟨first, more, congrArg (·.drop 3) hwords, SourceLine.shows_typeText hl htype⟩

theorem pairwise_takeAll_ofSource (source : String) :
    (Reader.start.takeAll (LineShape.ofSource source)).2.Pairwise
      fun e f => e.span.start < f.span.start :=
  Reader.pairwise_takeAll (fun _ hl => hl) (SourceLine.pairwise_ofSource source) []

/-- What is reported of a source is what its lines are reported for. -/
theorem readListing_eq_error_iff {source : String} {errors : List ListingError} :
    readListing source = .error errors ↔
      errors ≠ [] ∧ (Reader.start.takeAll (LineShape.ofSource source)).2 = errors := by
  obtain ⟨_, hperm⟩ := Reader.takeAll_eq_run .start (LineShape.ofSource source)
  unfold readListing
  rw [directivesOf_eq]
  dsimp only
  rw [hperm.isEmpty_eq, mergeSort_eq_of_perm hperm (pairwise_takeAll_ofSource source)]
  split_ifs with hempty
  · have hnil := List.isEmpty_iff.mp hempty
    exact iff_of_false (by simp) fun ⟨hne, herrors⟩ => hne (herrors.symm.trans hnil)
  · rw [Except.error.injEq, iff_and_self]
    rintro rfl hnil
    exact hempty (List.isEmpty_iff.mpr hnil)

/-- The errors of a listing stand in the order of their places, and each points at the text of the
source that it is about. Types are cut out of the source, too. -/
theorem errors_point_into_source {source : String} {errors : List ListingError}
    (h : readListing source = .error errors) :
    errors ≠ [] ∧ errors.Pairwise (fun e f => e.span.start < f.span.start) ∧
      (∀ e ∈ errors, ∃ l ∈ SourceLine.ofSource source, ∃ text,
        e.PointsAt source l text ∧ e.span.Shows source text) ∧
      ∀ d ∈ (directivesOf source).1, ∀ type ∈ d.type?, ∃ l ∈ SourceLine.ofSource source,
        ∃ first more, l.words.drop 3 = first :: more ∧
          (Span.across first more).Shows source type := by
  obtain ⟨hne, rfl⟩ := readListing_eq_error_iff.mp h
  refine ⟨hne, pairwise_takeAll_ofSource source, fun e he => ?_,
    fun d hd type htype => exists_shows_type hd htype⟩
  have he : e ∈ ((Reader.behind []).takeAll (LineShape.ofSource source)).2 := he
  obtain ⟨s, hs, _, htake⟩ := Reader.exists_of_mem_takeAll he
  obtain ⟨l, hl, rfl⟩ := List.mem_map.mp hs
  exact ⟨l, hl, Reader.pointsAt_of_take hl htake⟩

/-- Letters of several bytes, blanks of several characters, and a line that ends in a comment. -/
def wideLetters : String := "var ä 0 int\nmethod m ()V\nvar 0 0 int\nvar 0 \t 0 int\ninherit // é"

theorem errors_point_into_wideLetters :
    readListing wideLetters = .error [.invalidNumber ⟨"ä", ⟨4, 6⟩⟩,
        .duplicateVariable ⟨0, 0⟩ ⟨38, 47⟩, .missingArgument .parentName ⟨65, 65⟩] ∧
      ∃ l ∈ SourceLine.ofSource wideLetters, ∃ text,
        (ListingError.duplicateVariable ⟨0, 0⟩ ⟨38, 47⟩).PointsAt wideLetters l text ∧
          (⟨38, 47⟩ : Span).Shows wideLetters text :=
  have herrors : readListing wideLetters = .error [.invalidNumber ⟨"ä", ⟨4, 6⟩⟩,
      .duplicateVariable ⟨0, 0⟩ ⟨38, 47⟩, .missingArgument .parentName ⟨65, 65⟩] :=
    readListing_eq_error_iff.mpr ⟨by simp, by decide +kernel⟩
  ⟨herrors, (errors_point_into_source herrors).2.2.1 _ (by simp)⟩

end LocalNames
