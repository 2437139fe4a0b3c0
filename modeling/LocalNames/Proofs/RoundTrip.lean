import LocalNames.Listing.Render
import LocalNames.Proofs.Unplaced
import LocalNames.Proofs.WellFormed

/-! Reading undoes writing. Each line that a well-formed method is written in is read as one
directive, and in turn these directives build up the method again. -/

namespace LocalNames

/-! ### Written words -/

namespace Text

theorem isBlank_of_isDigit {c : Char} (h : c.isDigit = true) : isBlank c = false := by
  have hrange : 48 ≤ c.toNat ∧ c.toNat ≤ 57 := by
    simpa [Char.isDigit, UInt32.le_iff_toNat_le] using h
  simp only [isBlank, CharClass.contains, whiteSpace, inRanges, Bool.and_eq_false_iff,
    Bool.or_eq_false_iff, decide_eq_false_iff_not]
  omega

end Text

theorem IsWord.of_forall {s : String} (hne : s.toList ≠ [])
    (h : ∀ c ∈ s.toList, Text.isBlank c = false ∧ c ≠ '/') : IsWord s where
  run := ⟨hne, fun c hc => (h c hc).1⟩
  opens := by
    obtain ⟨c, cs, hs⟩ := List.exists_cons_of_ne_nil hne
    have hc := (h c (by simp [hs])).2
    simp [Text.opensComment, hs, List.isPrefixOf, hc.symm]

theorem IsWord.lineFeed {s : String} (h : IsWord s) : '\n' ∉ s.toList :=
  fun hm => absurd (h.run.not_blank _ hm) (by simp [Text.isBlank_lineFeed])

theorem IsWord.number (n : UInt32) : IsWord (toString n) := by
  have hs : (toString n).toList = Nat.toDigits 10 n.toNat := Nat.toList_repr
  refine .of_forall (by simp [hs, Nat.toDigits_ne_nil]) fun c hc => ?_
  rw [hs] at hc
  have hd := Nat.isDigit_of_mem_toDigits (by decide) (by decide) hc
  refine ⟨Text.isBlank_of_isDigit hd, ?_⟩
  rintro rfl
  cases hd

/-- Fixed words are checked by computation. -/
theorem IsWord.of_all {s : String} (hne : s.toList.isEmpty = false)
    (h : (s.toList.all fun c => !Text.isBlank c && c != '/') = true) : IsWord s :=
  .of_forall (by simpa using hne) (by simpa using h)

theorem IsWord.keyword (k : Keyword) : IsWord k.text := by
  cases k <;> exact .of_all rfl rfl

theorem IsWord.modifier (m : Modifier) : IsWord m.keyword := by
  cases m <;> exact .of_all rfl rfl

theorem isWord_of_mem_keywords (access : Access) :
    ∀ w ∈ access.modifiers.map (·.keyword), IsWord w :=
  List.forall_mem_map.mpr fun m _ => .modifier m

namespace Text

/-- Words with a space behind each. -/
def lead (ws : List String) : List Char := ws.flatMap (·.toList ++ [' '])

theorem startsBlank_cons {c : Char} (cs : List Char) (h : isBlank c = true) :
    StartsBlank (c :: cs) := by
  rintro d ⟨⟩
  exact h

theorem wordsFrom_lead {ws : List String} (h : ∀ w ∈ ws, IsWord w) (place : Nat)
    (rest : List Char) : ∃ vs : List Word, vs.map (·.value) = ws ∧
      wordsFrom place (lead ws ++ rest) = vs ++ wordsFrom (place + size (lead ws)) rest := by
  induction ws generalizing place with
  | nil => exact ⟨[], rfl, rfl⟩
  | cons w ws ih =>
    obtain ⟨hw, hws⟩ := List.forall_mem_cons.mp h
    have hsize : ' '.utf8Size = 1 := rfl
    have hline : lead (w :: ws) ++ rest = w.toList ++ ' ' :: (lead ws ++ rest) := by
      simp [lead]
    obtain ⟨vs, hvs, hrest⟩ := ih hws (place + size w.toList + 1)
    refine ⟨⟨w, ⟨place, place + size w.toList⟩⟩ :: vs, by rw [List.map_cons, hvs], ?_⟩
    rw [hline, wordsFrom_append _ hw.run (startsBlank_cons _ rfl), wordsFrom_blank _ _ rfl, hsize,
      hrest, String.ofList_toList]
    simp [lead, hsize, Nat.add_assoc]

theorem words_intercalate {ws : List String} (h : ∀ w ∈ ws, IsWord w) :
    words (" ".intercalate ws).toList = ws := by
  induction ws with
  | nil => simp
  | cons w ws ih =>
    obtain ⟨hw, hws⟩ := List.forall_mem_cons.mp h
    cases ws with
    | nil => rw [String.intercalate_singleton, words_of_isRun hw.run, String.ofList_toList]
    | cons v ws =>
      have hspace : " ".toList = [' '] := rfl
      rw [String.intercalate_cons_cons, String.toList_append, String.toList_append, hspace,
        List.append_assoc, List.singleton_append, words_append hw.run (startsBlank_cons _ rfl),
        words_blank _ rfl, ih hws, String.ofList_toList]

theorem lineFeed_not_mem_intercalate {ws : List String} (h : ∀ w ∈ ws, '\n' ∉ w.toList) :
    '\n' ∉ (" ".intercalate ws).toList := by
  induction ws with
  | nil => simp
  | cons w ws ih =>
    obtain ⟨hw, hws⟩ := List.forall_mem_cons.mp h
    cases ws with
    | nil => simpa using hw
    | cons v ws => simpa [String.intercalate_cons_cons, hw] using ih hws

end Text

/-! ### Written lines -/

theorem map_eq_pair {vs : List Word} {x y : String} (h : vs.map (·.value) = [x, y]) :
    ∃ v w, vs = [v, w] ∧ v.value = x ∧ w.value = y := by
  obtain ⟨v, vs, rfl, hv, h⟩ := List.map_eq_cons_iff.mp h
  obtain ⟨w, vs, rfl, hw, h⟩ := List.map_eq_cons_iff.mp h
  obtain rfl := List.map_eq_nil_iff.mp h
  exact ⟨v, w, rfl, hv, hw⟩

/-- What is written of a method on a line of its own. -/
inductive Entry
  | head (name descriptor : String) (access : Access)
  | parent (name : String)
  | var (v : VarId) (type : String)
  | parameter (p : ParameterRequest)

namespace Entry

def keyword : Entry → Keyword
  | head _ _ _ => .method
  | parent _ => .inherit
  | var _ _ => .var
  | parameter _ => .param

/-- The words between the keyword and the last part of a line. -/
def middle : Entry → List String
  | head name descriptor _ => [name, descriptor]
  | parent _ => []
  | var v _ => [toString v.slot, toString v.version]
  | parameter p => [toString p.slot, p.name]

/-- The words in front of the last part of a line. -/
def front (e : Entry) : List String := e.keyword.text :: e.middle

def last : Entry → String
  | head _ _ access => access.text
  | parent name => name
  | var _ type => type
  | parameter p => p.type

def line (e : Entry) : List Char := Text.lead e.front ++ e.last.toList

def directive : Entry → Directive
  | head name descriptor access =>
    .method (bare name) (bare descriptor) (access.modifiers.map (bare ·.keyword))
  | parent name => .inherit (.marker 0) (bare name)
  | var v type => .var (.marker 0) (bare (toString v.slot)) (bare (toString v.version)) type
  | parameter p => .param (.marker 0) (bare (toString p.slot)) (bare p.name) p.type

def WellFormed : Entry → Prop
  | head name descriptor _ => IsWord name ∧ IsWord descriptor
  | parent name => IsWord name
  | var _ type => IsType type
  | parameter p => p.WellFormed

def text (e : Entry) : String := " ".intercalate (e.front ++ [e.last]) ++ "\n"

theorem text_toList (e : Entry) : e.text.toList = e.line ++ ['\n'] := by
  cases e <;> simp [text, line, front, middle, keyword, last, Text.lead]

variable {e : Entry}

theorem isWord_of_mem_front (h : e.WellFormed) : ∀ w ∈ e.front, IsWord w := by
  refine List.forall_mem_cons.mpr ⟨.keyword e.keyword, ?_⟩
  cases e with
  | head name descriptor _ => simpa [middle] using ⟨h.1, h.2⟩
  | parent _ => exact List.forall_mem_nil _
  | var v _ => simpa [middle] using ⟨.number v.slot, .number v.version⟩
  | parameter p => simpa [middle] using ⟨.number p.slot, h.name⟩

theorem words_head (access : Access) :
    Text.words access.text.toList = access.modifiers.map (·.keyword) :=
  Text.words_intercalate (isWord_of_mem_keywords access)

theorem words_parent {name : String} (h : IsWord name) : Text.words name.toList = [name] := by
  rw [Text.words_of_isRun h.run, String.ofList_toList]

theorem opens_last (h : e.WellFormed) :
    ∀ w ∈ Text.words e.last.toList, Text.opensComment w.toList = false := by
  cases e with
  | head _ _ access =>
    rw [last, words_head]
    exact fun w hw => (isWord_of_mem_keywords access w hw).opens
  | parent name =>
    rw [last, words_parent h]
    exact List.forall_mem_singleton.mpr h.opens
  | var _ type => exact h.opens
  | parameter p => exact h.type.opens

/-- The words of a line that is written. -/
theorem exists_words (h : e.WellFormed) {l : SourceLine} (hl : l.chars = e.line) :
    ∃ vs : List Word, vs.map (·.value) = e.front ∧
      l.words = vs ++ Text.wordsFrom (l.place + Text.size (Text.lead e.front)) e.last.toList := by
  obtain ⟨vs, hvs, hwords⟩ := Text.wordsFrom_lead (isWord_of_mem_front h) l.place e.last.toList
  refine ⟨vs, hvs, ?_⟩
  rw [SourceLine.words, hl, line, hwords, List.takeWhile_eq_self_iff]
  intro w hw
  rcases List.mem_append.mp hw with hw | hw
  · have hfront : w.value ∈ e.front := hvs ▸ List.mem_map_of_mem hw
    simp [(isWord_of_mem_front h _ hfront).opens]
  · have hlast := List.mem_map_of_mem (f := (·.value)) hw
    rw [Text.map_value_wordsFrom] at hlast
    simp [opens_last h _ hlast]

theorem ofLine_eq (h : e.WellFormed) (source : List Char) {l : SourceLine}
    (hl : l.chars = e.line) : ∃ head vs, vs.map (·.value) = e.middle ∧
      LineShape.ofLine source l = .ofArguments source l.stop head e.keyword
        (vs ++ Text.wordsFrom (l.place + Text.size (Text.lead e.front)) e.last.toList) := by
  obtain ⟨vs, hvs, hwords⟩ := exists_words h hl
  obtain ⟨k, vs, rfl, hk, hvs⟩ := List.map_eq_cons_iff.mp hvs
  refine ⟨k.span, vs, hvs, ?_⟩
  rw [LineShape.ofLine, hwords, List.cons_append]
  simp only [LineShape.ofWords, hk, Keyword.ofText?_text]

theorem typeText_eq {source : String} {l : SourceLine} (hl : l ∈ SourceLine.ofSource source)
    (hline : l.chars = e.line) (htype : IsType e.last) : ∃ first more,
      Text.wordsFrom (l.place + Text.size (Text.lead e.front)) e.last.toList = first :: more ∧
      Directive.typeText source.toList first more = e.last := by
  obtain ⟨first, more, hwords⟩ := Text.exists_cons_of_isPhrase
    (l.place + Text.size (Text.lead e.front)) htype.phrase
  have hchars : l.chars = Text.lead e.front ++ e.last.toList ++ [] := by
    rw [hline, line, List.append_nil]
  refine ⟨first, more, hwords, ?_⟩
  rw [SourceLine.typeText_eq hl hchars htype.phrase hwords, String.ofList_toList]

/-- A line that is written is read as its directive. -/
theorem exists_whole (h : e.WellFormed) {source : String} {l : SourceLine}
    (hl : l ∈ SourceLine.ofSource source) (hline : l.chars = e.line) :
    ∃ d, LineShape.ofLine source.toList l = .whole d ∧ d.unplaced = e.directive := by
  obtain ⟨head, vs, hvs, hshape⟩ := ofLine_eq h source.toList hline
  rw [hshape]
  cases e with
  | head name descriptor access =>
    obtain ⟨n, d, rfl, hn, hd⟩ := map_eq_pair hvs
    have hflags : ∀ place, (Text.wordsFrom place access.text.toList).map (bare ·.value) =
        access.modifiers.map (bare ·.keyword) := fun place => by
      have hwords := (Text.map_value_wordsFrom place _).trans (words_head access)
      have hbare := congrArg (List.map bare) hwords
      rwa [List.map_map, List.map_map] at hbare
    rw [List.cons_append, List.cons_append, List.nil_append]
    refine ⟨_, rfl, ?_⟩
    simp only [last, Directive.unplaced, hflags, hn, hd, directive]
  | parent name =>
    obtain rfl := List.map_eq_nil_iff.mp hvs
    obtain ⟨w, hw, hname⟩ := List.map_eq_singleton_iff.mp
      ((Text.map_value_wordsFrom _ _).trans (words_parent h))
    rw [last, List.nil_append, hw]
    refine ⟨_, rfl, ?_⟩
    simp only [Directive.unplaced, hname, directive]
  | var _ type =>
    obtain ⟨s, v, rfl, hs, hv⟩ := map_eq_pair hvs
    obtain ⟨first, more, hwords, htype⟩ := typeText_eq hl hline h
    rw [hwords]
    refine ⟨_, rfl, ?_⟩
    simp only [Directive.unplaced, htype, hs, hv, directive, last]
  | parameter p =>
    obtain ⟨s, n, rfl, hs, hn⟩ := map_eq_pair hvs
    obtain ⟨first, more, hwords, htype⟩ := typeText_eq hl hline h.type
    rw [hwords]
    refine ⟨_, rfl, ?_⟩
    simp only [Directive.unplaced, htype, hs, hn, directive, last]

theorem lineFeed (h : e.WellFormed) : '\n' ∉ e.line := by
  have hfront : '\n' ∉ Text.lead e.front := by
    simpa [Text.lead] using fun w hw => (isWord_of_mem_front h w hw).lineFeed
  have hlast : '\n' ∉ e.last.toList := by
    cases e with
    | head _ _ access =>
      exact Text.lineFeed_not_mem_intercalate fun w hw =>
        (isWord_of_mem_keywords access w hw).lineFeed
    | parent name => exact IsWord.lineFeed h
    | var _ type => exact IsType.lineFeed h
    | parameter p => exact h.type.lineFeed
  simp [line, hfront, hlast]

end Entry

/-! ### Written listings -/

namespace Method

/-- The lines of a method. -/
def entries (m : Method) : List Entry :=
  .head m.name m.descriptor m.access :: (m.parent.toList.map .parent ++
    m.vars.map (fun v => .var v.1 v.2) ++ m.parameters.map .parameter)

theorem render_eq (m : Method) : m.render = String.join (m.entries.map (·.text)) := by
  have hparent : m.renderParent =
      String.join ((m.parent.toList.map Entry.parent).map (·.text)) := by
    cases hp : m.parent with
    | none => simp [renderParent, hp]
    | some parent =>
      simp [renderParent, hp, Entry.text, Entry.front, Entry.keyword, Entry.middle, Entry.last,
        Keyword.text, String.intercalate_cons_cons]
  have hvars : m.vars.map renderVariable =
      (m.vars.map fun v => Entry.var v.1 v.2).map (·.text) := by
    rw [List.map_map]
    rfl
  have hparameters : m.parameters.map (·.render) =
      (m.parameters.map Entry.parameter).map (·.text) := by
    rw [List.map_map]
    rfl
  have hhead : m.renderHead = (Entry.head m.name m.descriptor m.access).text := rfl
  rw [render, hhead, hparent, hvars, hparameters, entries, List.map_cons, List.map_append,
    List.map_append]
  simp [String.append_assoc]

theorem wellFormed_entries {m : Method} (h : m.WellFormed) : ∀ e ∈ m.entries, e.WellFormed := by
  refine List.forall_mem_cons.mpr ⟨⟨h.name, h.descriptor⟩, ?_⟩
  intro e he
  rcases List.mem_append.mp he with he | he
  · rcases List.mem_append.mp he with he | he
    · obtain ⟨parent, hp, rfl⟩ := List.mem_map.mp he
      exact h.parent parent (Option.mem_toList.mp hp)
    · obtain ⟨v, hv, rfl⟩ := List.mem_map.mp he
      exact h.types v hv
  · obtain ⟨p, hp, rfl⟩ := List.mem_map.mp he
    exact h.parameters p hp

end Method

theorem splitOn_lines {lines : List (List Char)} (h : ∀ l ∈ lines, '\n' ∉ l) :
    (lines.flatMap (· ++ ['\n'])).splitOn '\n' = lines ++ [[]] := by
  have htext : lines.flatMap (· ++ ['\n']) = ['\n'].intercalate (lines ++ [[]]) := by
    induction lines with
    | nil => rfl
    | cons l lines ih =>
      rw [List.flatMap_cons, ih (List.forall_mem_cons.mp h).2, List.cons_append,
        List.intercalate_cons_of_ne_nil (by simp)]
  rw [htext, List.splitOn_intercalate _ _ (by simp)]
  simpa [or_imp, forall_and] using h

/-- The lines of a text of written lines are these and an empty one. -/
theorem ofSource_join {es : List Entry} (h : ∀ e ∈ es, e.WellFormed) :
    (SourceLine.ofSource (String.join (es.map (·.text)))).map (·.chars) =
      es.map (·.line) ++ [[]] := by
  have htext : (String.join (es.map (·.text))).toList =
      (es.map (·.line)).flatMap (· ++ ['\n']) := by
    simp [List.flatMap_map, Entry.text_toList]
  have hlines : ∀ l ∈ es.map (·.line), '\n' ∉ l := by
    simpa using fun e he => Entry.lineFeed (h e he)
  rw [SourceLine.ofSource, SourceLine.map_chars_ofPieces, htext, splitOn_lines hlines]

theorem exists_directives {source : String} {es : List Entry} (h : ∀ e ∈ es, e.WellFormed)
    {ls : List SourceLine} (hls : ∀ l ∈ ls, l ∈ SourceLine.ofSource source)
    (hchars : ls.map (·.chars) = es.map (·.line) ++ [[]]) :
    ∃ ds : List Directive, ls.map (LineShape.ofLine source.toList) = ds.map .whole ++ [.empty] ∧
      ds.map (·.unplaced) = es.map (·.directive) := by
  induction es generalizing ls with
  | nil =>
    obtain ⟨l, rfl, hl⟩ := List.map_eq_singleton_iff.mp hchars
    have hempty : LineShape.ofLine source.toList l = .empty := by
      rw [LineShape.ofLine, SourceLine.words, hl, Text.wordsFrom_nil]
      rfl
    exact ⟨[], by rw [List.map_singleton, hempty]; rfl, rfl⟩
  | cons e es ih =>
    obtain ⟨he, hes⟩ := List.forall_mem_cons.mp h
    obtain ⟨l, ls, rfl, hl, hchars⟩ := List.map_eq_cons_iff.mp hchars
    obtain ⟨hl', hls⟩ := List.forall_mem_cons.mp hls
    obtain ⟨d, hd, hunplaced⟩ := Entry.exists_whole he hl' hl
    obtain ⟨ds, hds, hunplaceds⟩ := ih hes hls hchars
    exact ⟨d :: ds, by rw [List.map_cons, hd, hds]; rfl, by
      rw [List.map_cons, List.map_cons, hunplaced, hunplaceds]⟩

/-- A text of written lines is read as the directives of the lines. -/
theorem directivesOf_join {es : List Entry} (h : ∀ e ∈ es, e.WellFormed) :
    (directivesOf (String.join (es.map (·.text)))).1.map (·.unplaced) = es.map (·.directive) ∧
      (directivesOf (String.join (es.map (·.text)))).2 = [] := by
  obtain ⟨ds, hds, hunplaced⟩ := exists_directives h (fun _ hl => hl) (ofSource_join h)
  rw [directivesOf_eq, LineShape.ofSource, hds]
  refine ⟨?_, ?_⟩
  · simpa [LineShape.directive?, List.filterMap_map, Function.comp_def] using hunplaced
  · simp [LineShape.fault?]

/-! ### Reading what is written -/

namespace Reader

theorem readFlags_modifiers (a : Access) :
    readFlags (a.modifiers.map (bare ·.keyword)) = .ok a := by
  cases h : readFlags (a.modifiers.map (bare ·.keyword)) with
  | error e =>
    obtain ⟨flag, hflag, _⟩ := readFlags_eq_error_iff.mp h
    obtain ⟨hmem, hbad⟩ := hflag.mem
    obtain ⟨m, _, rfl⟩ := List.mem_map.mp hmem
    exact absurd rfl (hbad m)
  | ok access =>
    rw [readFlags_eq_ok h]
    congr 1
    ext m
    rw [Bool.eq_iff_iff, List.any_eq_true, ← Access.mem_modifiers]
    constructor
    · rintro ⟨flag, hmem, hm⟩
      obtain ⟨n, hn, rfl⟩ := List.mem_map.mp hmem
      rwa [← Modifier.keyword_inj.mp (eq_of_beq hm)]
    · intro hm
      exact ⟨bare m.keyword, List.mem_map_of_mem hm, by simp⟩

variable {r : Reader}

theorem run_vars {m : Method} {vs : List (VarId × String)} (hb : r.block = .method m)
    (h : ((m.vars ++ vs).map (·.1)).Nodup) :
    r.run (vs.map fun v => (Entry.var v.1 v.2).directive) =
      (⟨r.earlier, .method { m with vars := m.vars ++ vs }⟩, []) := by
  induction vs generalizing r m with
  | nil => simp [run, ← hb]
  | cons v vs ih =>
    have hnew : m.declares v.1 = false := by
      rw [Method.declares_eq_false_iff]
      rw [List.map_append, List.nodup_append] at h
      exact fun hm => h.2.2 _ hm _ List.mem_cons_self rfl
    have hadds : Amends r.earlier (Entry.var v.1 v.2).directive m
        { m with vars := m.vars ++ [(v.1, v.2)] } :=
      .var (Text.word32?_toString _) (Text.word32?_toString _) hnew
    rw [List.map_cons, run_cons, step_of_amends hb hadds, ih rfl (by simpa using h)]
    simp

theorem run_parameters {m : Method} (ps : List ParameterRequest) (hb : r.block = .method m) :
    r.run (ps.map fun p => (Entry.parameter p).directive) =
      (⟨r.earlier, .method { m with parameters := m.parameters ++ ps }⟩, []) := by
  induction ps generalizing r m with
  | nil => simp [run, ← hb]
  | cons p ps ih =>
    have hadds : Amends r.earlier (Entry.parameter p).directive m
        { m with parameters := m.parameters ++ [p] } :=
      .parameter (Text.word32?_toString _)
    rw [List.map_cons, run_cons, step_of_amends hb hadds, ih rfl]
    simp

theorem run_parent {m : Method} {parent : Option String} (hb : r.block = .method m)
    (hnone : m.parent = none) (h : ∀ p ∈ parent, declares r.earlier p = true) :
    r.run (parent.toList.map fun p => (Entry.parent p).directive) =
      (⟨r.earlier, .method { m with parent := parent }⟩, []) := by
  cases parent with
  | none =>
    have hm : { m with parent := none } = m := by rw [← hnone]
    rw [hm, ← hb]
    rfl
  | some p =>
    have hadds : Amends r.earlier (Entry.parent p).directive m { m with parent := some p } :=
      .parent (h p rfl) hnone
    rw [Option.toList_some, List.map_singleton, run_cons, step_of_amends hb hadds]
    rfl

/-- The lines of a method make the reader read it. -/
theorem run_entries {m : Method} (h : WellFormed (r.methods ++ [m])) :
    r.run (m.entries.map (·.directive)) = (⟨r.methods, .method m⟩, []) := by
  obtain ⟨_, hm, hname, hparent⟩ := wellFormed_snoc.mp h
  have hhead : r.step (Entry.head m.name m.descriptor m.access).directive =
      (⟨r.methods, .method (.headed m.name m.descriptor m.access)⟩, none) := by
    have hnew : declares r.methods (bare m.name).value = false :=
      declares_eq_false_iff.mpr hname
    exact step_of_readMethod <| readMethod_eq_ok_iff.mpr
      ⟨hnew, hm.readable, m.access, readFlags_modifiers m.access, rfl⟩
  have hdeclared : ∀ p ∈ m.parent, declares r.methods p = true :=
    fun p hp => declares_eq_true_iff.mpr (hparent p hp)
  have hparents := run_parent (r := ⟨r.methods, .method (.headed m.name m.descriptor m.access)⟩)
    rfl rfl hdeclared
  have hvars := run_append_of_silent hparents
    (run_vars rfl (by simpa [Method.headed] using hm.vars))
  have hrest := run_append_of_silent hvars (run_parameters m.parameters rfl)
  rw [Method.entries, List.map_cons, run_cons, hhead, List.map_append, List.map_append,
    List.map_map, List.map_map, List.map_map]
  simp only [Function.comp_def, hrest]
  simp [Method.headed]

/-- The lines of a listing make the reader read it. -/
theorem run_listing {ms : List Method} (h : WellFormed ms) :
    (start.run ((ms.flatMap (·.entries)).map (·.directive))).1.methods = ms ∧
      (start.run ((ms.flatMap (·.entries)).map (·.directive))).2 = [] := by
  induction ms using List.reverseRecOn with
  | nil => exact ⟨rfl, rfl⟩
  | append_singleton ms m ih =>
    obtain ⟨hmethods, hnil⟩ := ih (wellFormed_snoc.mp h).1
    rw [List.flatMap_append, List.flatMap_singleton, List.map_append, run_append_fst,
      run_append_snd, hnil, run_entries (by rwa [hmethods]), hmethods]
    exact ⟨rfl, rfl⟩

end Reader

theorem renderListing_eq (ms : List Method) :
    renderListing ms = String.join ((ms.flatMap (·.entries)).map (·.text)) := by
  apply String.toList_inj.mp
  simp [renderListing, Method.render_eq, List.map_flatMap, List.flatMap_assoc,
    List.flatMap_map]

theorem readListing_render {ms : List Method} (h : WellFormed ms) :
    readListing (renderListing ms) = .ok ms := by
  have hentries : ∀ e ∈ ms.flatMap (·.entries), e.WellFormed := by
    intro e he
    obtain ⟨m, hm, he⟩ := List.mem_flatMap.mp he
    exact Method.wellFormed_entries (h.each m hm) e he
  obtain ⟨hdirectives, hfaults⟩ := directivesOf_join hentries
  rw [← renderListing_eq] at hdirectives hfaults
  obtain ⟨hlast, hnil⟩ := Reader.run_unplaced .start (directivesOf (renderListing ms)).1
  rw [hdirectives] at hlast hnil
  obtain ⟨hmethods, herrors⟩ := Reader.run_listing h
  exact readListing_eq_ok_iff.mpr ⟨hfaults, hnil.mp herrors, by rw [← hlast, hmethods]⟩

/-- The listings that can be read are those that are read back when they are written. -/
theorem readListing_renderListing_iff (ms : List Method) :
    (readListing (renderListing ms) = .ok ms ↔ WellFormed ms) ∧
      ((∃ source, readListing source = .ok ms) ↔ WellFormed ms) :=
  ⟨⟨wellFormed_of_readListing, readListing_render⟩,
    ⟨fun ⟨_, h⟩ => wellFormed_of_readListing h, fun h => ⟨_, readListing_render h⟩⟩⟩

end LocalNames
