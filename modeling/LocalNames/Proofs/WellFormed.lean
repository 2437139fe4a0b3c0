import LocalNames.Proofs.LineShapes
import LocalNames.Proofs.Reports
import Mathlib.Data.List.Nodup

/-! Listings that can be written down. What is read from any source is one of them: its names are
single words, its types fit a line, and the reader checks the rest. -/

namespace LocalNames

/-! ### Well-formed listings -/

/-- A text that is read as one word. -/
structure IsWord (s : String) : Prop where
  run : Text.IsRun s.toList
  opens : Text.opensComment s.toList = false

/-- A text that is read as a type. -/
structure IsType (s : String) : Prop where
  phrase : Text.IsPhrase s.toList
  lineFeed : '\n' ∉ s.toList
  opens : ∀ w ∈ Text.words s.toList, Text.opensComment w.toList = false

structure ParameterRequest.WellFormed (p : ParameterRequest) : Prop where
  name : IsWord p.name
  type : IsType p.type

/-- What a method is by itself. -/
structure Method.WellFormed (m : Method) : Prop where
  name : IsWord m.name
  descriptor : IsWord m.descriptor
  readable : ∃ d, MethodDescriptor.read m.descriptor = .ok d
  parent : ∀ parent ∈ m.parent, IsWord parent
  vars : (m.vars.map (·.1)).Nodup
  types : ∀ v ∈ m.vars, IsType v.2
  parameters : ∀ p ∈ m.parameters, p.WellFormed

structure WellFormed (ms : List Method) : Prop where
  each : ∀ m ∈ ms, m.WellFormed
  names : (ms.map (·.name)).Nodup
  parents : ∀ before m after, ms = before ++ m :: after →
    ∀ parent ∈ m.parent, ∃ n ∈ before, n.name = parent

theorem Method.declares_eq_false_iff {m : Method} {v : VarId} :
    m.declares v = false ↔ v ∉ m.vars.map (·.1) := by
  simp only [declares, List.any_eq_false, beq_iff_eq, List.mem_map, not_exists, not_and]

theorem WellFormed.nil : WellFormed [] where
  each := by simp
  names := List.nodup_nil
  parents := by simp

theorem wellFormed_snoc {ms : List Method} {m : Method} : WellFormed (ms ++ [m]) ↔
    WellFormed ms ∧ m.WellFormed ∧ m.name ∉ ms.map (·.name) ∧
      ∀ parent ∈ m.parent, ∃ n ∈ ms, n.name = parent := by
  constructor
  · intro h
    have hnames := h.names
    rw [List.map_append, List.nodup_append] at hnames
    refine ⟨⟨fun n hn => h.each n (List.mem_append_left _ hn), hnames.1,
      fun before n after he => ?_⟩, h.each m (by simp),
      fun hm => hnames.2.2 _ hm _ (by simp) rfl, h.parents ms m [] rfl⟩
    exact h.parents before n (after ++ [m]) (by simp [he])
  · rintro ⟨hms, hm, hname, hparent⟩
    refine ⟨by simpa [or_imp, forall_and] using ⟨hms.each, hm⟩, ?_, fun before n after he => ?_⟩
    · rw [List.map_append, List.nodup_append]
      refine ⟨hms.names, List.nodup_singleton _, fun a ha b hb => ?_⟩
      obtain rfl := List.mem_singleton.mp hb
      rintro rfl
      exact hname ha
    · rcases List.eq_nil_or_concat after with rfl | ⟨after, k, rfl⟩
      · obtain ⟨rfl, hn⟩ := List.append_inj' he rfl
        obtain rfl := List.singleton_inj.mp hn
        exact hparent
      · rw [List.concat_eq_append, ← List.cons_append, ← List.append_assoc] at he
        obtain ⟨rfl, _⟩ := List.append_inj' he rfl
        exact hms.parents before n after rfl

/-! ### What a line says -/

/-- What a method may take over from a directive is fit to be written again. -/
def Directive.Clean : Directive → Prop
  | method name descriptor _ => IsWord name.value ∧ IsWord descriptor.value
  | inherit _ parent => IsWord parent.value
  | var _ _ _ type => IsType type
  | param _ _ name type => IsWord name.value ∧ IsType type
  | unknown _ | rejected _ => True

namespace SourceLine

variable {source : String} {l : SourceLine}

theorem isWord_of_mem_words {w : Word} (hw : w ∈ l.words) : IsWord w.value := by
  obtain ⟨_, _, _, hrun, _⟩ := Text.exists_of_mem_wordsFrom ((List.takeWhile_sublist _).subset hw)
  exact ⟨hrun, by simpa using List.mem_takeWhile_imp hw⟩

/-- The type of a line is cut out of the source as it stands in the line. -/
theorem typeText_eq (hl : l ∈ ofSource source) {pre type post : List Char}
    (hchars : l.chars = pre ++ type ++ post) (hphrase : Text.IsPhrase type) {first : Word}
    {more : List Word} (htype : Text.wordsFrom (l.place + Text.size pre) type = first :: more) :
    Directive.typeText source.toList first more = String.ofList type := by
  obtain ⟨before, after, hsource, _, hplace, _⟩ := exists_of_mem hl
  have hsource : source.toList = before ++ pre ++ type ++ (post ++ after) := by
    rw [hsource, hchars]
    simp
  rw [Directive.typeText, Text.through_of_isPhrase hphrase htype, hsource, hplace,
    ← Text.size_append, Span.slice_append]

theorem isType_typeText (hl : l ∈ ofSource source) (before : List Word) {first : Word}
    {more : List Word} (h : l.words = before ++ first :: more) :
    IsType (Directive.typeText source.toList first more) := by
  have hwords : l.words = before ++ first :: more ++ [] := by rw [h, List.append_nil]
  obtain ⟨pre, type, post, hchars, hphrase, htype⟩ := exists_phrase hwords
  obtain ⟨_, _, _, hline, _⟩ := exists_of_mem hl
  rw [typeText_eq hl hchars hphrase htype]
  refine ⟨by simpa using hphrase, fun hm => hline ?_, fun w hw => ?_⟩
  · rw [String.toList_ofList] at hm
    simp [hchars, hm]
  · rw [String.toList_ofList, ← Text.map_value_wordsFrom (l.place + Text.size pre), htype] at hw
    obtain ⟨v, hv, rfl⟩ := List.mem_map.mp hw
    exact (isWord_of_mem_words (l := l) (by rw [h]; exact List.mem_append_right _ hv)).opens

theorem clean_of_directive? (hl : l ∈ ofSource source) {d : Directive}
    (h : (LineShape.ofLine source.toList l).directive? = some d) : d.Clean := by
  have hspelt := LineShape.spelt_ofWords source.toList l.stop l.words
  rw [LineShape.ofLine] at h
  generalize hwords : l.words = ws at h hspelt
  have hword {w : Word} (hw : w ∈ ws) : IsWord w.value :=
    isWord_of_mem_words (l := l) (hwords ▸ hw)
  generalize LineShape.ofWords source.toList l.stop ws = s at h hspelt
  cases hspelt <;> cases h
  case unknown | short => trivial
  case method => exact ⟨hword (by simp), hword (by simp)⟩
  case inherit => exact hword (by simp)
  case var => exact isType_typeText hl [_, _, _] hwords
  case param => exact ⟨hword (by simp), isType_typeText hl [_, _, _] hwords⟩

end SourceLine

/-! ### What is read -/

namespace Reader

theorem declares_eq_false_iff {ms : List Method} {name : String} :
    declares ms name = false ↔ name ∉ ms.map (·.name) := by
  simp [declares, List.any_eq_false]

theorem declares_eq_true_iff {ms : List Method} {name : String} :
    declares ms name = true ↔ ∃ m ∈ ms, m.name = name := by
  simp [declares]

/-- A variable is added only where it has not been declared. -/
theorem Amends.nodup_vars {earlier : List Method} {d : Directive} {m n : Method}
    (h : Amends earlier d m n) (hm : (m.vars.map (·.1)).Nodup) : (n.vars.map (·.1)).Nodup := by
  cases h with
  | parent _ _ => exact hm
  | var _ _ hdeclared =>
    rw [List.map_append, List.nodup_append]
    refine ⟨hm, List.nodup_singleton _, fun a ha b hb => ?_⟩
    obtain rfl := List.mem_singleton.mp hb
    rintro rfl
    exact Method.declares_eq_false_iff.mp hdeclared ha
  | parameter _ => exact hm

theorem Amends.wellFormed {earlier : List Method} {d : Directive} {m n : Method}
    (h : Amends earlier d m n) (hd : d.Clean) (hm : WellFormed (earlier ++ [m])) :
    WellFormed (earlier ++ [n]) := by
  obtain ⟨hearlier, hm, hname, hparent⟩ := wellFormed_snoc.mp hm
  have hnodup := h.nodup_vars hm.vars
  cases h with
  | parent hdeclared _ =>
    refine wellFormed_snoc.mpr ⟨hearlier, { hm with parent := ?_ }, hname, ?_⟩
    · rintro _ ⟨⟩
      exact hd
    · rintro _ ⟨⟩
      exact declares_eq_true_iff.mp hdeclared
  | var _ _ _ =>
    refine wellFormed_snoc.mpr
      ⟨hearlier, { hm with vars := hnodup, types := ?_ }, hname, hparent⟩
    exact List.forall_mem_append.mpr ⟨hm.types, List.forall_mem_singleton.mpr hd⟩
  | @parameter _ _ _ name type _ _ =>
    refine wellFormed_snoc.mpr ⟨hearlier, { hm with parameters := ?_ }, hname, hparent⟩
    exact List.forall_mem_append.mpr
      ⟨hm.parameters, List.forall_mem_singleton.mpr ⟨hd.1, hd.2⟩⟩

/-- The reader keeps only well-formed methods. -/
theorem wellFormed_step {r : Reader} {d : Directive} (hd : d.Clean) (hr : WellFormed r.methods) :
    WellFormed (r.step d).1.methods := by
  have ho := outcome_step r d
  generalize (r.step d).1 = next at ho ⊢
  generalize (r.step d).2 = error? at ho
  cases ho with
  | opened h =>
    obtain ⟨hname, hdescriptor, access, _, rfl⟩ := readMethod_eq_ok_iff.mp h
    rw [methods_method, wellFormed_snoc]
    refine ⟨hr, ⟨hd.1, hd.2, hdescriptor, by simp [Method.headed], List.nodup_nil, ?_, ?_⟩,
      declares_eq_false_iff.mp hname, by simp [Method.headed]⟩
    · simp [Method.headed]
    · simp [Method.headed]
  | rejected _ => rwa [methods_rejected]
  | dropped => rwa [methods_rejected]
  | amended _ hb ha =>
    rw [methods_of_block hb] at hr
    exact ha.wellFormed hd hr
  | silent _ _ => exact hr
  | faulty _ => exact hr

theorem wellFormed_run {r : Reader} {ds : List Directive} (hds : ∀ d ∈ ds, d.Clean)
    (hr : WellFormed r.methods) : WellFormed (r.run ds).1.methods := by
  induction ds generalizing r with
  | nil => exact hr
  | cons d ds ih =>
    obtain ⟨hd, hds⟩ := List.forall_mem_cons.mp hds
    exact ih hds (wellFormed_step hd hr)

end Reader

theorem Directive.clean_of_mem {source : String} {d : Directive}
    (h : d ∈ (directivesOf source).1) : d.Clean := by
  rw [directivesOf_eq] at h
  obtain ⟨s, hs, hd⟩ := List.mem_filterMap.mp h
  obtain ⟨l, hl, rfl⟩ := List.mem_map.mp hs
  exact SourceLine.clean_of_directive? hl hd

theorem readListing_eq_ok_iff {source : String} {ms : List Method} :
    readListing source = .ok ms ↔ (directivesOf source).2 = [] ∧
      (Reader.start.run (directivesOf source).1).2 = [] ∧
      (Reader.start.run (directivesOf source).1).1.methods = ms := by
  unfold readListing
  dsimp only
  rw [← and_assoc, ← List.append_eq_nil_iff]
  split_ifs with hempty
  · rw [Except.ok.injEq, and_iff_right (List.isEmpty_iff.mp hempty)]
  · exact iff_of_false (by simp) fun h => hempty (List.isEmpty_iff.mpr h.1)

/-- What is read can be written. -/
theorem wellFormed_of_readListing {source : String} {ms : List Method}
    (h : readListing source = .ok ms) : WellFormed ms := by
  obtain ⟨_, _, rfl⟩ := readListing_eq_ok_iff.mp h
  exact Reader.wellFormed_run (fun d => Directive.clean_of_mem) .nil

end LocalNames
