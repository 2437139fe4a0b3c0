import LocalNames.Proofs.ReaderSteps
import Mathlib.Data.List.Induction
import Mathlib.Data.List.TakeWhile

/-! What is read, block by block. A block is a `method` directive with the directives up to the
next one; its method holds what the directives say of which nothing is reported. -/

namespace LocalNames

namespace Directive

def inherited? : Directive → Option String
  | inherit _ parent => some parent.value
  | _ => none

def declared? : Directive → Option (VarId × String)
  | var _ slot version type =>
    (Text.word32? slot.value).bind fun s =>
      (Text.word32? version.value).map fun v => (⟨s, v⟩, type)
  | _ => none

def requested? : Directive → Option ParameterRequest
  | param _ slot name type => (Text.word32? slot.value).map (⟨·, name.value, type⟩)
  | _ => none

end Directive

namespace Reader

/-! ### What stands before a directive -/

/-- The reader behind directives. -/
def behind (ds : List Directive) : Reader := (start.run ds).1

/-- What is reported of a directive that follows others. -/
def report (before : List Directive) (d : Directive) : Option ListingError :=
  ((behind before).step d).2

/-- What is reported of directives that follow others. -/
def reports (before : List Directive) : List Directive → List ListingError
  | [] => []
  | d :: ds => (report before d).toList ++ reports (before ++ [d]) ds

/-- Of directives that follow others, those of which nothing is reported. -/
def unreported (before : List Directive) : List Directive → List Directive
  | [] => []
  | d :: ds => (if report before d = none then [d] else []) ++ unreported (before ++ [d]) ds

/-- Among the directives a method of that name has been accepted. -/
def Accepts (ds : List Directive) (name : String) : Prop :=
  ∃ before word descriptor flags more, ds = before ++ .method word descriptor flags :: more ∧
    word.value = name ∧ report before (.method word descriptor flags) = none

/-- The directives end in the block of a method that has been accepted behind `outer`; `inside`
are those of the block. -/
def InMethod (outer : List Directive) (name : Word) (inside ds : List Directive) : Prop :=
  ∃ descriptor flags, ds = outer ++ .method name descriptor flags :: inside ∧
    report outer (.method name descriptor flags) = none ∧ ∀ d ∈ inside, startsMethod d = false

/-- The method that a `method` directive heads and other directives add to. -/
def assemble (name descriptor : Word) (flags : List Word) (own : List Directive) : Method where
  name := name.value
  access := ⟨fun m => flags.any (·.value == m.keyword)⟩
  descriptor := descriptor.value
  parent := own.findSome? (·.inherited?)
  vars := own.filterMap (·.declared?)
  parameters := own.filterMap (·.requested?)

/-- The method of the block that `head` opens behind `outer`, if it is accepted. -/
def methodOf? (outer : List Directive) (head : Directive) (inside : List Directive) :
    Option Method :=
  match head with
  | .method name descriptor flags =>
    if report outer head = none then
      some (assemble name descriptor flags (unreported (outer ++ [head]) inside))
    else none
  | _ => none

/-- A `method` directive that is accepted behind `outer`. -/
def Opens (outer : List Directive) (head : Directive) : Prop :=
  ∃ name descriptor flags, head = .method name descriptor flags ∧ report outer head = none

/-- The methods of the blocks of directives that follow others. -/
def methodsOf (before : List Directive) : List Directive → List Method
  | [] => []
  | d :: ds => (methodOf? before d (ds.takeWhile (!startsMethod ·))).toList ++
      methodsOf (before ++ [d]) ds

/-! ### Behind one more directive -/

theorem behind_snoc (ds : List Directive) (d : Directive) :
    behind (ds ++ [d]) = ((behind ds).step d).1 :=
  run_append_fst start ds [d]

theorem outcome_behind (ds : List Directive) (d : Directive) :
    Outcome (behind ds) d (behind (ds ++ [d])) (report ds d) := by
  rw [behind_snoc]
  exact outcome_step _ d

theorem run_behind_snd (before ds : List Directive) :
    ((behind before).run ds).2 = reports before ds := by
  induction ds generalizing before with
  | nil => rfl
  | cons d ds ih => rw [run_cons, ← behind_snoc, ih]; rfl

theorem unreported_append (before ds es : List Directive) :
    unreported before (ds ++ es) = unreported before ds ++ unreported (before ++ ds) es := by
  induction ds generalizing before with
  | nil => rw [List.append_nil]; rfl
  | cons d ds ih =>
    rw [List.cons_append, unreported, unreported, ih, List.append_assoc, List.append_assoc,
      List.singleton_append]

theorem unreported_snoc (before ds : List Directive) (d : Directive) :
    unreported before (ds ++ [d]) =
      unreported before ds ++ if report (before ++ ds) d = none then [d] else [] := by
  rw [unreported_append, unreported, unreported, List.append_nil]

theorem mem_unreported {before ds : List Directive} {d : Directive}
    (h : d ∈ unreported before ds) :
    ∃ pre post, ds = pre ++ d :: post ∧ report (before ++ pre) d = none := by
  induction ds generalizing before with
  | nil => cases h
  | cons e ds ih =>
    rw [unreported, List.mem_append] at h
    rcases h with h | h
    · split_ifs at h with hr
      · obtain rfl := List.mem_singleton.mp h
        exact ⟨[], ds, rfl, by rwa [List.append_nil]⟩
      · cases h
    · obtain ⟨pre, post, rfl, hr⟩ := ih h
      exact ⟨e :: pre, post, rfl, by rwa [List.append_cons]⟩

theorem accepts_snoc {ds : List Directive} {d : Directive} {name : String} :
    Accepts (ds ++ [d]) name ↔ Accepts ds name ∨ ∃ word descriptor flags,
      d = .method word descriptor flags ∧ word.value = name ∧ report ds d = none := by
  constructor
  · rintro ⟨before, word, descriptor, flags, more, hds, hname, hreport⟩
    rcases List.eq_nil_or_concat more with rfl | ⟨more, e, rfl⟩
    · obtain ⟨rfl, he⟩ := List.append_inj' hds rfl
      obtain rfl := List.singleton_inj.mp he
      exact .inr ⟨word, descriptor, flags, rfl, hname, hreport⟩
    · rw [List.concat_eq_append, ← List.cons_append, ← List.append_assoc] at hds
      obtain ⟨rfl, _⟩ := List.append_inj' hds rfl
      exact .inl ⟨before, word, descriptor, flags, more, rfl, hname, hreport⟩
  · rintro (⟨before, word, descriptor, flags, more, rfl, hname, hreport⟩ |
      ⟨word, descriptor, flags, rfl, hname, hreport⟩)
    · exact ⟨before, word, descriptor, flags, more ++ [d], by simp, hname, hreport⟩
    · exact ⟨ds, word, descriptor, flags, [], rfl, hname, hreport⟩

theorem accepts_snoc_of_not_starts {ds : List Directive} {d : Directive}
    (hd : startsMethod d = false) {name : String} : Accepts (ds ++ [d]) name ↔ Accepts ds name := by
  rw [accepts_snoc, or_iff_left]
  rintro ⟨_, _, _, rfl, _⟩
  cases hd

theorem declares_snoc (ms : List Method) (m : Method) (name : String) :
    declares (ms ++ [m]) name = true ↔ declares ms name = true ∨ m.name = name := by
  simp [declares]

/-- The methods that have been read are those that have been accepted. -/
theorem declares_behind (ds : List Directive) (name : String) :
    declares (behind ds).methods name = true ↔ Accepts ds name := by
  induction ds using List.reverseRecOn with
  | nil => simp [behind, run, start, declares, Accepts]
  | append_singleton ds d ih =>
    have ho := outcome_behind ds d
    generalize behind (ds ++ [d]) = next at ho
    generalize hreport : report ds d = fault at ho
    cases ho with
    | opened h =>
      obtain ⟨_, _, access, _, rfl⟩ := readMethod_eq_ok_iff.mp h
      rw [methods_method, declares_snoc, accepts_snoc, ih]
      simp [hreport, Method.headed]
    | rejected hd =>
      rw [methods_rejected, accepts_snoc, ih]
      simp [hreport]
    | dropped =>
      rw [methods_rejected, accepts_snoc, ih]
      simp
    | amended hd hb ha =>
      rw [accepts_snoc_of_not_starts hd, ← ih, methods_of_block hb, methods_method, declares_snoc,
        declares_snoc, ha.head_eq.1]
    | silent hd hb => rw [accepts_snoc_of_not_starts hd, ih]
    | faulty hd => rw [accepts_snoc_of_not_starts hd, ih]

/-! ### Behind a block -/

/-- Outside of a method nothing changes up to the next `method` directive. -/
theorem behind_append_of_not_method {ds inside : List Directive}
    (hb : ∀ m, (behind ds).block ≠ .method m) (h : ∀ d ∈ inside, startsMethod d = false) :
    behind (ds ++ inside) = behind ds := by
  induction inside using List.reverseRecOn with
  | nil => rw [List.append_nil]
  | append_singleton inside d ih =>
    obtain ⟨hinside, hd⟩ := List.forall_mem_append.mp h
    have ho := outcome_behind (ds ++ inside) d
    rw [ih hinside, List.append_assoc] at ho
    exact ho.eq_of_not_method (hd d List.mem_cons_self) hb

theorem behind_of_outside {ds : List Directive} (h : ∀ d ∈ ds, startsMethod d = false) :
    behind ds = start := by
  have hstart : ∀ m, (behind []).block ≠ .method m := fun _ he => by cases he
  exact behind_append_of_not_method hstart h

theorem readFlags_eq_ok {flags : List Word} {access : Access} (h : readFlags flags = .ok access) :
    access = ⟨fun m => flags.any (·.value == m.keyword)⟩ := by
  induction flags generalizing access with
  | nil => cases h; rfl
  | cons flag flags ih =>
    rw [readFlags] at h
    split at h
    · cases h
    · next m hm =>
      cases hf : readFlags flags with
      | error e => rw [hf] at h; cases h
      | ok rest =>
        rw [hf] at h
        cases h
        rw [ih hf]
        ext n
        show (n == m || flags.any (·.value == n.keyword)) =
          (flag.value == n.keyword || flags.any (·.value == n.keyword))
        rw [← Modifier.keyword_of_ofKeyword? hm, Bool.beq_eq_decide_eq, Bool.beq_eq_decide_eq]
        simp only [Modifier.keyword_inj, eq_comm]

/-- The method that a block starts with. -/
theorem behind_of_accepted {outer : List Directive} {name descriptor : Word} {flags : List Word}
    (h : report outer (.method name descriptor flags) = none) :
    behind (outer ++ [.method name descriptor flags]) =
      ⟨(behind outer).methods, .method (assemble name descriptor flags [])⟩ := by
  have ho := outcome_behind outer (.method name descriptor flags)
  rw [h] at ho
  generalize behind (outer ++ [.method name descriptor flags]) = next at ho
  cases ho with
  | opened h =>
    obtain ⟨_, _, access, hflags, rfl⟩ := readMethod_eq_ok_iff.mp h
    rw [readFlags_eq_ok hflags]
    rfl
  | amended hd _ _ => cases hd
  | silent hd _ => cases hd

theorem behind_of_rejected {outer inside : List Directive} {head : Directive}
    (hhead : startsMethod head = true) (h : ¬Opens outer head)
    (hinside : ∀ d ∈ inside, startsMethod d = false) :
    behind (outer ++ head :: inside) = ⟨(behind outer).methods, .rejected⟩ := by
  have hstart : behind (outer ++ [head]) = ⟨(behind outer).methods, .rejected⟩ := by
    have ho := outcome_behind outer head
    generalize behind (outer ++ [head]) = next at ho
    generalize hreport : report outer head = fault at ho
    cases ho with
    | opened _ => exact absurd ⟨_, _, _, rfl, hreport⟩ h
    | rejected _ => rfl
    | dropped => rfl
    | amended hd _ _ => simp [hhead] at hd
    | silent hd _ => simp [hhead] at hd
    | faulty hd => simp [hhead] at hd
  have hblock : ∀ m, (behind (outer ++ [head])).block ≠ .method m := by
    intro m hm
    rw [hstart] at hm
    cases hm
  rw [List.append_cons, behind_append_of_not_method hblock hinside, hstart]

theorem Amends.eq_assemble {earlier : List Method} {d : Directive} {name descriptor : Word}
    {flags : List Word} {own : List Directive} {n : Method}
    (h : Amends earlier d (assemble name descriptor flags own) n) :
    n = assemble name descriptor flags (own ++ [d]) := by
  rw [assemble, List.findSome?_append, List.filterMap_append, List.filterMap_append]
  cases h with
  | parent _ hnone =>
    have hnone : own.findSome? (·.inherited?) = none := hnone
    rw [hnone]
    exact (congrArg₂ (Method.mk _ _ _ _) (List.append_nil _) (List.append_nil _)).symm
  | @var _ head slot version type v hs hv _ =>
    have hvar : [Directive.var head slot version type].filterMap (·.declared?) = [(v, type)] := by
      simp [Directive.declared?, hs, hv]
    rw [hvar]
    exact (congrArg₂ (Method.mk _ _ _ · _ ·) (Option.or_none) (List.append_nil _)).symm
  | @parameter _ head slot name type n hn =>
    have hparam : [Directive.param head slot name type].filterMap (·.requested?) =
        [⟨n, name.value, type⟩] := by
      simp [Directive.requested?, hn]
    rw [hparam]
    exact (congrArg₂ (Method.mk _ _ _ · · _) (Option.or_none) (List.append_nil _)).symm

/-- A rejected directive adds nothing. -/
theorem assemble_rejected (name descriptor : Word) (flags : List Word) (own : List Directive)
    (k : Keyword) :
    assemble name descriptor flags (own ++ [.rejected k]) = assemble name descriptor flags own := by
  simp [assemble, List.findSome?_append, Directive.inherited?, Directive.declared?,
    Directive.requested?]

/-- The method of a block holds what the directives of the block say, unless they are reported. -/
theorem behind_block {outer inside : List Directive} {name descriptor : Word} {flags : List Word}
    (h : report outer (.method name descriptor flags) = none)
    (hinside : ∀ d ∈ inside, startsMethod d = false) :
    behind (outer ++ .method name descriptor flags :: inside) = ⟨(behind outer).methods,
      .method (assemble name descriptor flags
        (unreported (outer ++ [.method name descriptor flags]) inside))⟩ := by
  induction inside using List.reverseRecOn with
  | nil => exact behind_of_accepted h
  | append_singleton inside d ih =>
    obtain ⟨hinside, hd⟩ := List.forall_mem_append.mp hinside
    have hd : startsMethod d = false := hd d List.mem_cons_self
    have ho := outcome_behind (outer ++ .method name descriptor flags :: inside) d
    rw [ih hinside, List.append_assoc, List.cons_append] at ho
    rw [unreported_snoc, List.append_assoc, List.singleton_append]
    generalize behind (outer ++ .method name descriptor flags :: (inside ++ [d])) = next at ho
    generalize report (outer ++ .method name descriptor flags :: inside) d = fault at ho
    cases ho with
    | opened _ => cases hd
    | rejected hd' => simp [hd] at hd'
    | dropped => cases hd
    | amended _ hb ha =>
      obtain rfl := Block.method.inj hb
      rw [if_pos rfl, ha.eq_assemble]
    | silent _ hb =>
      obtain ⟨k, rfl⟩ : ∃ k, d = .rejected k := hb.resolve_left (by simp)
      rw [if_pos rfl, assemble_rejected]
    | faulty _ => simp

/-! ### Blocks -/

/-- Directives stand outside of all blocks, or end in the block of their last `method` one. -/
theorem exists_block (ds : List Directive) :
    (∀ d ∈ ds, startsMethod d = false) ∨ ∃ outer head inside, ds = outer ++ head :: inside ∧
      startsMethod head = true ∧ ∀ d ∈ inside, startsMethod d = false := by
  induction ds using List.reverseRecOn with
  | nil => exact .inl (by simp)
  | append_singleton ds d ih =>
    cases hd : startsMethod d with
    | true => exact .inr ⟨ds, d, [], rfl, hd, by simp⟩
    | false =>
      rcases ih with h | ⟨outer, head, inside, rfl, hhead, h⟩
      · exact .inl (by simpa [or_imp, forall_and, hd] using h)
      · exact .inr ⟨outer, head, inside ++ [d], by simp, hhead,
          by simpa [or_imp, forall_and, hd] using h⟩

theorem methodsOf_of_outside {ds : List Directive} (h : ∀ d ∈ ds, startsMethod d = false)
    (before : List Directive) : methodsOf before ds = [] := by
  induction ds generalizing before with
  | nil => rfl
  | cons d ds ih =>
    obtain ⟨hd, hds⟩ := List.forall_mem_cons.mp h
    rw [methodsOf, ih hds, List.append_nil]
    cases d <;> first | rfl | cases hd

theorem methodsOf_append_block {head : Directive} {inside : List Directive}
    (hhead : startsMethod head = true) (h : ∀ d ∈ inside, startsMethod d = false)
    (before outer : List Directive) : methodsOf before (outer ++ head :: inside) =
      methodsOf before outer ++ (methodOf? (before ++ outer) head inside).toList := by
  induction outer generalizing before with
  | nil =>
    have hall : inside.takeWhile (!startsMethod ·) = inside :=
      List.takeWhile_eq_self_iff.mpr (by simpa using h)
    rw [List.nil_append, methodsOf, methodsOf, hall, methodsOf_of_outside h, List.append_nil,
      List.append_nil, List.nil_append]
  | cons d outer ih =>
    have hstop : (outer ++ head :: inside).takeWhile (!startsMethod ·) =
        outer.takeWhile (!startsMethod ·) := by
      rw [List.takeWhile_append]
      split_ifs with hlen
      · rw [List.takeWhile_cons_of_neg (by simp [hhead]), List.append_nil]
        exact ((List.takeWhile_prefix _).eq_of_length hlen).symm
      · rfl
    rw [List.cons_append, methodsOf, methodsOf, hstop, ih, List.append_assoc, List.append_assoc,
      List.singleton_append]

theorem methodOf?_of_not_opens {outer : List Directive} {head : Directive}
    (h : ¬Opens outer head) (inside : List Directive) : methodOf? outer head inside = none := by
  cases head with
  | method name descriptor flags => exact if_neg fun hreport => h ⟨_, _, _, rfl, hreport⟩
  | _ => rfl

/-- All methods that have been read. -/
theorem methods_behind (ds : List Directive) : (behind ds).methods = methodsOf [] ds := by
  induction hn : ds.length using Nat.strongRecOn generalizing ds with
  | ind n ih =>
    rcases exists_block ds with h | ⟨outer, head, inside, rfl, hhead, h⟩
    · rw [behind_of_outside h, methodsOf_of_outside h]
      rfl
    · have ihouter : (behind outer).methods = methodsOf [] outer :=
        ih outer.length (by simp [← hn]) outer rfl
      rw [methodsOf_append_block hhead h, List.nil_append, ← ihouter]
      by_cases hopens : Opens outer head
      · obtain ⟨name, descriptor, flags, rfl, hreport⟩ := hopens
        rw [behind_block hreport h, methods_method, methodOf?, if_pos hreport]
        rfl
      · rw [behind_of_rejected hhead hopens h, methods_rejected, methodOf?_of_not_opens hopens]
        exact (List.append_nil _).symm

/-! ### What a block declares -/

theorem report_eq_some_iff {before : List Directive} {d : Directive} {e : ListingError} :
    report before d = some e ↔ (behind before).extend d = .error e :=
  step_eq_some_iff

theorem declares_assemble {name descriptor : Word} {flags : List Word} {own : List Directive}
    {v : VarId} : (assemble name descriptor flags own).declares v = true ↔
      ∃ d ∈ own, ∃ type, d.declared? = some (v, type) := by
  simp only [assemble, Method.declares, List.any_eq_true, List.mem_filterMap, beq_iff_eq]
  constructor
  · rintro ⟨⟨w, type⟩, ⟨d, hd, h⟩, rfl⟩
    exact ⟨d, hd, type, h⟩
  · rintro ⟨d, hd, type, h⟩
    exact ⟨(v, type), ⟨d, hd, h⟩, rfl⟩

theorem isSome_parent_assemble {name descriptor : Word} {flags : List Word}
    {own : List Directive} : (assemble name descriptor flags own).parent.isSome = true ↔
      ∃ d ∈ own, ∃ parent, d.inherited? = some parent := by
  rw [assemble, List.findSome?_isSome_iff]
  simp only [Option.isSome_iff_exists]

theorem declared?_eq_some {d : Directive} {v : VarId} {type : String}
    (h : d.declared? = some (v, type)) : ∃ head slot version, d = .var head slot version type ∧
      Text.word32? slot.value = some v.slot ∧ Text.word32? version.value = some v.version := by
  cases d with
  | var head slot version type =>
    obtain ⟨s, hs, h⟩ := Option.bind_eq_some_iff.mp h
    obtain ⟨n, hn, h⟩ := Option.map_eq_some_iff.mp h
    cases h
    exact ⟨head, slot, version, rfl, hs, hn⟩
  | _ => cases h

theorem inherited?_eq_some {d : Directive} {parent : String} (h : d.inherited? = some parent) :
    ∃ head word, d = .inherit head word ∧ word.value = parent := by
  cases d with
  | inherit head word =>
    cases h
    exact ⟨head, word, rfl, rfl⟩
  | _ => cases h

section Block

variable {outer inside : List Directive} {name descriptor : Word} {flags : List Word}

/-- Within a block a change is checked on what the block has added up to. -/
theorem amend_block_eq_error_iff (h : report outer (.method name descriptor flags) = none)
    (hinside : ∀ d ∈ inside, startsMethod d = false) {keyword : Keyword} {head : Span}
    {change : Method → Except ListingError Method} {e : ListingError} :
    (behind (outer ++ [.method name descriptor flags] ++ inside)).amend keyword head change =
        .error e ↔
      change (assemble name descriptor flags
        (unreported (outer ++ [.method name descriptor flags]) inside)) = .error e := by
  rw [amend_eq_error_iff, ← List.append_cons, behind_block h hinside]
  simp

/-- A variable is declared in a block by all directives that name it, reported or not. -/
theorem declared_block (h : report outer (.method name descriptor flags) = none)
    (hinside : ∀ d ∈ inside, startsMethod d = false) (v : VarId) :
    (∃ d ∈ unreported (outer ++ [.method name descriptor flags]) inside,
      ∃ type, d.declared? = some (v, type)) ↔
        ∃ d ∈ inside, ∃ type, d.declared? = some (v, type) := by
  constructor
  · rintro ⟨d, hd, hv⟩
    obtain ⟨pre, post, rfl, _⟩ := mem_unreported hd
    exact ⟨d, List.mem_append_right _ List.mem_cons_self, hv⟩
  · rintro ⟨d, hd, type, hv⟩
    obtain ⟨pre, post, rfl⟩ := List.append_of_mem hd
    obtain ⟨head, slot, version, rfl, hslot, hversion⟩ := declared?_eq_some hv
    rw [unreported_append, unreported]
    cases hr : report (outer ++ [.method name descriptor flags] ++ pre)
        (.var head slot version type) with
    | none => exact ⟨_, by simp, type, hv⟩
    | some e =>
      -- a reported variable is one that has been declared before
      rw [report_eq_some_iff, extend_var _ hslot hversion,
        amend_block_eq_error_iff h (List.forall_mem_append.mp hinside).1] at hr
      obtain ⟨d, hd, hv⟩ := declares_assemble.mp (addVariable_eq_error_iff.mp hr).1
      exact ⟨d, List.mem_append_left _ hd, hv⟩

/-- A block has a parent if one of its directives names an earlier method. -/
theorem inherited_block (h : report outer (.method name descriptor flags) = none)
    (hinside : ∀ d ∈ inside, startsMethod d = false) :
    (∃ d ∈ unreported (outer ++ [.method name descriptor flags]) inside,
      ∃ parent, d.inherited? = some parent) ↔
        ∃ d ∈ inside, ∃ parent, d.inherited? = some parent ∧ Accepts outer parent := by
  constructor
  · rintro ⟨d, hd, parent, hp⟩
    obtain ⟨pre, post, rfl, hr⟩ := mem_unreported hd
    obtain ⟨head, word, rfl, rfl⟩ := inherited?_eq_some hp
    refine ⟨_, List.mem_append_right _ List.mem_cons_self, word.value, hp, ?_⟩
    by_contra hnot
    have hdeclares : declares (behind outer).methods word.value = false :=
      Bool.eq_false_iff.mpr fun hd => hnot ((declares_behind outer _).mp hd)
    have hfault : report (outer ++ [.method name descriptor flags] ++ pre) (.inherit head word) =
        some (.unknownParent word) := by
      rw [report_eq_some_iff, extend,
        amend_block_eq_error_iff h (List.forall_mem_append.mp hinside).1]
      refine addParent_eq_error_iff.mpr (.inl ⟨?_, rfl⟩)
      rwa [← List.append_cons, behind_block h (List.forall_mem_append.mp hinside).1]
    rw [hr] at hfault
    cases hfault
  · rintro ⟨d, hd, parent, hp, haccepts⟩
    obtain ⟨pre, post, rfl⟩ := List.append_of_mem hd
    obtain ⟨head, word, rfl, rfl⟩ := inherited?_eq_some hp
    rw [unreported_append, unreported]
    cases hr : report (outer ++ [.method name descriptor flags] ++ pre) (.inherit head word) with
    | none => exact ⟨_, by simp, word.value, hp⟩
    | some e =>
      -- an earlier method is reported only as a second parent
      rw [report_eq_some_iff, extend,
        amend_block_eq_error_iff h (List.forall_mem_append.mp hinside).1] at hr
      rcases addParent_eq_error_iff.mp hr with ⟨hd, _⟩ | ⟨_, hsome, _⟩
      · rw [← List.append_cons, behind_block h (List.forall_mem_append.mp hinside).1,
          (declares_behind outer _).mpr haccepts] at hd
        cases hd
      · obtain ⟨d, hd, hp⟩ := isSome_parent_assemble.mp hsome
        exact ⟨d, List.mem_append_left _ hd, hp⟩

end Block

/-- What the checks of a directive look at in the method of its block. -/
structure HoldsBlock (outer : List Directive) (name : Word) (inside : List Directive)
    (m : Method) : Prop where
  name : m.name = name.value
  declares : ∀ v, m.declares v = true ↔ ∃ d ∈ inside, ∃ type, d.declared? = some (v, type)
  parent : m.parent.isSome = true ↔
    ∃ d ∈ inside, ∃ parent, d.inherited? = some parent ∧ Accepts outer parent

theorem behind_of_inMethod {outer inside ds : List Directive} {name : Word}
    (h : InMethod outer name inside ds) :
    ∃ m, behind ds = ⟨(behind outer).methods, .method m⟩ ∧ HoldsBlock outer name inside m := by
  obtain ⟨descriptor, flags, rfl, hr, hinside⟩ := h
  refine ⟨_, behind_block hr hinside, rfl, fun v => ?_, ?_⟩
  · rw [declares_assemble, declared_block hr hinside]
  · rw [isSome_parent_assemble, inherited_block hr hinside]

theorem block_cases (ds : List Directive) :
    ((∀ d ∈ ds, startsMethod d = false) ∧ (behind ds).block = .outside) ∨
      ((∃ d ∈ ds, startsMethod d = true) ∧ (behind ds).block = .rejected) ∨
      ((∃ d ∈ ds, startsMethod d = true) ∧ ∃ outer name inside, InMethod outer name inside ds) := by
  rcases exists_block ds with h | ⟨outer, head, inside, rfl, hhead, h⟩
  · exact .inl ⟨h, by rw [behind_of_outside h]; rfl⟩
  · have hmem : ∃ d ∈ outer ++ head :: inside, startsMethod d = true := ⟨head, by simp, hhead⟩
    by_cases hopens : Opens outer head
    · obtain ⟨name, descriptor, flags, rfl, hr⟩ := hopens
      exact .inr (.inr ⟨hmem, outer, name, inside, descriptor, flags, rfl, hr, h⟩)
    · exact .inr (.inl ⟨hmem, by rw [behind_of_rejected hhead hopens h]⟩)

theorem block_eq_outside_iff {ds : List Directive} :
    (behind ds).block = .outside ↔ ∀ d ∈ ds, startsMethod d = false := by
  rcases block_cases ds with ⟨h, hb⟩ | ⟨⟨d, hd, hs⟩, hb⟩ | ⟨⟨d, hd, hs⟩, outer, name, inside, hin⟩
  · exact iff_of_true hb h
  · exact iff_of_false (by simp [hb]) fun h => by simp [h d hd] at hs
  · obtain ⟨m, hm, _⟩ := behind_of_inMethod hin
    exact iff_of_false (by simp [hm]) fun h => by simp [h d hd] at hs

theorem exists_inMethod {ds : List Directive} {m : Method} (hb : (behind ds).block = .method m) :
    ∃ outer name inside, InMethod outer name inside ds := by
  rcases block_cases ds with ⟨_, h⟩ | ⟨_, h⟩ | ⟨_, h⟩
  · rw [hb] at h; cases h
  · rw [hb] at h; cases h
  · exact h

end Reader

end LocalNames
