import LocalNames.Proofs.Agreement
import LocalNames.Proofs.PlainLines
import LocalNames.Proofs.WholeBlocks

/-! The order of lines in a block. A listing says the same when the lines of its blocks are put in
another order in which the `param` lines keep theirs, and when lines without words come or go: the
same methods are read but for the order of their variables, and they are named alike. -/

namespace LocalNames

/-! ### Lines in another order -/

/-- The lines of a block in another order, in which its `param` lines keep theirs. Lines without
words may come and go. -/
structure Reordered (ls ls' : List (List Char)) : Prop where
  perm : (ls.filter (Text.firstWord? · |>.isSome)).Perm (ls'.filter (Text.firstWord? · |>.isSome))
  params : ls.filter (Text.firstWord? · = some "param") =
    ls'.filter (Text.firstWord? · = some "param")

/-- Listings with the same `method` lines, whose blocks are each reordered. The lines before the
first `method` line are taken for a block, too. -/
inductive SameBlocks : List (List Char) → List (List Char) → Prop
  | last {ls ls' : List (List Char)} :
      (∀ line ∈ ls, Text.firstWord? line ≠ some "method") → Reordered ls ls' → SameBlocks ls ls'
  | block {ls ls' rest rest' : List (List Char)} {head : List Char} :
      (∀ line ∈ ls, Text.firstWord? line ≠ some "method") → Reordered ls ls' →
      Text.firstWord? head = some "method" → SameBlocks rest rest' →
      SameBlocks (ls ++ head :: rest) (ls' ++ head :: rest')

theorem filterMap_eq_of_filter {α β : Type} {f : α → Option β} {p : α → Bool} {as : List α}
    (h : ∀ a ∈ as, p a = false → f a = none) : as.filterMap f = (as.filter p).filterMap f := by
  rw [List.filterMap_filter]
  refine List.filterMap_congr fun a ha => ?_
  cases hp : p a with
  | true => rfl
  | false => exact h a ha hp

/-- A shapely line that starts no block. -/
theorem plain_of_said? {line : List Char} (hshapely : Shapely line)
    (hmethod : Text.firstWord? line ≠ some "method") {d : Directive} (hd : said? line = some d) :
    Reader.Plain d := by
  obtain ⟨hrejected, hkeyword⟩ := keyword_of_said? hshapely hd
  refine ⟨?_, hrejected⟩
  cases d with
  | method _ _ _ => exact absurd (hkeyword .method rfl) hmethod
  | rejected k => exact absurd rfl (hrejected k)
  | _ => rfl

/-- A shapely line that requests a parameter begins with its keyword. -/
theorem firstWord?_of_requested? {line : List Char} (hshapely : Shapely line) {d : Directive}
    (hd : said? line = some d) {p : ParameterRequest} (hp : d.requested? = some p) :
    Text.firstWord? line = some "param" := by
  obtain ⟨_, _, _, rfl, _⟩ := Reader.requested?_eq_some hp
  exact (keyword_of_said? hshapely hd).2 .param rfl

namespace Reordered

variable {ls ls' : List (List Char)}

theorem mem_of_mem (h : Reordered ls ls') {line : List Char} (hline : line ∈ ls')
    (hword : Text.firstWord? line ≠ none) : line ∈ ls := by
  have hmem : line ∈ ls'.filter (Text.firstWord? · |>.isSome) :=
    List.mem_filter.mpr ⟨hline, Option.isSome_iff_ne_none.mpr hword⟩
  exact (List.mem_filter.mp (h.perm.mem_iff.mpr hmem)).1

theorem shapely (h : Reordered ls ls') (hls : ∀ line ∈ ls, Shapely line) :
    ∀ line ∈ ls', Shapely line := by
  intro line hline
  by_cases hword : Text.firstWord? line = none
  · exact shapely_of_firstWord?_eq_none hword
  · exact hls line (h.mem_of_mem hline hword)

theorem filterMap_said? (ls : List (List Char)) :
    ls.filterMap said? = (ls.filter (Text.firstWord? · |>.isSome)).filterMap said? :=
  filterMap_eq_of_filter fun _ _ hnone =>
    said?_of_firstWord?_eq_none (by simpa using hnone)

theorem perm_said? (h : Reordered ls ls') : (ls.filterMap said?).Perm (ls'.filterMap said?) := by
  rw [filterMap_said? ls, filterMap_said? ls']
  exact h.perm.filterMap _

theorem filterMap_requested? (hls : ∀ line ∈ ls, Shapely line) :
    (ls.filterMap said?).filterMap (·.requested?) =
      (ls.filter (Text.firstWord? · = some "param")).filterMap
        fun line => (said? line).bind (·.requested?) := by
  rw [List.filterMap_filterMap]
  refine filterMap_eq_of_filter fun line hline hparam => ?_
  rw [Option.eq_none_iff_forall_ne_some]
  intro p hp
  obtain ⟨d, hd, hp⟩ := Option.bind_eq_some_iff.mp hp
  simp [firstWord?_of_requested? (hls line hline) hd hp] at hparam

theorem requested?_eq (h : Reordered ls ls') (hls : ∀ line ∈ ls, Shapely line) :
    (ls.filterMap said?).filterMap (·.requested?) =
      (ls'.filterMap said?).filterMap (·.requested?) := by
  rw [filterMap_requested? hls, filterMap_requested? (h.shapely hls), h.params]

end Reordered

/-! ### Reading in another order -/

namespace Reader

theorem declares_eq_of_alike {ms ns : List Method} (h : List.Forall₂ Method.Alike ms ns)
    (name : String) : declares ns name = declares ms name := by
  induction h with
  | nil => rfl
  | cons hm _ ih =>
    unfold declares at ih ⊢
    rw [List.any_cons, List.any_cons, hm.name, ih]

/-- Two readers at the beginning of a block, or before all blocks. -/
structure Alike (r r' : Reader) : Prop where
  earlier : List.Forall₂ Method.Alike r.earlier r'.earlier
  block : r.block = r'.block
  opened : r.block = .outside ∨ ∃ m, r.block = .method m ∧ (m.vars.map (·.1)).Nodup

variable {r r' : Reader}

/-- A block whose directives come in another order is read without a fault, too. -/
theorem Alike.run (h : r.Alike r') {ds ds' : List Directive} (hds : ∀ d ∈ ds, Plain d)
    (hperm : ds.Perm ds')
    (hrequests : ds.filterMap (·.requested?) = ds'.filterMap (·.requested?))
    (hok : (r.run ds).2 = []) : (r'.run ds').2 = [] ∧
      List.Forall₂ Method.Alike (r.run ds).1.methods (r'.run ds').1.methods := by
  obtain ⟨hearlier, hblock, hopened⟩ := h
  -- Outside of methods there is nothing to be put in another order.
  rcases hopened with hb | ⟨m, hb, hm⟩
  · obtain rfl := eq_nil_of_run_outside hb hds hok
    obtain rfl := hperm.nil_eq
    refine ⟨rfl, ?_⟩
    show List.Forall₂ Method.Alike r.methods r'.methods
    rw [methods, methods, ← hblock, hb]
    simpa [Block.methods] using hearlier
  · have hadmits := admits_of_run hb hm hds hok
    have hadmits' := hadmits.perm hperm (declares_eq_of_alike hearlier)
    rw [run_of_admits hb hadmits, run_of_admits (hblock ▸ hb) hadmits']
    exact ⟨rfl, List.rel_append hearlier (.cons (hadmits.alike hperm hrequests) .nil)⟩

/-- A `method` line that is accepted behind methods is accepted behind methods that are alike. -/
theorem alike_step_method (h : List.Forall₂ Method.Alike r.methods r'.methods)
    {name descriptor : Word} {flags : List Word}
    (hok : (r.step (.method name descriptor flags)).2 = none) :
    (r'.step (.method name descriptor flags)).2 = none ∧
      (r.step (.method name descriptor flags)).1.Alike
        (r'.step (.method name descriptor flags)).1 := by
  have ho := outcome_step r (.method name descriptor flags)
  rw [hok] at ho
  generalize (r.step (.method name descriptor flags)).1 = next at ho ⊢
  cases ho with
  | @opened _ _ _ m hm =>
    have hm' : readMethod r'.methods name descriptor flags = .ok m := by
      rw [readMethod_eq_ok_iff] at hm ⊢
      rwa [declares_eq_of_alike h]
    obtain ⟨_, _, access, _, rfl⟩ := readMethod_eq_ok_iff.mp hm
    rw [step_of_readMethod hm']
    exact ⟨rfl, h, rfl, .inr ⟨_, rfl, List.nodup_nil⟩⟩
  | amended hd _ _ => cases hd
  | silent hd _ => cases hd

/-- Listings with the same blocks are read alike. -/
theorem run_sameBlocks {ls ls' : List (List Char)} (h : SameBlocks ls ls')
    (hshapely : ∀ line ∈ ls, Shapely line) (hr : r.Alike r')
    (hok : (r.run (ls.filterMap said?)).2 = []) :
    (∀ line ∈ ls', Shapely line) ∧ (r'.run (ls'.filterMap said?)).2 = [] ∧
      List.Forall₂ Method.Alike (r.run (ls.filterMap said?)).1.methods
        (r'.run (ls'.filterMap said?)).1.methods := by
  have hplain {ls : List (List Char)} (hshapely : ∀ line ∈ ls, Shapely line)
      (hmethod : ∀ line ∈ ls, Text.firstWord? line ≠ some "method") :
      ∀ d ∈ ls.filterMap said?, Plain d := by
    intro d hd
    obtain ⟨line, hline, hd⟩ := List.mem_filterMap.mp hd
    exact plain_of_said? (hshapely line hline) (hmethod line hline) hd
  -- Behind a block the readers hold methods that are alike, which is all a `method` line looks at.
  induction h generalizing r r' with
  | last hmethod hls =>
    exact ⟨hls.shapely hshapely, hr.run (hplain hshapely hmethod) hls.perm_said?
      (hls.requested?_eq hshapely) hok⟩
  | @block ls ls' rest rest' head hmethod hls hhead hrest ih =>
    obtain ⟨hshapely, hshapelyRest⟩ := List.forall_mem_append.mp hshapely
    obtain ⟨hshapelyHead, hshapelyRest⟩ := List.forall_mem_cons.mp hshapelyRest
    obtain ⟨name, descriptor, flags, hsaid⟩ := exists_method_of_firstWord? hshapelyHead hhead
    rw [List.filterMap_append, List.filterMap_cons_some hsaid] at hok ⊢
    rw [List.filterMap_append, List.filterMap_cons_some hsaid]
    rw [run_append_snd, run_cons, List.append_eq_nil_iff, List.append_eq_nil_iff,
      Option.toList_eq_nil_iff] at hok
    obtain ⟨hokBlock, hokHead, hokRest⟩ := hok
    obtain ⟨hok', halike⟩ := hr.run (hplain hshapely hmethod) hls.perm_said?
      (hls.requested?_eq hshapely) hokBlock
    obtain ⟨hokHead', hopened⟩ := alike_step_method halike hokHead
    obtain ⟨hshapely', hokRest', hmethods⟩ := ih hshapelyRest hopened hokRest
    refine ⟨?_, ?_, ?_⟩
    · exact List.forall_mem_append.mpr ⟨hls.shapely hshapely,
        List.forall_mem_cons.mpr ⟨hshapelyHead, hshapely'⟩⟩
    · rw [run_append_snd, run_cons, hok', hokHead', hokRest']
      rfl
    · rw [run_append_fst, run_append_fst, run_cons, run_cons]
      exact hmethods

end Reader

/-! ### Naming in another order -/

theorem ofList_eq_of_perm {vars vars' : List (VarId × String)} (h : vars.Perm vars')
    (hnodup : (vars.map (·.1)).Nodup) :
    (Std.ExtTreeMap.ofList vars : VariableTypes) = .ofList vars' := by
  have hdistinct {vars : List (VarId × String)} (hnodup : (vars.map (·.1)).Nodup) :
      vars.Pairwise fun a b => ¬compare a.1 b.1 = .eq :=
    (List.pairwise_map.mp hnodup).imp fun hne he => hne (Std.LawfulEqOrd.eq_of_compare he)
  have hvars := h.map (·.1)
  refine Std.ExtTreeMap.ext_getElem? fun v => ?_
  have hself : compare v v = .eq := Std.LawfulEqOrd.compare_eq_iff_eq.mpr rfl
  by_cases hv : v ∈ vars.map (·.1)
  · obtain ⟨⟨w, type⟩, hmem, rfl⟩ := List.mem_map.mp hv
    rw [Std.ExtTreeMap.getElem?_ofList_of_mem hself (hdistinct hnodup) hmem,
      Std.ExtTreeMap.getElem?_ofList_of_mem hself (hdistinct (hvars.nodup_iff.mp hnodup))
        (h.mem_iff.mp hmem)]
  · rw [Std.ExtTreeMap.getElem?_ofList_of_contains_eq_false (by simpa using hv),
      Std.ExtTreeMap.getElem?_ofList_of_contains_eq_false
        (by simpa using mt hvars.mem_iff.mpr hv)]

theorem Method.Alike.rename_eq {m n : Method} (h : m.Alike n) (renames : Bool)
    (earlier : List RenamedMethod) : m.rename renames earlier = n.rename renames earlier := by
  unfold rename namer
  rw [h.name, h.access, h.descriptor, h.parent, h.parameters, ofList_eq_of_perm h.vars h.nodup]

theorem renameFrom_eq_of_alike {ms ns : List Method} (h : List.Forall₂ Method.Alike ms ns)
    (renames : Bool) (earlier : List RenamedMethod) :
    renameFrom renames earlier ms = renameFrom renames earlier ns := by
  induction h generalizing earlier with
  | nil => rfl
  | cons hm _ ih =>
    rw [renameFrom, renameFrom, hm.rename_eq]
    simp only [ih]

/-- A listing that is read is read and named alike when the lines of its blocks are put in another
order, as long as `param` lines keep theirs. -/
theorem names_of_sameBlocks {source source' : String} {methods : List Method}
    (hread : readListing source = .ok methods)
    (hsame : SameBlocks (linesOf source) (linesOf source')) :
    ∃ methods', readListing source' = .ok methods' ∧ ∀ renames, ∃ outs,
      renameListing renames methods = .ok outs ∧ renameListing renames methods' = .ok outs := by
  obtain ⟨hshapely, hok, hmethods⟩ := readListing_eq_ok_iff_lines.mp hread
  have hstart : Reader.start.Alike .start := ⟨.nil, rfl, .inl rfl⟩
  obtain ⟨hshapely', hok', halike⟩ := Reader.run_sameBlocks hsame hshapely hstart hok
  refine ⟨_, readListing_eq_ok_iff_lines.mpr ⟨hshapely', hok', rfl⟩, fun renames => ?_⟩
  obtain ⟨outs, houts, _⟩ := (wellFormed_of_readListing hread).renameListing renames
  rw [hmethods] at halike
  exact ⟨outs, houts, (renameFrom_eq_of_alike halike renames []).symm.trans houts⟩

/-- Variables change places, a parent comes last, and lines without words come and go. -/
theorem names_of_moved_lines :
    let source := "method f ()V static\nvar 1 0 int\nparam 0 x int\nvar 0 0 Foo\n\n" ++
      "method g ()V static\ninherit f\nvar 0 0 int\n"
    let source' := "// f and g\nmethod f ()V static\nvar 0 0 Foo\nvar 1 0 int\nparam 0 x int\n" ++
      "method g ()V static\nvar 0 0 int\n  // behind f\ninherit f"
    ∃ methods methods', readListing source = .ok methods ∧
      SameBlocks (linesOf source) (linesOf source') ∧ readListing source' = .ok methods' ∧
      methods.map (·.vars) ≠ methods'.map (·.vars) ∧
      ∃ outs, renameListing true methods = .ok outs ∧ renameListing true methods' = .ok outs := by
  intro source source'
  have hlines : linesOf source = [] ++ "method f ()V static".toList ::
      (["var 1 0 int", "param 0 x int", "var 0 0 Foo", ""].map String.toList ++
        "method g ()V static".toList :: ["inherit f", "var 0 0 int", ""].map String.toList) := by
    decide +kernel
  have hlines' : linesOf source' = ["// f and g".toList] ++ "method f ()V static".toList ::
      (["var 0 0 Foo", "var 1 0 int", "param 0 x int"].map String.toList ++
        "method g ()V static".toList ::
          ["var 0 0 int", "  // behind f", "inherit f"].map String.toList) := by
    decide +kernel
  have hsame : SameBlocks (linesOf source) (linesOf source') := by
    rw [hlines, hlines']
    refine .block (by simp) ⟨?_, ?_⟩ ?_ <| .block ?_ ⟨?_, ?_⟩ ?_ <| .last ?_ ⟨?_, ?_⟩
    all_goals decide +kernel
  have hfirst : ((readListing source).toOption.map (·.map (·.vars))) =
      some [[(⟨1, 0⟩, "int"), (⟨0, 0⟩, "Foo")], [(⟨0, 0⟩, "int")]] := by
    decide +kernel
  have hsecond : ((readListing source').toOption.map (·.map (·.vars))) =
      some [[(⟨0, 0⟩, "Foo"), (⟨1, 0⟩, "int")], [(⟨0, 0⟩, "int")]] := by
    decide +kernel
  obtain ⟨methods, hmethods, hvars⟩ := Option.map_eq_some_iff.mp hfirst
  have hread := Reader.toOption_eq_some_iff.mp hmethods
  obtain ⟨methods', hread', hnames⟩ := names_of_sameBlocks hread hsame
  rw [hread'] at hsecond
  have hvars' : methods'.map (·.vars) = [[(⟨0, 0⟩, "Foo"), (⟨1, 0⟩, "int")], [(⟨0, 0⟩, "int")]] :=
    Option.some_inj.mp hsecond
  exact ⟨methods, methods', hread, hsame, hread', by rw [hvars, hvars']; decide, hnames true⟩

end LocalNames
