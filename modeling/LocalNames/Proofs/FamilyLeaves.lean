import LocalNames.FamilyTree
import LocalNames.Proofs.Inheritance
import LocalNames.Proofs.Marks
import LocalNames.Proofs.Service
import LocalNames.Proofs.Unplaced
import LocalNames.Proofs.WellFormed

/-! What the tree of a method foretells. It has a leaf for each family that the method leaves, in
the order of their keys, and the name that stands on the line of a leaf is the one that the family
gives first when a child of the method is named. -/

namespace LocalNames

/-! ### Leaves -/

namespace FamilyLeaf

/-- The text of the leaf says that its family `f` gives `name` next. -/
def Shows (leaf : FamilyLeaf) (f : Family) (name : String) : Prop :=
  leaf.text = leaf.key ++ " [" ++ " ".intercalate f.candidates ++ "] next " ++ name ++
    if f.skipZero then "" else " (numbered from 0)"

theorem shows_ofFamily_iff {key : String} {f : Family} {name : String} :
    (ofFamily key f).Shows f name ↔ name = f.peek := by
  have htext : (ofFamily key f).text =
      key ++ " [" ++ " ".intercalate f.candidates ++ "] next " ++ f.peek ++
        if f.skipZero then "" else " (numbered from 0)" := by
    cases hz : f.skipZero <;> simp [text, ofFamily, hz]
  rw [Shows, htext, String.append_left_inj, ofFamily, String.append_right_inj, eq_comm]

end FamilyLeaf

namespace FamilyTree

theorem mem_families_ofRegistry {title : String} {r : Registry} {leaf : FamilyLeaf} :
    leaf ∈ (ofRegistry title r).families ↔
      ∃ f, r.families[leaf.key]? = some f ∧ leaf = .ofFamily leaf.key f := by
  simp only [ofRegistry, List.mem_map, Prod.exists, Std.ExtTreeMap.mem_toList_iff_getElem?_eq_some]
  constructor
  · rintro ⟨key, f, hf, rfl⟩
    exact ⟨f, hf, rfl⟩
  · rintro ⟨f, hf, hleaf⟩
    exact ⟨leaf.key, f, hf, hleaf.symm⟩

theorem pairwise_families_ofRegistry (title : String) (r : Registry) :
    (ofRegistry title r).families.Pairwise (·.key < ·.key) := by
  rw [ofRegistry, List.pairwise_map]
  exact r.families.ordered_keys_toList.imp fun h => compareOfLessAndEq_eq_lt.mp h

/-- A leaf says the name that its family has next, and no other one. -/
theorem shows_iff_of_mem {title : String} {r : Registry} {leaf : FamilyLeaf}
    (hleaf : leaf ∈ (ofRegistry title r).families) {f : Family}
    (hf : r.families[leaf.key]? = some f) {name : String} : leaf.Shows f name ↔ name = f.peek := by
  obtain ⟨f', hf', he⟩ := mem_families_ofRegistry.mp hleaf
  obtain rfl := Option.some_inj.mp (hf.symm.trans hf')
  rw [he]
  exact FamilyLeaf.shows_ofFamily_iff

/-- Every leaf gets a line of its own. -/
theorem exists_marks_drawLeaves (indent : String) (leaves : List String) :
    ∃ marks : List String, marks.length = leaves.length ∧
      (∀ mark ∈ marks, mark = indent ++ "├─ " ∨ mark = indent ++ "└─ ") ∧
      drawLeaves indent leaves = List.zipWith (· ++ ·) marks leaves := by
  induction leaves using drawLeaves.induct with
  | case1 => exact ⟨[], rfl, nofun, rfl⟩
  | case2 leaf => exact ⟨[indent ++ "└─ "], rfl, by simp, rfl⟩
  | case3 leaf rest hrest ih =>
    obtain ⟨marks, hlen, hmarks, hdraw⟩ := ih
    refine ⟨(indent ++ "├─ ") :: marks, by rw [List.length_cons, List.length_cons, hlen],
      List.forall_mem_cons.mpr ⟨.inl rfl, hmarks⟩, ?_⟩
    rw [drawLeaves, hdraw, List.zipWith_cons_cons]
    exact hrest

/-- The printed tree has a line for each leaf, in their order and between the two headings. -/
def PrintsLeaves (t : FamilyTree) : Prop :=
  ∃ marks : List String, marks.length = t.families.length ∧
    (∀ mark ∈ marks, mark = "│  ├─ " ∨ mark = "│  └─ ") ∧
    [t.title, "├─ families"] ++
      List.zipWith (fun mark leaf => mark ++ leaf.text) marks t.families ++
        ["└─ aliases"] <+: t.lines

theorem printsLeaves (t : FamilyTree) : t.PrintsLeaves := by
  obtain ⟨marks, hlen, hmarks, hdraw⟩ := exists_marks_drawLeaves "│  " (t.families.map (·.text))
  refine ⟨marks, by rw [hlen, List.length_map], hmarks, ?_⟩
  rw [lines, hdraw, List.zipWith_map_right]
  exact List.prefix_append _ _

end FamilyTree

/-! ### First draws -/

/-- The first name of a founded family is its candidate without a number. -/
theorem Family.peek_fresh (name : String) : (Family.fresh name).peek = name := by
  simp [peek, nameAt, candidateAt, candidates, numberAt, fresh]

theorem mem_of_mem_firstAsks {a : Ask} {asks : List Ask} (h : a ∈ firstAsks asks) : a ∈ asks := by
  induction asks with
  | nil => exact h
  | cons b asks ih =>
    rcases List.mem_cons.mp h with rfl | h
    · exact List.mem_cons_self
    · exact List.mem_cons_of_mem _ (ih (List.mem_of_mem_filter h))

theorem nodup_holder_firstAsks (asks : List Ask) : ((firstAsks asks).map (·.holder)).Nodup := by
  induction asks with
  | nil => exact List.nodup_nil
  | cons a asks ih =>
    rw [firstAsks, List.map_cons, List.nodup_cons]
    refine ⟨fun hm => ?_, ih.sublist (List.filter_sublist.map _)⟩
    obtain ⟨b, hb, he⟩ := List.mem_map.mp hm
    simpa [he] using (List.mem_filter.mp hb).2

namespace Registry

/-- The first draw from a family, with its holder, when asks are served. -/
def firstDraw? (r : Registry) (asks : List Ask) (family : String) : Option (Holder × Draw) :=
  (r.record asks).find? (·.2.isFrom family)

variable {r : Registry} {asks : List Ask} {family : String} {h : Holder} {d : Draw}

theorem map_fst_record (r : Registry) (asks : List Ask) :
    (r.record asks).map (·.1) = (firstAsks asks).map (·.holder) :=
  List.map_fst_zip (by simp)

/-- Every holder draws once. -/
theorem nameOf?_of_mem_record (hd : (h, d) ∈ r.record asks) : r.nameOf? asks h = some d.name := by
  obtain ⟨before, after, hsplit⟩ := List.append_of_mem hd
  have hnodup := nodup_holder_firstAsks asks
  rw [← map_fst_record r, hsplit, List.map_append, List.nodup_append] at hnodup
  have hlookup : (r.record asks).lookup h = some d := by
    refine List.lookup_eq_some_iff.mpr ⟨before, after, hsplit, fun p hp => ?_⟩
    have hne := hnodup.2.2 p.1 (List.mem_map_of_mem hp) h (by simp)
    simpa using hne.symm
  rw [nameOf?, hlookup, Option.map_some]

theorem find?_draws_of_firstDraw? (hd : r.firstDraw? asks family = some (h, d)) :
    (r.draws ((firstAsks asks).map (·.key))).find? (·.isFrom family) = some d := by
  rw [← map_snd_record, List.find?_map]
  exact congrArg (Option.map (·.2)) hd

theorem exists_firstDraw? (hserved : Draw.servedBy family
    (r.draws ((firstAsks asks).map (·.key))) ≠ []) :
    ∃ h d, r.firstDraw? asks family = some (h, d) := by
  obtain ⟨d, hd⟩ := List.exists_mem_of_ne_nil _ hserved
  obtain ⟨hd, hfrom⟩ := List.mem_filter.mp hd
  rw [← map_snd_record] at hd
  obtain ⟨p, hp, rfl⟩ := List.mem_map.mp hd
  obtain ⟨first, hfirst⟩ : ∃ p, (r.record asks).find? (·.2.isFrom family) = some p :=
    Option.isSome_iff_exists.mp (List.find?_isSome.mpr ⟨p, hp, hfrom⟩)
  exact ⟨first.1, first.2, hfirst⟩

/-- The first draw from a family that is there gets the name that its leaf shows. -/
theorem name_of_firstDraw? {f : Family} (hf : r.families[family]? = some f)
    (hd : r.firstDraw? asks family = some (h, d)) : d.name = f.peek :=
  (serves hf _).name_eq_peek (find?_draws_of_firstDraw? hd)

/-- A family that asks have founded has given them its bare name first. -/
theorem firstDraw?_of_founded (hnew : family ∉ r.families) {f : Family}
    (hf : (r.afterAsks asks).families[family]? = some f) :
    f.candidates = [foundedName family] ∧
      ∃ h d, r.firstDraw? asks family = some (h, d) ∧ d.name = foundedName family := by
  have hmem : family ∈ (r.afterAsks asks).families := by
    rw [← Std.ExtTreeMap.isSome_getElem?_iff_mem, hf]
    rfl
  rcases serves_of_not_mem hnew ((firstAsks asks).map (·.key)) with
    ⟨_, hm⟩ | ⟨key, _, name, rfl, hname, hserved, hserves⟩
  · exact absurd hmem hm
  · obtain rfl := Option.some_inj.mp (hf.symm.trans hserves.left)
    obtain ⟨h, d, hd⟩ := exists_firstDraw? hserved
    rw [← key.familyName?_eq hname]
    refine ⟨rfl, h, d, hd, ?_⟩
    rw [hserves.name_eq_peek (find?_draws_of_firstDraw? hd), Family.peek_fresh]

end Registry

/-! ### Outcomes -/

/-- The name is given to a variable or a parameter for which the holder stands. -/
def RenamedMethod.Gives (out : RenamedMethod) (name : String) : Holder → Prop
  | .var _ v => (v, name) ∈ out.vars
  | .parameter slot => (∃ v, v.slot = slot ∧ (v, name) ∈ out.vars) ∨
      ∃ p, p.slot = slot ∧ (p, name) ∈ out.parameters

theorem mem_of_mem_map_some {α β : Type} {ps : List (α × β)} {a : α} {b : β}
    (h : (a, some b) ∈ ps.map fun (a, b) => (a, some b)) : (a, b) ∈ ps := by
  obtain ⟨⟨c, d⟩, hp, he⟩ := List.mem_map.mp h
  obtain ⟨rfl, hb⟩ := Prod.mk.inj he
  exact Option.some_inj.mp hb ▸ hp

namespace Method.Replays

variable {m : Method} {d : MethodDescriptor} {renames : Bool} {start : Registry}
  {out : RenamedMethod} {name : String}

theorem mem_vars (hr : m.Replays d renames start out) {v : VarId} {a : Ask}
    (ha : (v, a) ∈ m.variableAsks d renames)
    (hname : start.nameOf? (m.asks d renames) a.holder = some name) : (v, name) ∈ out.vars := by
  apply mem_of_mem_map_some
  rw [hr.vars, ← hname]
  exact List.mem_map_of_mem ha

theorem mem_parameters (hr : m.Replays d true start out) {p : ParameterRequest}
    (hp : p ∈ m.parameters)
    (hname : start.nameOf? (m.asks d true) (.parameter p.slot) = some name) :
    (p, name) ∈ out.parameters := by
  apply mem_of_mem_map_some
  rw [hr.parameters, ← hname]
  exact List.mem_map_of_mem hp

/-- What is drawn is given. -/
theorem gives (hr : m.Replays d renames start out) {h : Holder} {draw : Draw}
    (hd : (h, draw) ∈ start.record (m.asks d renames)) : out.Gives draw.name h := by
  have hname := Registry.nameOf?_of_mem_record hd
  obtain ⟨a, ha, rfl⟩ : ∃ a ∈ m.asks d renames, a.holder = h := by
    have hm := List.mem_map_of_mem (f := (·.1)) hd
    rw [Registry.map_fst_record] at hm
    obtain ⟨a, ha, he⟩ := List.mem_map.mp hm
    exact ⟨a, mem_of_mem_firstAsks ha, he⟩
  rcases List.mem_append.mp ha with ha | ha
  · obtain ⟨⟨v, b⟩, hv, rfl⟩ := List.mem_map.mp ha
    have hmem := hr.mem_vars hv hname
    obtain ⟨_, _, _, hholder⟩ := mem_variableAsks hv
    rcases Holder.ofVariable?_eq_some hholder with ⟨_, hh⟩ | ⟨_, hh⟩
    · rw [hh]
      exact hmem
    · rw [hh]
      exact .inl ⟨v, rfl, hmem⟩
  · cases renames with
    | false => cases ha
    | true =>
      obtain ⟨p, hp, rfl⟩ := List.mem_map.mp ha
      exact .inr ⟨p, rfl, hr.mem_parameters hp hname⟩

end Method.Replays

/-! ### Parents -/

namespace WellFormed

variable {ms : List Method} {i j : Nat} {child parent : Method}

/-- A method is the only one of its name. -/
theorem index_inj (hwf : WellFormed ms) {m n : Method} (hi : ms[i]? = some m)
    (hj : ms[j]? = some n) (hname : m.name = n.name) : i = j := by
  have hlt : i < (ms.map (·.name)).length := by
    rw [List.length_map]
    exact (List.getElem?_eq_some_iff.mp hi).1
  refine (List.getElem?_inj hlt hwf.names).mp ?_
  rw [List.getElem?_map, List.getElem?_map, hi, hj]
  exact congrArg some hname

/-- A parent stands before its children. -/
theorem lt_of_parent (hwf : WellFormed ms) (hi : ms[i]? = some child) (hj : ms[j]? = some parent)
    (hparent : child.parent = some parent.name) : j < i := by
  obtain ⟨hlt, hget⟩ := List.getElem?_eq_some_iff.mp hi
  have hsplit : ms = ms.take i ++ child :: ms.drop (i + 1) := by
    rw [← hget, List.getElem_cons_drop, List.take_append_drop]
  obtain ⟨n, hn, hname⟩ := hwf.parents _ _ _ hsplit _ hparent
  obtain ⟨k, hk⟩ := List.mem_iff_getElem?.mp hn
  have hki : k < i := by
    have := (List.getElem?_eq_some_iff.mp hk).1
    rw [List.length_take] at this
    omega
  rw [List.getElem?_take_of_lt hki] at hk
  rwa [hwf.index_inj hj hk hname.symm]

/-- In a listing that has been read the parent that a method names is looked up and found. -/
theorem parentIndex?_eq (hwf : WellFormed ms) (hi : ms[i]? = some child)
    (hj : ms[j]? = some parent) (hparent : child.parent = some parent.name) :
    parentIndex? ms i = some j := by
  have hji := hwf.lt_of_parent hi hj hparent
  obtain ⟨k, hk⟩ : ∃ k, (List.range i).reverse.find?
      (fun l => ms[l]?.any (·.name == parent.name)) = some k := by
    rw [← Option.isSome_iff_exists, List.find?_isSome]
    exact ⟨j, by simpa using hji, by simp [hj]⟩
  have hfound := List.find?_some hk
  obtain ⟨n, hn, hname⟩ := (Option.any_eq_true _ _).mp hfound
  rw [parentIndex?, hi, Option.bind_some, hparent, Option.bind_some, hk,
    hwf.index_inj hn hj (by simpa using hname)]

end WellFormed

/-! ### Forecasts -/

/-- What a tree says of families `r` and of asks that are served behind them, with this outcome. -/
structure FamilyTree.Foretells (t : FamilyTree) (r : Registry) (asks : List Ask)
    (out : RenamedMethod) : Prop where
  sorted : t.families.Pairwise (·.key < ·.key)
  leaves : ∀ leaf, leaf ∈ t.families ↔
    ∃ f, r.families[leaf.key]? = some f ∧ leaf = .ofFamily leaf.key f
  printed : t.PrintsLeaves
  shows : ∀ leaf ∈ t.families, ∀ f, r.families[leaf.key]? = some f → ∃ name, leaf.Shows f name
  next : ∀ leaf ∈ t.families, ∀ f, r.families[leaf.key]? = some f →
    ∀ name, leaf.Shows f name → ∀ h d, r.firstDraw? asks leaf.key = some (h, d) →
      d.name = name ∧ out.Gives name h
  founded : ∀ family f, family ∉ r.families → out.registry.families[family]? = some f →
    f.candidates = [foundedName family] ∧
      ∃ h d, r.firstDraw? asks family = some (h, d) ∧ d.name = foundedName family ∧
        out.Gives (foundedName family) h

theorem FamilyTree.foretells {m : Method} {d : MethodDescriptor} {renames : Bool} {r : Registry}
    {out : RenamedMethod} (hr : m.Replays d renames r out) (title : String) :
    (ofRegistry title r).Foretells r (m.asks d renames) out where
  sorted := pairwise_families_ofRegistry title r
  leaves _ := mem_families_ofRegistry
  printed := printsLeaves _
  shows leaf hleaf f hf := ⟨f.peek, (shows_iff_of_mem hleaf hf).mpr rfl⟩
  next leaf hleaf f hf name hshows h draw hd := by
    have hname : draw.name = name := by
      rw [Registry.name_of_firstDraw? hf hd, (shows_iff_of_mem hleaf hf).mp hshows]
    exact ⟨hname, hname ▸ hr.gives (List.mem_of_find?_eq_some hd)⟩
  founded family f hnew hf := by
    rw [hr.registry] at hf
    obtain ⟨hcandidates, h, draw, hd, hname⟩ := Registry.firstDraw?_of_founded hnew hf
    exact ⟨hcandidates, h, draw, hd, hname, hname ▸ hr.gives (List.mem_of_find?_eq_some hd)⟩

/-- When a listing that has been read is named, the tree of every parent foretells the names of
each child: a family gives the name on its leaf first, and one that the child founds its bare
name. -/
theorem parent_tree_foretells {source : String} {methods : List Method}
    (hread : readListing source = .ok methods) (renames : Bool) :
    ∃ outs, renameListing renames methods = .ok outs ∧ outs.length = methods.length ∧
      ∀ (i j : Nat) (child parent : Method), methods[i]? = some child →
        methods[j]? = some parent → child.parent = some parent.name →
        ∃ d above out, MethodDescriptor.read child.descriptor = .ok d ∧
          outs[j]? = some above ∧ outs[i]? = some out ∧
          child.Replays d renames above.registry out ∧
          (FamilyTree.ofRegistry above.name above.registry).Foretells above.registry
            (child.asks d renames) out := by
  have hwf := wellFormed_of_readListing hread
  have hreadable : ∀ m ∈ methods, ∃ d, MethodDescriptor.read m.descriptor = .ok d :=
    fun m hm => (hwf.each m hm).readable
  have hnone : ([] : List RenamedMethod).map (·.name) = ([] : List Method).map (·.name) := rfl
  obtain ⟨outs, hok, hlen, hall⟩ := renameFrom_replays renames hnone hreadable
  simp only [List.nil_append, List.length_nil, Nat.zero_add] at hall
  refine ⟨outs, hok, hlen, fun i j child parent hi hj hparent => ?_⟩
  obtain ⟨d, hd⟩ := hreadable child (List.mem_of_getElem? hi)
  obtain ⟨out, hout, hreplays⟩ := hall i child d hi hd
  have hlt : j < outs.length := by
    rw [hlen]
    exact (List.getElem?_eq_some_iff.mp hj).1
  have habove := List.getElem?_eq_getElem hlt
  rw [startRegistry, hwf.parentIndex?_eq hi hj hparent, Option.bind_some, habove,
    Option.elim_some] at hreplays
  exact ⟨d, _, out, hd, habove, hout, hreplays, FamilyTree.foretells hreplays _⟩

/-- A method, and a child that goes on in a family of it and founds another one. -/
def outerAndInner : List Method :=
  [{ Method.headed "outer" "()V" (Access.empty.insert .static) with
      vars := [(⟨0, 0⟩, "int"), (⟨1, 0⟩, "long")] },
    { Method.headed "inner" "()V" (Access.empty.insert .static) with
      parent := some "outer"
      vars := [(⟨0, 0⟩, "Bar[]"), (⟨1, 0⟩, "long")] }]

theorem parent_tree_foretells_child :
    let source := "method outer ()V static\nvar 0 0 int\nvar 1 0 long\n" ++
      "method inner ()V static\ninherit outer\nvar 0 0 Bar[]\nvar 1 0 long\n"
    readListing source = .ok outerAndInner ∧
      ∃ outs above out, renameListing true outerAndInner = .ok outs ∧
        outs[0]? = some above ∧ outs[1]? = some out ∧
        "│  ├─ int [i j k l] next k" ∈ (FamilyTree.ofRegistry above.name above.registry).lines ∧
        out.Gives "k" (.var 0 ⟨1, 0⟩) ∧
        "bar[]" ∉ above.registry.families ∧ ∃ h, out.Gives (foundedName "bar[]") h := by
  intro source
  have hread : readListing source = .ok outerAndInner :=
    Reader.toOption_eq_some_iff.mp (by decide +kernel)
  have hdescriptor : MethodDescriptor.read "()V" = .ok ⟨[], none⟩ := rfl
  obtain ⟨outs, hok, _, hall⟩ := parent_tree_foretells hread true
  obtain ⟨d, above, out, hd, habove, hout, _, htree⟩ := hall 1 0 _ _ rfl rfl rfl
  obtain rfl := Except.ok.inj (hdescriptor.symm.trans hd)
  have hcomputed : ∀ outs ∈ (renameListing true outerAndInner).toOption,
      (∀ above ∈ outs[0]?, "bar[]" ∉ above.registry.families ∧
        "│  ├─ int [i j k l] next k" ∈ (FamilyTree.ofRegistry above.name above.registry).lines ∧
        above.registry.families["int"]? = some ⟨2, true, "i", ["j", "k", "l"]⟩ ∧
        ⟨"int", ["i", "j", "k", "l"], "k", false⟩ ∈
          (FamilyTree.ofRegistry above.name above.registry).families ∧
        ∀ m ∈ outerAndInner[1]?, above.registry.firstDraw? (m.asks ⟨[], none⟩ true) "int" =
          some (.var 0 ⟨1, 0⟩, ⟨"k", some ("int", 2)⟩)) ∧
      ∀ out ∈ outs[1]?, (out.registry.families["bar[]"]?).isSome := by
    decide +kernel
  obtain ⟨hparent, hchild⟩ := hcomputed outs (Reader.toOption_eq_some_iff.mpr hok)
  obtain ⟨hnew, hline, hint, hleaf, hfirst⟩ := hparent above habove
  obtain ⟨f, hf⟩ := Option.isSome_iff_exists.mp (hchild out hout)
  have hshows : FamilyLeaf.Shows ⟨"int", ["i", "j", "k", "l"], "k", false⟩
      ⟨2, true, "i", ["j", "k", "l"]⟩ "k" := rfl
  obtain ⟨_, hgives⟩ := htree.next _ hleaf _ hint "k" hshows _ _ (hfirst _ rfl)
  obtain ⟨_, h, _, _, _, hfounded⟩ := htree.founded "bar[]" f hnew hf
  exact ⟨hread, outs, above, out, hok, habove, hout, hline, hgives, hnew, h, hfounded⟩

end LocalNames
