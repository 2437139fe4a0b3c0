import LocalNames.Proofs.Replay

/-! Which draws a family serves. Whatever is drawn in between, a family gives its names one after
the other, each of them once, and stands behind the last of them in the end; a family that is
founded on the way does so from its first name on. -/

namespace LocalNames

open Text (lowercase)

/-- The name comes from the family under a key. -/
def Draw.isFrom (d : Draw) (family : String) : Bool := d.source.any (·.1 == family)

theorem Draw.isFrom_iff {d : Draw} {family : String} :
    d.isFrom family = true ↔ ∃ i, d.source = some (family, i) := by
  simp [isFrom, Option.any_eq_true]

/-- Those of the draws that the family under a key serves. -/
def Draw.servedBy (family : String) (draws : List Draw) : List Draw :=
  draws.filter (·.isFrom family)

namespace Family

/-- The draws that take the next `n` names of the family under a key. -/
def turns (f : Family) (family : String) (n : Nat) : List Draw :=
  (List.range n).map fun i => ⟨f.nameAt (f.index + i), some (family, f.index + i)⟩

theorem turns_succ (f : Family) (family : String) (n : Nat) :
    f.turns family (n + 1) = ⟨f.peek, some (family, f.index)⟩ :: f.pass.turns family n := by
  have hshift : ∀ i, f.index + (i + 1) = f.pass.index + i := by
    intro i
    simp only [pass]
    omega
  simp only [turns, List.range_succ_eq_map, List.map_cons, List.map_map, Nat.add_zero, peek,
    Function.comp_def, hshift, nameAt_pass]

/-- Of the draws the family under a key serves some in turn, and then stands where these have left
it. -/
structure Serves (f : Family) (family : String) (draws : List Draw) (last : Registry) : Prop where
  served : Draw.servedBy family draws = f.turns family (Draw.servedBy family draws).length
  left : last.families[family]? =
    some { f with index := f.index + (Draw.servedBy family draws).length }

namespace Serves

variable {f : Family} {family : String} {draws : List Draw} {last : Registry}

theorem nil (h : last.families[family]? = some f) : f.Serves family [] last := ⟨rfl, h⟩

/-- One draw of the family before all others. -/
theorem cons (h : f.pass.Serves family draws last) :
    f.Serves family (⟨f.peek, some (family, f.index)⟩ :: draws) last := by
  have hserved : Draw.servedBy family (⟨f.peek, some (family, f.index)⟩ :: draws) =
      ⟨f.peek, some (family, f.index)⟩ :: Draw.servedBy family draws :=
    List.filter_cons_of_pos (by simp [Draw.isFrom])
  refine ⟨?_, ?_⟩
  · rw [hserved, List.length_cons, turns_succ, ← h.served]
  · rw [hserved, List.length_cons, h.left]
    simp only [pass, Nat.add_assoc, Nat.add_comm 1]

/-- One draw of another family, or of none, before all others. -/
theorem skip (h : f.Serves family draws last) {d : Draw} (hd : d.isFrom family = false) :
    f.Serves family (d :: draws) last := by
  have hserved : Draw.servedBy family (d :: draws) = Draw.servedBy family draws :=
    List.filter_cons_of_neg (by simp [hd])
  exact ⟨by rw [hserved]; exact h.served, by rw [hserved]; exact h.left⟩

/-- The first draw that a family serves gets the name that the family has shown. -/
theorem name_eq_peek (h : f.Serves family draws last) {d : Draw}
    (hd : draws.find? (·.isFrom family) = some d) : d.name = f.peek := by
  rw [← List.head?_filter] at hd
  have hserved := h.served
  obtain ⟨rest, hrest⟩ : ∃ rest, Draw.servedBy family draws = d :: rest :=
    List.head?_eq_some_iff.mp hd
  rw [hrest, List.length_cons, turns_succ] at hserved
  rw [(List.cons.inj hserved).1]

end Serves

end Family

namespace Registry

/-! ### One draw -/

/-- A type without a family names its variable itself, and nothing changes. -/
theorem nextName_of_source?_eq_none {r : Registry} {key : TypeKey} (h : r.source? key = none) :
    r.nextName key = (lowercase key.text, r) := by
  rcases nextName_cases r key with ⟨family, f, hk, hf, _⟩ | ⟨_, hn⟩
  · rw [source?_eq_some_iff.mpr ⟨hk, f, hf, rfl⟩] at h
    cases h
  · exact hn

/-- A draw takes the next name of a family, or it leaves the family alone. -/
theorem draw_cases {r : Registry} {family : String} {f : Family}
    (h : r.families[family]? = some f) (key : TypeKey) :
    (r.source? key = some (family, f.index) ∧ (r.nextName key).1 = f.peek ∧
      (r.nextName key).2.families[family]? = some f.pass) ∨
    ((∀ i, r.source? key ≠ some (family, i)) ∧
      (r.nextName key).2.families[family]? = some f) := by
  have hres := getElem?_families_resolve h key
  rcases nextName_cases r key with ⟨k, g, hk, hg, hn⟩ | ⟨hnone, hn⟩
  · rw [hn]
    by_cases he : k = family
    · subst he
      obtain rfl := Option.some_inj.mp (hg.symm.trans hres)
      exact .inl ⟨source?_eq_some_iff.mpr ⟨hk, g, hg, rfl⟩, rfl, by simp⟩
    · refine .inr ⟨fun i hs => he ?_, ?_⟩
      · exact Option.some_inj.mp (hk.symm.trans (source?_eq_some_iff.mp hs).1)
      · simpa [Std.ExtTreeMap.getElem?_insert, he] using hres
  · rw [hn]
    refine .inr ⟨fun i hs => ?_, h⟩
    obtain ⟨hk, g, hg, _⟩ := source?_eq_some_iff.mp hs
    rw [hnone family hk] at hg
    cases hg

/-- A draw founds a family and takes its first name, or the family is not there after it either. -/
theorem draw_cases_of_not_mem {r : Registry} {family : String} (h : family ∉ r.families)
    (key : TypeKey) :
    (∃ name, family = lowercase key.text ∧ key.shape.familyName? = some name ∧
      r.source? key = some (family, 0) ∧ (r.nextName key).1 = (Family.fresh name).peek ∧
      (r.nextName key).2.families[family]? = some (Family.fresh name).pass) ∨
    ((∀ i, r.source? key ≠ some (family, i)) ∧ family ∉ (r.nextName key).2.families) := by
  by_cases hfounds : family = lowercase key.text ∧ ∃ name, r.Founds key name
  · obtain ⟨rfl, name, hf, hn⟩ := hfounds
    have hresolve : r.resolve key =
        (some (lowercase key.text), r.register (lowercase key.text) (.fresh name)) := by
      rw [resolve, hf, hn]
    refine .inl ⟨name, rfl, hn, ?_, ?_, ?_⟩
    · simp [source?, hresolve, Family.fresh]
    · simp [nextName, hresolve, draw?]
    · simp [nextName, hresolve, draw?]
  · have hmem : family ∉ (r.resolve key).2.families := by
      rw [mem_families_resolve]
      exact fun hm => hm.elim h hfounds
    refine .inr ⟨fun i hs => hmem ?_, mt mem_families_nextName.mp hmem⟩
    obtain ⟨_, f, hf, _⟩ := source?_eq_some_iff.mp hs
    rw [← Std.ExtTreeMap.isSome_getElem?_iff_mem, hf]
    rfl

/-! ### Many draws -/

theorem isFrom_eq_false {r : Registry} {key : TypeKey} {family : String}
    (h : ∀ i, r.source? key ≠ some (family, i)) :
    (⟨(r.nextName key).1, r.source? key⟩ : Draw).isFrom family = false := by
  rw [Bool.eq_false_iff, ne_eq, Draw.isFrom_iff]
  exact fun ⟨i, hi⟩ => h i hi

/-- A family serves draws in turn. -/
theorem serves {r : Registry} {family : String} {f : Family} (h : r.families[family]? = some f)
    (keys : List TypeKey) : f.Serves family (r.draws keys) (r.after keys) := by
  induction keys generalizing r f with
  | nil => exact .nil h
  | cons key keys ih =>
    rcases draw_cases h key with ⟨hs, hname, hf⟩ | ⟨hs, hf⟩
    · rw [draws, hs, hname]
      exact (ih hf).cons
    · exact (ih hf).skip (isFrom_eq_false hs)

/-- A family that is not there serves no draw, or it is founded and serves draws in turn. -/
theorem serves_of_not_mem {r : Registry} {family : String} (h : family ∉ r.families)
    (keys : List TypeKey) :
    (Draw.servedBy family (r.draws keys) = [] ∧ family ∉ (r.after keys).families) ∨
    ∃ key ∈ keys, ∃ name, family = lowercase key.text ∧ key.shape.familyName? = some name ∧
      Draw.servedBy family (r.draws keys) ≠ [] ∧
      (Family.fresh name).Serves family (r.draws keys) (r.after keys) := by
  induction keys generalizing r with
  | nil => exact .inl ⟨rfl, h⟩
  | cons key keys ih =>
    rcases draw_cases_of_not_mem h key with ⟨name, hl, hn, hs, hname, hf⟩ | ⟨hs, hm⟩
    · refine .inr ⟨key, List.mem_cons_self, name, hl, hn, ?_, ?_⟩
      · rw [draws, hs]
        simp [Draw.servedBy, Draw.isFrom]
      · rw [draws, hs, hname]
        exact (serves hf keys).cons
    · have hskip : Draw.servedBy family (r.draws (key :: keys)) =
          Draw.servedBy family ((r.nextName key).2.draws keys) :=
        List.filter_cons_of_neg (by simp [isFrom_eq_false hs])
      rw [hskip]
      refine (ih hm).imp id ?_
      rintro ⟨key', hkey', name, hl, hn, hne, hserves⟩
      exact ⟨key', List.mem_cons_of_mem _ hkey', name, hl, hn, hne,
        hserves.skip (isFrom_eq_false hs)⟩

theorem getElem?_draws {r : Registry} {keys : List TypeKey} {i : Nat} {key : TypeKey}
    (h : keys[i]? = some key) : (r.draws keys)[i]? =
      some ⟨((r.after (keys.take i)).nextName key).1, (r.after (keys.take i)).source? key⟩ := by
  induction keys generalizing r i with
  | nil => cases h
  | cons k keys ih =>
    cases i with
    | zero =>
      obtain rfl := Option.some_inj.mp h
      rfl
    | succ i => exact ih h

@[simp]
theorem aliases_after (r : Registry) (keys : List TypeKey) :
    (r.after keys).aliases = r.aliases := by
  induction keys generalizing r with
  | nil => rfl
  | cons key keys ih => exact (ih _).trans (aliases_nextName r key)

/-- Every draw is served by the family that is looked up for its type, if that is there, and else
the type names the variable itself and nothing changes. Each family serves its draws in turn and is
otherwise left as it is; one that has not been there is founded after the type of a draw, which it
serves with its first name. -/
theorem draws_served_in_turn (r : Registry) (keys : List TypeKey) :
    (∀ (i : Nat) (key : TypeKey), keys[i]? = some key →
      let before := r.after (keys.take i)
      ∃ d, (r.draws keys)[i]? = some d ∧ d.name = (before.nextName key).1 ∧
        (∀ family, d.isFrom family = true ↔ (before.resolve key).1 = some family ∧
          family ∈ (before.resolve key).2.families) ∧
        (d.source = none → before.nextName key = (lowercase key.text, before))) ∧
    (∀ (family : String) (f : Family), r.families[family]? = some f →
      f.Serves family (r.draws keys) (r.after keys)) ∧
    (∀ family, family ∉ r.families →
      (Draw.servedBy family (r.draws keys) = [] ∧ family ∉ (r.after keys).families) ∨
      ∃ key ∈ keys, ∃ name, family = lowercase key.text ∧ key.shape.familyName? = some name ∧
        Draw.servedBy family (r.draws keys) ≠ [] ∧
        (Family.fresh name).Serves family (r.draws keys) (r.after keys)) ∧
    (r.after keys).aliases = r.aliases := by
  refine ⟨fun i key hkey => ?_, fun family f hf => serves hf keys,
    fun family h => serves_of_not_mem h keys, aliases_after r keys⟩
  refine ⟨_, getElem?_draws hkey, rfl, fun family => ?_, nextName_of_source?_eq_none⟩
  rw [Draw.isFrom_iff]
  simp only [source?_eq_some_iff, exists_and_left, and_congr_right_iff]
  intro _
  rw [← Std.ExtTreeMap.isSome_getElem?_iff_mem, Option.isSome_iff_exists]
  exact ⟨fun ⟨_, f, hf, _⟩ => ⟨f, hf⟩, fun ⟨f, hf⟩ => ⟨_, f, hf, rfl⟩⟩

/-- An alias leads to a family that is not there, two spellings of an array share a family that is
founded on the way, and a family goes on in the middle of its second round. -/
theorem draws_served_beside_dangling_alias :
    let r := (empty.register "int" ⟨5, true, "i", ["j", "k", "l"]⟩).addAlias "long" "gone"
    let keys := [.ofType "Foo[][]", .ofType "long", .ofType "int", .ofType "Foo...", .ofType "int"]
    (r.draws keys).map (·.name) = ["afoo", "long", "j1", "afoo1", "k1"] ∧
      (r.after (keys.take 1)).nextName (.ofType "long") = ("long", r.after (keys.take 1)) ∧
      (⟨5, true, "i", ["j", "k", "l"]⟩ : Family).Serves "int" (r.draws keys) (r.after keys) ∧
      (Family.fresh "afoo").Serves "foo[]" (r.draws keys) (r.after keys) := by
  intro r keys
  obtain ⟨heach, hthere, hfounded, _⟩ := draws_served_in_turn r keys
  have hint : r.families["int"]? = some ⟨5, true, "i", ["j", "k", "l"]⟩ := by decide +kernel
  have hnew : "foo[]" ∉ r.families := by decide +kernel
  have hserved : Draw.servedBy "foo[]" (r.draws keys) ≠ [] := by decide +kernel
  have hbase : ∀ key ∈ keys, "foo[]" = lowercase key.text →
      key.shape.familyName? = some "afoo" := by
    decide +kernel
  obtain ⟨d, hd, _, _, hnone⟩ := heach 1 (.ofType "long") rfl
  obtain rfl : d = ⟨"long", none⟩ := by
    have hlong : (r.draws keys)[1]? = some ⟨"long", none⟩ := by decide +kernel
    exact Option.some_inj.mp (hd.symm.trans hlong)
  refine ⟨by decide +kernel, hnone rfl, hthere "int" _ hint, ?_⟩
  rcases hfounded "foo[]" hnew with ⟨hnil, _⟩ | ⟨key, hkey, name, hl, hname, _, hserves⟩
  · exact absurd hnil hserved
  · obtain rfl := Option.some_inj.mp ((hbase key hkey hl).symm.trans hname)
    exact hserves

end Registry

end LocalNames
