import LocalNames.Proofs.Lookup
import LocalNames.Proofs.Marks
import LocalNames.Proofs.SideBySide

/-! What registries of namers look like. The built-in families and the alias stay; every other
family has been founded under a key in lowercase, is named after it, and has given a name. So a
family that is looked up is always there, and only a type that may have no family goes without. -/

namespace LocalNames

open Text (lowercase)

/-- What a family that is not built in looks like, by the key it stands under. -/
structure Family.IsFounded (f : Family) (key : String) : Prop where
  lowercase : Text.lowercase key = key
  isKey : IsKey key.toList
  skipZero : f.skipZero = true
  drawn : 1 ≤ f.index
  candidates : f.candidates = [foundedName key]

theorem Family.IsFounded.passesTo {f g : Family} {key : String} (h : f.IsFounded key)
    (hfg : f.PassesTo g) : g.IsFounded key where
  lowercase := h.lowercase
  isKey := h.isKey
  skipZero := by rw [hfg.2]; exact h.skipZero
  drawn := Nat.le_trans h.drawn hfg.1
  candidates := hfg.candidates_eq.trans h.candidates

/-- The family of a type that has just got its first name. -/
theorem Family.isFounded_fresh {key : TypeKey} {name : String}
    (h : key.shape.familyName? = some name) :
    (fresh name).pass.IsFounded (Text.lowercase key.text) where
  lowercase := Text.lowercase_lowercase _
  isKey := isKey_lowercase key.isKey
  skipZero := rfl
  drawn := Nat.le_refl 1
  candidates := by rw [← key.familyName?_eq h]; rfl

namespace Registry

/-! ### Families and aliases -/

/-- The built-in families and the alias are there, and all else has been founded. -/
structure Intact (r : Registry) : Prop where
  builtin : ∀ key f, (key, f) ∈ builtinFamilies →
    ∃ g, r.families[key]? = some g ∧ f.PassesTo g
  aliases : r.aliases.toList = [("long", "int")]
  founded : ∀ key f, r.families[key]? = some f → key ∉ builtinFamilies.map (·.1) →
    f.IsFounded key

theorem mem_families_of_getElem? {r : Registry} {key : String} {f : Family}
    (h : r.families[key]? = some f) : key ∈ r.families := by
  rw [← Std.ExtTreeMap.isSome_getElem?_iff_mem, h]
  rfl

theorem getElem?_families_builtin {key : String} {f : Family} (h : (key, f) ∈ builtinFamilies) :
    builtin.families[key]? = some f :=
  Std.ExtTreeMap.getElem?_ofList_of_mem (Std.LawfulEqOrd.compare_eq_iff_eq.mpr rfl)
    (by decide +kernel) h

theorem intact_builtin : builtin.Intact where
  builtin _ f h := ⟨f, getElem?_families_builtin h, .refl f⟩
  aliases := rfl
  founded _ _ h hkey := absurd (mem_families_builtin.mp (mem_families_of_getElem? h)) hkey

/-- A type that is met for the first time leaves one more family, that has given one name. -/
theorem families_nextName_of_founds {r : Registry} {key : TypeKey} {name : String}
    (h : r.Founds key name) {family : String} {g : Family}
    (hg : (r.nextName key).2.families[family]? = some g) :
    r.families[family]? = some g ∨ family = lowercase key.text ∧ g = (Family.fresh name).pass := by
  have hresolve : r.resolve key =
      (some (lowercase key.text), r.register (lowercase key.text) (.fresh name)) := by
    rw [resolve, h.1, h.2]
  have hnext : (r.nextName key).2 = (r.register (lowercase key.text) (.fresh name)).register
      (lowercase key.text) (Family.fresh name).pass := by
    simp [nextName, hresolve, draw?]
  rw [hnext] at hg
  by_cases hk : family = lowercase key.text
  · subst hk
    exact .inr ⟨rfl, by simpa using hg.symm⟩
  · exact .inl (by simpa [Std.ExtTreeMap.getElem?_insert, Ne.symm hk] using hg)

theorem Intact.nextName {r : Registry} (h : r.Intact) (key : TypeKey) :
    (r.nextName key).2.Intact where
  builtin family f hf := by
    obtain ⟨g, hg, hfg⟩ := h.builtin family f hf
    obtain ⟨g', hg', hgg'⟩ := families_nextName hg key
    exact ⟨g', hg', hfg.trans hgg'⟩
  aliases := by rw [aliases_nextName]; exact h.aliases
  founded family g hg hfamily := by
    by_cases hfounds : ∃ name, r.Founds key name
    · obtain ⟨name, hname⟩ := hfounds
      rcases families_nextName_of_founds hname hg with hold | ⟨rfl, rfl⟩
      · exact h.founded family g hold hfamily
      · exact Family.isFounded_fresh hname.2
    · rcases families_of_nextName hg with ⟨f, hf, hfg⟩ | ⟨_, name, hname, _⟩
      · exact (h.founded family f hf hfamily).passesTo hfg
      · exact absurd ⟨name, hname⟩ hfounds

theorem Intact.after {r : Registry} (h : r.Intact) (keys : List TypeKey) :
    (r.after keys).Intact := by
  induction keys generalizing r with
  | nil => exact h
  | cons key keys ih => exact ih (h.nextName key)

/-! ### Lookups -/

theorem Intact.aliases_eq {r : Registry} (h : r.Intact) : r.aliases = Registry.builtin.aliases :=
  Std.ExtTreeMap.toList_inj.mp h.aliases

/-- What is looked up is there, through the alias, too. -/
theorem Intact.mem_of_resolve {r : Registry} (h : r.Intact) {key : TypeKey} {family : String}
    (hr : (r.resolve key).1 = some family) : family ∈ (r.resolve key).2.families := by
  rw [mem_families_resolve]
  rcases resolve_fst_cases hr with ⟨ht, rfl⟩ | ⟨_, hl, rfl⟩ | ⟨_, _, ha⟩ | ⟨hn, rfl⟩
  · exact .inl ht
  · exact .inl hl
  · rw [h.aliases_eq] at ha
    obtain ⟨_, rfl⟩ := getElem?_aliases_builtin.mp ha
    obtain ⟨g, hg, _⟩ := h.builtin "int" _ List.mem_cons_self
    exact .inl (mem_families_of_getElem? hg)
  · exact .inr ⟨rfl, hn⟩

/-- A type without a family is no array and does not start with a capital. -/
theorem primitive_of_familyName?_eq_none {key : TypeKey} (h : key.shape.familyName? = none) :
    '[' ∉ key.text.toList ∧ ∀ c ∈ key.text.toList.head?, c.isUpper = false := by
  simp only [TypeKey.shape, Shape.ofText] at h
  split_ifs at h with harray hupper
  · cases h
  · cases h
  · refine ⟨harray, fun c hc => ?_⟩
    rw [hc, Option.any_some, Bool.not_eq_true] at hupper
    exact hupper

theorem Intact.primitive_of_source? {r : Registry} (h : r.Intact) {key : TypeKey}
    (hs : r.source? key = none) :
    '[' ∉ key.text.toList ∧ ∀ c ∈ key.text.toList.head?, c.isUpper = false := by
  have hnone : (r.resolve key).1 = none := by
    rw [Option.eq_none_iff_forall_ne_some]
    intro family hr
    obtain ⟨f, hf⟩ : ∃ f, (r.resolve key).2.families[family]? = some f :=
      Option.isSome_iff_exists.mp (Std.ExtTreeMap.isSome_getElem?_iff_mem.mpr (h.mem_of_resolve hr))
    rw [source?_eq_some_iff.mpr ⟨hr, f, hf, rfl⟩] at hs
    cases hs
  rcases resolve_cases r key with ⟨_, _, hr⟩ | ⟨_, _, hr⟩ | ⟨_, hn, _⟩
  · rw [hr] at hnone
    cases hnone
  · rw [hr] at hnone
    cases hnone
  · exact primitive_of_familyName?_eq_none hn

end Registry

/-- At every point of what happens among namers, the registry of each is intact, a family that is
looked up is there, and only types that can have no family are given names without one. -/
theorem namers_intact (moves : List Move) : ∀ n ∈ Move.applyAll moves, n.registry.Intact ∧
    (∀ key family, (n.registry.resolve key).1 = some family →
      family ∈ (n.registry.resolve key).2.families) ∧
    ∀ key, n.registry.source? key = none →
      '[' ∉ key.text.toList ∧ ∀ c ∈ key.text.toList.head?, c.isUpper = false := by
  intro n hn
  obtain ⟨keys, hkeys⟩ := Move.hasDrawn_applyAll moves n hn
  have h : n.registry.Intact := by
    rw [hkeys]
    exact Registry.intact_builtin.after keys
  exact ⟨h, fun _ _ => h.mem_of_resolve, fun _ => h.primitive_of_source?⟩

/-- The second namer goes on after the first one has named an array, and names a long. -/
theorem namers_intact_after_adoption :
    let vars := Request.vars {(⟨1, 0⟩, "Widget[][]"), (⟨2, 0⟩, "java.util.HashMap")}
    let moves := [Move.start .empty "()V" false, .start .empty "(J)V" true, .request 0 vars,
      .adopt 1 0, .request 1 (.parameter .empty "long" "arg0" 1)]
    ∃ n ∈ Move.applyAll moves, n.registry.families["widget[]"]? = some ⟨1, true, "awidget", []⟩ ∧
      n.registry.Intact := by
  intro vars moves
  have hsecond : ((Move.applyAll moves)[1]?.bind fun n => n.registry.families["widget[]"]?) =
      some ⟨1, true, "awidget", []⟩ := by
    decide +kernel
  obtain ⟨n, hn, hwidget⟩ := Option.bind_eq_some_iff.mp hsecond
  have hmem := List.mem_of_getElem? hn
  exact ⟨n, hmem, hwidget, (namers_intact moves n hmem).1⟩

end LocalNames
