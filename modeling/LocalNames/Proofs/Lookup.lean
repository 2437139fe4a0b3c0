import LocalNames.Proofs.Lowercase
import LocalNames.Proofs.RegistrySteps

/-! Whether a type keeps its family. Families are only added, and under lowercase keys, so that
a family found under the key itself or under its lowercase form is found there for good. A
family found through an alias is lost as soon as a family is founded under the aliased key; of
the types of the built-in aliases this can happen to `long` alone. -/

namespace LocalNames

open Text (lowercase)

/-- A use of the families of a scope: a name is drawn for a type, or only its family is looked
up. -/
inductive Visit
  | name (key : TypeKey)
  | family (key : TypeKey)

def Visit.key : Visit → TypeKey
  | name key => key
  | family key => key

/-- A class, other than `Long` itself, that gets a family under the key `long`. -/
def TypeKey.ShadowsLong (key : TypeKey) : Prop :=
  lowercase key.text = "long" ∧ key.text ≠ "Long" ∧ key.shape.familyName?.isSome

instance : DecidablePred TypeKey.ShadowsLong :=
  fun _ => inferInstanceAs (Decidable (_ ∧ _ ∧ _))

namespace Registry

def visit (r : Registry) : Visit → Registry
  | .name key => (r.nextName key).2
  | .family key => (r.resolve key).2

def visits (r : Registry) (vs : List Visit) : Registry :=
  vs.foldl visit r

theorem visits_append (r : Registry) (vs ws : List Visit) :
    r.visits (vs ++ ws) = (r.visits vs).visits ws :=
  List.foldl_append

theorem mem_families_visit {r : Registry} {v : Visit} {family : String} :
    family ∈ (r.visit v).families ↔
      family ∈ r.families ∨ family = lowercase v.key.text ∧ ∃ name, r.Founds v.key name := by
  cases v with
  | name key => exact mem_families_nextName.trans mem_families_resolve
  | family key => exact mem_families_resolve

@[simp]
theorem aliases_visit (r : Registry) (v : Visit) : (r.visit v).aliases = r.aliases := by
  cases v <;> simp [visit]

/-! ### Growth -/

/-- Families have been added under keys that are lowercase forms. -/
structure Grows (r s : Registry) : Prop where
  aliases_eq : s.aliases = r.aliases
  mem_of_mem : ∀ family ∈ r.families, family ∈ s.families
  lowercase_of_mem : ∀ family ∈ s.families, family ∈ r.families ∨ lowercase family = family

namespace Grows

theorem refl (r : Registry) : r.Grows r :=
  ⟨rfl, fun _ => id, fun _ => .inl⟩

theorem trans {r s t : Registry} (h : r.Grows s) (h' : s.Grows t) : r.Grows t where
  aliases_eq := h'.aliases_eq.trans h.aliases_eq
  mem_of_mem family hm := h'.mem_of_mem family (h.mem_of_mem family hm)
  lowercase_of_mem family hm := by
    rcases h'.lowercase_of_mem family hm with hs | hl
    · exact h.lowercase_of_mem family hs
    · exact .inr hl

theorem visit (r : Registry) (v : Visit) : r.Grows (r.visit v) where
  aliases_eq := aliases_visit r v
  mem_of_mem _ hm := mem_families_visit.mpr (.inl hm)
  lowercase_of_mem family hm := by
    rcases mem_families_visit.mp hm with hm | ⟨rfl, _⟩
    · exact .inl hm
    · exact .inr (Text.lowercase_lowercase _)

theorem visits (r : Registry) (vs : List Visit) : r.Grows (r.visits vs) := by
  induction vs generalizing r with
  | nil => exact refl r
  | cons v vs ih => exact (visit r v).trans (ih (r.visit v))

end Grows

/-! ### Lookups in a grown registry -/

/-- The family of the type is one that an alias names. -/
def FindsByAlias (r : Registry) (key : TypeKey) (family : String) : Prop :=
  key.text ∉ r.families ∧ lowercase key.text ∉ r.families ∧ r.aliases[key.text]? = some family

theorem resolve_of_mem {r : Registry} {key : TypeKey} (h : key.text ∈ r.families) :
    (r.resolve key).1 = some key.text := by
  rw [resolve_of_familyOf? (by rw [familyOf?, if_pos h])]

theorem resolve_of_lowercase_mem {r : Registry} {key : TypeKey} (h : key.text ∉ r.families)
    (hl : lowercase key.text ∈ r.families) : (r.resolve key).1 = some (lowercase key.text) := by
  rw [resolve_of_familyOf? (by rw [familyOf?, if_neg h, if_pos hl])]

theorem FindsByAlias.resolve {r : Registry} {key : TypeKey} {family : String}
    (h : r.FindsByAlias key family) : (r.resolve key).1 = some family := by
  rw [resolve_of_familyOf? (by rw [familyOf?, if_neg h.1, if_neg h.2.1, h.2.2])]

/-- The ways in which a type comes to a family. -/
theorem resolve_fst_cases {r : Registry} {key : TypeKey} {family : String}
    (h : (r.resolve key).1 = some family) :
    (key.text ∈ r.families ∧ family = key.text) ∨
    (key.text ∉ r.families ∧ lowercase key.text ∈ r.families ∧ family = lowercase key.text) ∨
    r.FindsByAlias key family ∨
    (∃ name, r.Founds key name) ∧ family = lowercase key.text := by
  by_cases ht : key.text ∈ r.families
  · rw [resolve_of_mem ht, Option.some_inj] at h
    exact .inl ⟨ht, h.symm⟩
  by_cases hl : lowercase key.text ∈ r.families
  · rw [resolve_of_lowercase_mem ht hl, Option.some_inj] at h
    exact .inr (.inl ⟨ht, hl, h.symm⟩)
  rcases resolve_cases r key with ⟨k, hk, hr⟩ | ⟨name, hn, hr⟩ | ⟨_, _, hr⟩
  · rw [familyOf?, if_neg ht, if_neg hl] at hk
    rw [hr, Option.some_inj] at h
    exact .inr (.inr (.inl ⟨ht, hl, h ▸ hk⟩))
  · rw [hr, Option.some_inj] at h
    exact .inr (.inr (.inr ⟨⟨name, hn⟩, h.symm⟩))
  · rw [hr] at h
    cases h

/-- A family that is not named by an alias is kept. -/
theorem Grows.resolve {r s : Registry} (hg : r.Grows s) {key : TypeKey} {family : String}
    (h : (r.resolve key).1 = some family) (ha : ¬r.FindsByAlias key family) :
    (s.resolve key).1 = some family := by
  rcases resolve_fst_cases h with ⟨ht, rfl⟩ | ⟨ht, hl, rfl⟩ | h | ⟨⟨name, hn⟩, rfl⟩
  · exact resolve_of_mem (hg.mem_of_mem _ ht)
  · refine resolve_of_lowercase_mem (fun hs => ?_) (hg.mem_of_mem _ hl)
    -- a key added later is lowercase, and then both keys of this type are one
    rcases hg.lowercase_of_mem _ hs with hr | he
    · exact ht hr
    · exact ht (he ▸ hl)
  · exact absurd h ha
  · obtain ⟨ht, hl, hnone⟩ := familyOf?_eq_none.mp hn.1
    by_cases hs : key.text ∈ s.families
    · have he := (hg.lowercase_of_mem _ hs).resolve_left ht
      rw [resolve_of_mem hs, he]
    by_cases hsl : lowercase key.text ∈ s.families
    · exact resolve_of_lowercase_mem hs hsl
    have hf : s.familyOf? key = none :=
      familyOf?_eq_none.mpr ⟨hs, hsl, by rw [hg.aliases_eq, hnone]⟩
    rw [Registry.resolve, hf, hn.2]

/-! ### From the built-in families -/

theorem mem_families_builtin {family : String} :
    family ∈ builtin.families ↔ family ∈ builtinFamilies.map (·.1) := by
  rw [builtin, Std.ExtTreeMap.mem_ofList, List.contains_iff_mem]

theorem getElem?_aliases_builtin {source target : String} :
    builtin.aliases[source]? = some target ↔ source = "long" ∧ target = "int" := by
  have ha : builtin.aliases = (∅ : Std.ExtTreeMap String String).insert "long" "int" := rfl
  rw [ha, Std.ExtTreeMap.getElem?_insert]
  by_cases hs : source = "long"
  · simp [hs, eq_comm]
  · simp [hs, Ne.symm hs]

theorem lowercase_long : lowercase "long" = "long" := by
  decide +kernel

/-- Of the built-in families only that of `Long` has a key that is `long` in lowercase. -/
theorem eq_of_lowercase_builtin_eq_long : ∀ family ∈ builtinFamilies.map (·.1),
    lowercase family = "long" → family = "Long" := by
  decide +kernel

theorem findsByAlias_iff {r : Registry} (hg : builtin.Grows r) {key : TypeKey} {family : String} :
    r.FindsByAlias key family ↔ key.text = "long" ∧ "long" ∉ r.families ∧ family = "int" := by
  unfold FindsByAlias
  rw [hg.aliases_eq, getElem?_aliases_builtin]
  constructor
  · rintro ⟨ht, _, hl, hi⟩
    exact ⟨hl, hl ▸ ht, hi⟩
  · rintro ⟨hl, ht, hi⟩
    rw [hl, lowercase_long]
    exact ⟨ht, ht, rfl, hi⟩

/-- A type gets the family under the key `long` when it shadows `long`, the first time. -/
theorem founds_long_iff {r : Registry} (hg : builtin.Grows r) {key : TypeKey}
    (hr : "long" ∉ r.families) :
    ("long" = lowercase key.text ∧ ∃ name, r.Founds key name) ↔ key.ShadowsLong := by
  constructor
  · rintro ⟨hl, name, hf, hn⟩
    refine ⟨hl.symm, fun he => ?_, by rw [hn]; rfl⟩
    have hm : "Long" ∈ r.families := hg.mem_of_mem _ (mem_families_builtin.mpr (by decide))
    exact (familyOf?_eq_none.mp hf).1 (he ▸ hm)
  · rintro ⟨hl, hne, hs⟩
    obtain ⟨name, hn⟩ := Option.isSome_iff_exists.mp hs
    have hlong : key.text ≠ "long" := by
      intro he
      have hnone : (Shape.ofText "long").familyName? = none := by decide
      rw [TypeKey.shape, he, hnone] at hn
      cases hn
    refine ⟨hl.symm, name, familyOf?_eq_none.mpr ⟨fun hm => ?_, hl ▸ hr, ?_⟩, hn⟩
    · rcases hg.lowercase_of_mem _ hm with hb | he
      · exact hne (eq_of_lowercase_builtin_eq_long _ (mem_families_builtin.mp hb) hl)
      · exact hlong (he.symm.trans hl)
    · rw [hg.aliases_eq, Option.eq_none_iff_forall_ne_some]
      exact fun target ha => hlong (getElem?_aliases_builtin.mp ha).1

theorem mem_long_visits {r : Registry} (hg : builtin.Grows r) (vs : List Visit) :
    "long" ∈ (r.visits vs).families ↔ "long" ∈ r.families ∨ ∃ v ∈ vs, v.key.ShadowsLong := by
  induction vs generalizing r with
  | nil => simp [visits]
  | cons v vs ih =>
    have hstep : "long" ∈ (r.visit v).families ↔ "long" ∈ r.families ∨ v.key.ShadowsLong := by
      rw [mem_families_visit]
      by_cases hr : "long" ∈ r.families
      · simp [hr]
      · rw [founds_long_iff hg hr]
    rw [visits, List.foldl_cons]
    refine (ih (hg.trans (.visit r v))).trans ?_
    simp only [hstep, or_assoc, List.mem_cons, exists_eq_or_imp]

/-- A type keeps its family in every scope that starts from the built-in families, except that
`long` leaves that of `int` when a class is met that is `long` in other letters than `Long`. -/
theorem keeps_family_iff (past later : List Visit) (key : TypeKey) (family : String)
    (h : ((builtin.visits past).resolve key).1 = some family) :
    ((builtin.visits (past ++ later)).resolve key).1 = some family ↔
      ¬(key.text = "long" ∧ family = "int" ∧ ∃ v ∈ later, v.key.ShadowsLong) := by
  have hr : builtin.Grows (builtin.visits past) := .visits _ _
  have hs : (builtin.visits past).Grows (builtin.visits (past ++ later)) := by
    rw [visits_append]; exact .visits _ _
  by_cases ha : (builtin.visits past).FindsByAlias key family
  · obtain ⟨hl, hm, hi⟩ := (findsByAlias_iff hr).mp ha
    have hlong := mem_long_visits hr later
    rw [← visits_append, or_iff_right hm] at hlong
    by_cases hshadow : ∃ v ∈ later, v.key.ShadowsLong
    · have hmem := hl.symm ▸ hlong.mpr hshadow
      rw [resolve_of_mem hmem, hl, hi]
      simp [hshadow]
    · have hfinds : (builtin.visits (past ++ later)).FindsByAlias key family :=
        (findsByAlias_iff (hr.trans hs)).mpr ⟨hl, mt hlong.mp hshadow, hi⟩
      simp [hfinds.resolve, hshadow]
  · have hno : ¬(key.text = "long" ∧ family = "int") := by
      rintro ⟨hl, hi⟩
      by_cases hm : "long" ∈ (builtin.visits past).families
      · rw [resolve_of_mem (hl.symm ▸ hm), hl, hi] at h
        revert h
        decide
      · exact ha ((findsByAlias_iff hr).mpr ⟨hl, hm, hi⟩)
    simp only [hs.resolve h ha, true_iff]
    exact fun ⟨hl, hi, _⟩ => hno ⟨hl, hi⟩

/-- Other classes, `Long` among them, leave `long` where it is. -/
theorem long_keeps_family :
    ((builtin.visits [.name (.ofType "int")]).resolve (.ofType "long")).1 = some "int" ∧
      ((builtin.visits ([.name (.ofType "int")] ++
          [.name (.ofType "java.util.HashMap"), .name (.ofType "Long")])).resolve
        (.ofType "long")).1 = some "int" := by
  have h : ((builtin.visits [.name (.ofType "int")]).resolve (.ofType "long")).1 = some "int" := by
    decide +kernel
  exact ⟨h, (keeps_family_iff _ _ _ _ h).mpr (by decide +kernel)⟩

/-- It is not true that every type keeps its family: `LONG` takes `long` away from `int`. -/
theorem long_loses_family :
    ¬∀ (past later : List Visit) (key : TypeKey) (family : String),
      ((builtin.visits past).resolve key).1 = some family →
        ((builtin.visits (past ++ later)).resolve key).1 = some family := by
  intro h
  have hlong := h [.name (.ofType "int")] [.name (.ofType "LONG")] (.ofType "long") "int"
    (by decide +kernel)
  revert hlong
  decide +kernel

end Registry

end LocalNames
