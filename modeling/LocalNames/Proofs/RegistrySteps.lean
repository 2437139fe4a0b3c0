import LocalNames.Registry

/-! What looking up a family and drawing a name can do to a registry: the one founds a family
under a key that had none, the other passes one name of a family. Everything else stays. -/

namespace LocalNames.Registry

open Text (lowercase)

/-! ### Looking up -/

theorem familyOf?_eq_none {r : Registry} {key : TypeKey} :
    r.familyOf? key = none ↔ key.text ∉ r.families ∧ lowercase key.text ∉ r.families ∧
      r.aliases[key.text]? = none := by
  unfold familyOf?
  split
  · simp_all
  · split <;> simp_all

/-- The type is met for the first time, and a family after `name` is made for it. -/
def Founds (r : Registry) (key : TypeKey) (name : String) : Prop :=
  r.familyOf? key = none ∧ key.shape.familyName? = some name

theorem Founds.not_mem {r : Registry} {key : TypeKey} {name : String} (h : r.Founds key name) :
    lowercase key.text ∉ r.families :=
  (familyOf?_eq_none.mp h.1).2.1

theorem resolve_cases (r : Registry) (key : TypeKey) :
    (∃ family, r.familyOf? key = some family ∧ r.resolve key = (some family, r)) ∨
    (∃ name, r.Founds key name ∧ r.resolve key =
      (some (lowercase key.text), r.register (lowercase key.text) (.fresh name))) ∨
    (r.familyOf? key = none ∧ key.shape.familyName? = none ∧ r.resolve key = (none, r)) := by
  unfold resolve
  cases hf : r.familyOf? key with
  | some family => exact .inl ⟨family, rfl, rfl⟩
  | none =>
    cases hn : key.shape.familyName? with
    | some name => exact .inr (.inl ⟨name, ⟨hf, hn⟩, rfl⟩)
    | none => exact .inr (.inr ⟨rfl, rfl, rfl⟩)

theorem mem_families_resolve {r : Registry} {key : TypeKey} {family : String} :
    family ∈ (r.resolve key).2.families ↔
      family ∈ r.families ∨ family = lowercase key.text ∧ ∃ name, r.Founds key name := by
  rcases resolve_cases r key with ⟨_, hf, h⟩ | ⟨name, hn, h⟩ | ⟨_, hn, h⟩ <;> rw [h]
  · simp [Founds, hf]
  · have : ∃ name, r.Founds key name := ⟨name, hn⟩
    simp only [families_register, Std.ExtTreeMap.mem_insert, Std.LawfulEqOrd.compare_eq_iff_eq,
      this, and_true]
    rw [or_comm, eq_comm]
  · simp [Founds, hn]

theorem getElem?_families_resolve {r : Registry} {family : String} {f : Family}
    (h : r.families[family]? = some f) (key : TypeKey) :
    (r.resolve key).2.families[family]? = some f := by
  rcases resolve_cases r key with ⟨_, _, hr⟩ | ⟨name, hn, hr⟩ | ⟨_, _, hr⟩ <;> rw [hr]
  · exact h
  · have hne : lowercase key.text ≠ family := by
      rintro rfl
      rw [Std.ExtTreeMap.getElem?_eq_none hn.not_mem] at h
      cases h
    simpa [Std.ExtTreeMap.getElem?_insert, hne] using h
  · exact h

theorem families_of_resolve {r : Registry} {key : TypeKey} {family : String} {f : Family}
    (h : (r.resolve key).2.families[family]? = some f) :
    r.families[family]? = some f ∨
      family ∉ r.families ∧ ∃ name, r.Founds key name ∧ f = .fresh name := by
  rcases resolve_cases r key with ⟨_, _, hr⟩ | ⟨name, hn, hr⟩ | ⟨_, _, hr⟩ <;> rw [hr] at h
  · exact .inl h
  · rw [families_register, Std.ExtTreeMap.getElem?_insert] at h
    split at h
    next he =>
      obtain rfl := Std.LawfulEqOrd.compare_eq_iff_eq.mp he
      exact .inr ⟨hn.not_mem, name, hn, (Option.some_inj.mp h).symm⟩
    next => exact .inl h
  · exact .inl h

/-! ### Drawing -/

/-- A name comes from the family that is looked up, or the type names the variable itself and
nothing changes. -/
theorem nextName_cases (r : Registry) (key : TypeKey) :
    (∃ family f, (r.resolve key).1 = some family ∧
      (r.resolve key).2.families[family]? = some f ∧
      r.nextName key = (f.peek, (r.resolve key).2.register family f.pass)) ∨
    ((∀ family, (r.resolve key).1 = some family → (r.resolve key).2.families[family]? = none) ∧
      r.nextName key = (lowercase key.text, r)) := by
  have hr := resolve_cases r key
  unfold nextName
  rcases hr with ⟨family, hf, h⟩ | ⟨name, hn, h⟩ | ⟨_, _, h⟩ <;> rw [h]
  · cases hg : r.families[family]? with
    | some f => exact .inl ⟨family, f, rfl, hg, by simp [draw?, hg]⟩
    | none => exact .inr ⟨by rintro _ ⟨⟩; exact hg, by simp [draw?, hg]⟩
  · exact .inl ⟨_, .fresh name, rfl, by simp, by simp [draw?]⟩
  · exact .inr ⟨by simp, rfl⟩

theorem mem_families_nextName {r : Registry} {key : TypeKey} {family : String} :
    family ∈ (r.nextName key).2.families ↔ family ∈ (r.resolve key).2.families := by
  rcases nextName_cases r key with ⟨k, f, _, hg, h⟩ | ⟨hnone, h⟩ <;> rw [h]
  · have hk : k ∈ (r.resolve key).2.families := by
      rw [← Std.ExtTreeMap.isSome_getElem?_iff_mem, hg]; rfl
    simp only [families_register, Std.ExtTreeMap.mem_insert, Std.LawfulEqOrd.compare_eq_iff_eq]
    exact ⟨fun hm => hm.elim (fun he => he ▸ hk) id, .inr⟩
  · rcases resolve_cases r key with ⟨_, _, hr⟩ | ⟨name, _, hr⟩ | ⟨_, _, hr⟩ <;> rw [hr] at hnone ⊢
    simp at hnone

end LocalNames.Registry
