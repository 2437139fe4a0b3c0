import LocalNames.Proofs.RegistrySteps

/-! Names drawn one after the other from one registry, each with the family and the position it
comes from. A family keeps its names and only moves on in them, so that no position of a family
is ever drawn twice. -/

namespace LocalNames

/-- One name handed out. -/
structure Draw where
  name : String
  /-- The key of the family that gives the name, and the position in it. There is none if the type
  names the variable itself. -/
  source : Option (String × Nat)
  deriving DecidableEq

namespace Registry

/-- Where the next name for a type comes from. -/
def source? (r : Registry) (key : TypeKey) : Option (String × Nat) :=
  let (family?, resolved) := r.resolve key
  family?.bind fun family => (resolved.families[family]?).map fun f => (family, f.index)

/-- The draws for types in a row. -/
def draws (r : Registry) : List TypeKey → List Draw
  | [] => []
  | key :: keys => ⟨(r.nextName key).1, r.source? key⟩ :: (r.nextName key).2.draws keys

/-- The registry as it stands after draws for types in a row. -/
def after (r : Registry) : List TypeKey → Registry
  | [] => r
  | key :: keys => (r.nextName key).2.after keys

theorem draws_append (r : Registry) (keys more : List TypeKey) :
    r.draws (keys ++ more) = r.draws keys ++ (r.after keys).draws more := by
  induction keys generalizing r with
  | nil => rfl
  | cons key keys ih => simp only [List.cons_append, draws, after, ih]

theorem after_append (r : Registry) (keys more : List TypeKey) :
    r.after (keys ++ more) = (r.after keys).after more := by
  induction keys generalizing r with
  | nil => rfl
  | cons key keys ih => simp only [List.cons_append, after, ih]

@[simp]
theorem length_draws (r : Registry) (keys : List TypeKey) :
    (r.draws keys).length = keys.length := by
  induction keys generalizing r with
  | nil => rfl
  | cons key keys ih => simp only [draws, List.length_cons, ih]

end Registry

/-! ### One draw -/

/-- The second family is the first after some of its names have been passed. -/
def Family.PassesTo (f g : Family) : Prop :=
  f.index ≤ g.index ∧ g = { f with index := g.index }

namespace Family.PassesTo

theorem refl (f : Family) : f.PassesTo f :=
  ⟨Nat.le_refl _, rfl⟩

theorem pass (f : Family) : f.PassesTo f.pass :=
  ⟨Nat.le_succ _, rfl⟩

theorem trans {f g h : Family} (hfg : f.PassesTo g) (hgh : g.PassesTo h) : f.PassesTo h := by
  refine ⟨Nat.le_trans hfg.1 hgh.1, ?_⟩
  have hg := hgh.2
  rw [hfg.2] at hg
  exact hg

theorem nameAt_eq {f g : Family} (h : f.PassesTo g) : g.nameAt = f.nameAt := by
  rw [h.2]; rfl

theorem candidates_eq {f g : Family} (h : f.PassesTo g) : g.candidates = f.candidates := by
  rw [h.2]; rfl

end Family.PassesTo

namespace Registry

theorem source?_eq_some_iff {r : Registry} {key : TypeKey} {family : String} {i : Nat} :
    r.source? key = some (family, i) ↔ (r.resolve key).1 = some family ∧
      ∃ f, (r.resolve key).2.families[family]? = some f ∧ f.index = i := by
  unfold source?
  obtain ⟨family?, resolved⟩ := r.resolve key
  cases family? with
  | none => simp
  | some k =>
    simp only [Option.bind_some, Option.map_eq_some_iff, Prod.mk.injEq, Option.some_inj]
    constructor
    · rintro ⟨f, hf, rfl, hi⟩
      exact ⟨rfl, f, hf, hi⟩
    · rintro ⟨rfl, f, hf, hi⟩
      exact ⟨f, hf, rfl, hi⟩

theorem families_nextName {r : Registry} {family : String} {f : Family}
    (h : r.families[family]? = some f) (key : TypeKey) :
    ∃ g, (r.nextName key).2.families[family]? = some g ∧ f.PassesTo g := by
  have hres := getElem?_families_resolve h key
  rcases nextName_cases r key with ⟨k, f', _, hf', hn⟩ | ⟨_, hn⟩ <;> rw [hn]
  · by_cases hk : k = family
    · subst hk
      rw [hres, Option.some_inj] at hf'
      subst hf'
      exact ⟨f.pass, by simp, .pass f⟩
    · exact ⟨f, by simpa [Std.ExtTreeMap.getElem?_insert, hk] using hres, .refl f⟩
  · exact ⟨f, h, .refl f⟩

/-- A family has been there before, or is founded by the draw. -/
theorem families_of_nextName {r : Registry} {key : TypeKey} {family : String} {g : Family}
    (h : (r.nextName key).2.families[family]? = some g) :
    (∃ f, r.families[family]? = some f ∧ f.PassesTo g) ∨
      family ∉ r.families ∧ ∃ name, r.Founds key name ∧ (Family.fresh name).PassesTo g := by
  have hres : ∃ f, (r.resolve key).2.families[family]? = some f ∧ f.PassesTo g := by
    rcases nextName_cases r key with ⟨k, f, _, hf, hn⟩ | ⟨_, hn⟩ <;> rw [hn] at h
    · rw [families_register, Std.ExtTreeMap.getElem?_insert] at h
      split at h
      next he =>
        obtain rfl := Std.LawfulEqOrd.compare_eq_iff_eq.mp he
        exact ⟨f, hf, Option.some_inj.mp h ▸ .pass f⟩
      next => exact ⟨g, h, .refl g⟩
    · exact ⟨g, getElem?_families_resolve h key, .refl g⟩
  obtain ⟨f, hf, hfg⟩ := hres
  rcases families_of_resolve hf with hf | ⟨hm, name, hn, rfl⟩
  · exact .inl ⟨f, hf, hfg⟩
  · exact .inr ⟨hm, name, hn, hfg⟩

/-- A family gives the name at its index and moves on. -/
theorem nextName_of_source? {r : Registry} {key : TypeKey} {family : String} {i : Nat}
    (h : r.source? key = some (family, i)) :
    ∃ f, (r.nextName key).2.families[family]? = some f ∧ f.index = i + 1 ∧
      f.nameAt i = (r.nextName key).1 ∧ ∀ g, r.families[family]? = some g → g.index = i := by
  obtain ⟨hk, f, hf, rfl⟩ := source?_eq_some_iff.mp h
  rcases nextName_cases r key with ⟨k, f', hk', hf', hn⟩ | ⟨hnone, _⟩
  · rw [hk, Option.some_inj] at hk'
    subst hk'
    rw [hf, Option.some_inj] at hf'
    subst hf'
    rw [hn]
    refine ⟨f.pass, by simp, rfl, rfl, fun g hg => ?_⟩
    rw [getElem?_families_resolve hg key, Option.some_inj] at hf
    rw [hf]
  · rw [hnone family hk] at hf
    cases hf

/-! ### Many draws -/

theorem families_after {r : Registry} {family : String} {f : Family}
    (h : r.families[family]? = some f) (keys : List TypeKey) :
    ∃ g, (r.after keys).families[family]? = some g ∧ f.PassesTo g := by
  induction keys generalizing r f with
  | nil => exact ⟨f, h, .refl f⟩
  | cons key keys ih =>
    obtain ⟨g, hg, hfg⟩ := families_nextName h key
    obtain ⟨g', hg', hgg'⟩ := ih hg
    exact ⟨g', hg', hfg.trans hgg'⟩

/-- A family has been there from the start, or was founded on the way. -/
theorem families_of_after {r : Registry} {keys : List TypeKey} {family : String} {g : Family}
    (h : (r.after keys).families[family]? = some g) :
    (∃ f, r.families[family]? = some f ∧ f.PassesTo g) ∨
      family ∉ r.families ∧ ∃ name, (Family.fresh name).PassesTo g := by
  induction keys generalizing r with
  | nil => exact .inl ⟨g, h, .refl g⟩
  | cons key keys ih =>
    rcases ih h with ⟨f, hf, hfg⟩ | ⟨hm, hfresh⟩
    · rcases families_of_nextName hf with ⟨f', hf', hff'⟩ | ⟨hm, name, _, hn⟩
      · exact .inl ⟨f', hf', hff'.trans hfg⟩
      · exact .inr ⟨hm, name, hn.trans hfg⟩
    · refine .inr ⟨fun hr => hm ?_, hfresh⟩
      exact mem_families_nextName.mpr (mem_families_resolve.mpr (.inl hr))

/-- The family of a draw is there in the end, and has passed the position of the draw. -/
theorem family_of_mem_draws {r : Registry} {keys : List TypeKey} {d : Draw}
    (hd : d ∈ r.draws keys) {family : String} {i : Nat} (hs : d.source = some (family, i)) :
    ∃ f, (r.after keys).families[family]? = some f ∧ i < f.index ∧ f.nameAt i = d.name := by
  induction keys generalizing r with
  | nil => cases hd
  | cons key keys ih =>
    rcases List.mem_cons.mp hd with rfl | hd
    · obtain ⟨f, hf, hi, hname, _⟩ := nextName_of_source? hs
      obtain ⟨g, hg, hfg⟩ := families_after hf keys
      refine ⟨g, hg, ?_, ?_⟩
      · have := hfg.1
        omega
      · rw [hfg.nameAt_eq, hname]
    · exact ih hd

/-- What a family has passed is not drawn again. -/
theorem index_le_of_mem_draws {r : Registry} {keys : List TypeKey} {d : Draw}
    (hd : d ∈ r.draws keys) {family : String} {i : Nat} (hs : d.source = some (family, i))
    {f : Family} (hf : r.families[family]? = some f) : f.index ≤ i := by
  induction keys generalizing r f with
  | nil => cases hd
  | cons key keys ih =>
    rcases List.mem_cons.mp hd with rfl | hd
    · obtain ⟨_, _, _, _, hindex⟩ := nextName_of_source? hs
      exact Nat.le_of_eq (hindex f hf)
    · obtain ⟨g, hg, hfg⟩ := families_nextName hf key
      exact Nat.le_trans hfg.1 (ih hd hg)

/-- No two draws come from the same position of a family. -/
theorem draws_pairwise (r : Registry) (keys : List TypeKey) :
    (r.draws keys).Pairwise fun d e => ∀ s, d.source = some s → e.source ≠ some s := by
  induction keys generalizing r with
  | nil => exact .nil
  | cons key keys ih =>
    refine .cons ?_ (ih _)
    rintro e he ⟨family, i⟩ hd hs
    obtain ⟨f, hf, hi, _, _⟩ := nextName_of_source? hd
    have := index_le_of_mem_draws he hs hf
    omega

end Registry

end LocalNames
