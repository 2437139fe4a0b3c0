import LocalNames.Proofs.Names
import LocalNames.Proofs.Replay

/-! When all names of a registry are different. It is enough that no candidate is another one,
or another one with a number behind it; the built-in families are such. -/

namespace LocalNames

namespace Family

/-- Two positions of one family at which the same candidate stands have different names. -/
theorem eq_of_meets_of_mod_eq {f : Family} {i j : Nat} (h : f.Meets i f j)
    (hm : i % f.candidates.length = j % f.candidates.length) : i = j := by
  have hc : f.candidateAt i = f.candidateAt j := by simp only [candidateAt, hm]
  have hlong : ∀ (b : String) (n : Nat), b ≠ b ++ toString n := by
    intro b n he
    rw [← String.toList_inj, String.toList_append, Nat.toString_eq_repr, Nat.toList_repr,
      List.self_eq_append_right] at he
    exact Nat.toDigits_ne_nil he
  rcases h with ⟨_, hw⟩ | ⟨n, _, hn, _⟩ | ⟨n, _, hn, _⟩
  · rw [← Nat.div_add_mod i f.candidates.length, hm, round_eq_of_written?_eq hw, Nat.div_add_mod]
  · exact absurd (hc.trans hn) (hlong _ n)
  · exact absurd (hc.symm.trans hn) (hlong _ n)

end Family

/-! ### Separated registries -/

/-- The names that come from families. -/
def Draw.familyNames (draws : List Draw) : List String :=
  (draws.filter (·.source.isSome)).map (·.name)

namespace Registry

/-- `place` is the key of a family and the position of a candidate there. -/
def HasCandidate (r : Registry) (place : String × Nat) (candidate : String) : Prop :=
  ∃ f, r.families[place.1]? = some f ∧ f.candidates[place.2]? = some candidate

/-- No candidate is the candidate at another place, or that with a number behind it. -/
def Separated (r : Registry) : Prop :=
  ∀ ⦃place other : String × Nat⦄ ⦃b c : String⦄, r.HasCandidate place b → r.HasCandidate other c →
    place ≠ other → c ≠ b ∧ ∀ n : Nat, c ≠ b ++ toString n

theorem hasCandidate_candidateAt {r : Registry} {family : String} {f : Family}
    (h : r.families[family]? = some f) (i : Nat) :
    r.HasCandidate (family, i % f.candidates.length) (f.candidateAt i) := by
  refine ⟨f, h, ?_⟩
  rw [List.getElem?_eq_getElem (Nat.mod_lt _ f.candidates_length_pos)]
  rfl

theorem Separated.nameAt_ne {r : Registry} (hr : r.Separated) {k l : String} {f g : Family}
    (hf : r.families[k]? = some f) (hg : r.families[l]? = some g) {i j : Nat}
    (hne : (k, i) ≠ (l, j)) : f.nameAt i ≠ g.nameAt j := by
  intro he
  have hmeets := Family.nameAt_eq_iff.mp he
  by_cases hplace : (k, i % f.candidates.length) = (l, j % g.candidates.length)
  · obtain ⟨rfl, hmod⟩ := Prod.mk.inj hplace
    rw [hf, Option.some_inj] at hg
    subst hg
    exact hne (by rw [Family.eq_of_meets_of_mod_eq hmeets hmod])
  · have hb := hasCandidate_candidateAt hf i
    have hc := hasCandidate_candidateAt hg j
    rcases hmeets with ⟨hbc, _⟩ | ⟨n, _, hn, _⟩ | ⟨n, _, hn, _⟩
    · exact (hr hb hc hplace).1 hbc.symm
    · exact (hr hb hc hplace).2 n hn
    · exact (hr hc hb (Ne.symm hplace)).2 n hn

/-- Names are different when they are drawn from families that a separated registry has too,
though at other positions. -/
theorem Separated.nodup {s r : Registry} {keys : List TypeKey} (hs : s.Separated)
    (hkeep : ∀ (k : String) (f : Family), s.families[k]? = some f →
      ∃ g, (r.after keys).families[k]? = some g ∧ f.PassesTo g) {p : Draw → Bool}
    (hp : ∀ d ∈ r.draws keys, p d = true →
      ∃ k i f, d.source = some (k, i) ∧ s.families[k]? = some f) :
    (((r.draws keys).filter p).map (·.name)).Nodup := by
  have hname : ∀ d ∈ r.draws keys, ∀ (k : String) (i : Nat) (f : Family), d.source = some (k, i) →
      s.families[k]? = some f → f.nameAt i = d.name := by
    intro d hd k i f hk hf
    obtain ⟨g, hg, hfg⟩ := hkeep k f hf
    obtain ⟨g', hg', _, hn⟩ := family_of_mem_draws hd hk
    rw [hg, Option.some_inj] at hg'
    rw [← hn, ← hg', hfg.nameAt_eq]
  rw [List.Nodup, List.pairwise_map, List.pairwise_filter]
  refine (draws_pairwise r keys).imp_of_mem ?_
  intro d e hd he hne hpd hpe
  obtain ⟨k, i, f, hk, hf⟩ := hp d hd hpd
  obtain ⟨l, j, g, hl, hg⟩ := hp e he hpe
  have hplace : (k, i) ≠ (l, j) := fun heq => hne _ hk (heq ▸ hl)
  rw [← hname d hd k i f hk hf, ← hname e he l j g hl hg]
  exact hs.nameAt_ne hf hg hplace

/-- Draws from the families of a separated registry have different names. -/
theorem Separated.familyNames_nodup {r : Registry} {keys : List TypeKey}
    (hr : (r.after keys).Separated) : (Draw.familyNames (r.draws keys)).Nodup := by
  refine hr.nodup (fun k f hf => ⟨f, hf, .refl f⟩) fun d hd hs => ?_
  obtain ⟨⟨k, i⟩, hk⟩ := Option.isSome_iff_exists.mp hs
  obtain ⟨f, hf, _, _⟩ := family_of_mem_draws hd hk
  exact ⟨k, i, f, hk, hf⟩

/-- All candidates with their places. -/
def candidates (r : Registry) : List ((String × Nat) × String) :=
  r.families.toList.flatMap fun (family, f) =>
    f.candidates.zipIdx.map fun (c, p) => ((family, p), c)

theorem HasCandidate.mem_candidates {r : Registry} {place : String × Nat} {c : String}
    (h : r.HasCandidate place c) : (place, c) ∈ r.candidates := by
  obtain ⟨f, hf, hc⟩ := h
  rw [candidates, List.mem_flatMap]
  refine ⟨(place.1, f), Std.ExtTreeMap.mem_toList_iff_getElem?_eq_some.mpr hf, ?_⟩
  exact List.mem_map.mpr ⟨(c, place.2), List.mem_zipIdx_iff_getElem?.mpr hc, rfl⟩

/-- It is enough that all candidates are different and have no digits. -/
theorem separated_of_no_digit {r : Registry}
    (hne : ∀ a ∈ r.candidates, ∀ b ∈ r.candidates, a.1 ≠ b.1 → b.2 ≠ a.2)
    (hdigit : ∀ a ∈ r.candidates, a.2.toList.any (·.isDigit) = false) : r.Separated := by
  intro place other b c hb hc hplace
  refine ⟨hne _ hb.mem_candidates _ hc.mem_candidates hplace, fun n he => ?_⟩
  obtain ⟨d, hd⟩ := List.exists_mem_of_ne_nil _ (Nat.toDigits_ne_nil (n := n) (b := 10))
  have hmem : d ∈ c.toList := by
    rw [he, String.toList_append, Nat.toString_eq_repr, Nat.toList_repr]
    exact List.mem_append_right _ hd
  have hno := List.any_eq_false.mp (hdigit _ hc.mem_candidates) d hmem
  exact hno (Nat.isDigit_of_mem_toDigits (by decide) (by decide) hd)

end Registry

/-! ### The built-in families -/

namespace Draw

/-- The name comes from a built-in family. -/
def isBuiltin (d : Draw) : Bool :=
  d.source.any (Registry.builtin.families.contains ·.1)

theorem exists_of_isBuiltin {d : Draw} (h : d.isBuiltin = true) :
    ∃ k i f, d.source = some (k, i) ∧ Registry.builtin.families[k]? = some f := by
  obtain ⟨⟨k, i⟩, hs, hk⟩ := (Option.any_eq_true _ _).mp h
  rw [Std.ExtTreeMap.contains_eq_isSome_getElem?] at hk
  obtain ⟨f, hf⟩ := Option.isSome_iff_exists.mp hk
  exact ⟨k, i, f, hs, hf⟩

/-- The names that come from built-in families. -/
def builtinNames (draws : List Draw) : List String :=
  (draws.filter (·.isBuiltin)).map (·.name)

end Draw

namespace Registry

theorem builtin_separated : builtin.Separated :=
  separated_of_no_digit (by decide +kernel) (by decide +kernel)

/-- A family that has been built in or founded since has no name twice. -/
theorem eq_of_nameAt_eq {keys : List TypeKey} {family : String} {f : Family}
    (hf : (builtin.after keys).families[family]? = some f) {i j : Nat}
    (h : f.nameAt i = f.nameAt j) : i = j := by
  rcases families_of_after hf with ⟨g, hg, hgf⟩ | ⟨_, name, hfresh⟩
  · rw [hgf.nameAt_eq] at h
    refine Decidable.byContradiction fun hne => ?_
    exact builtin_separated.nameAt_ne hg hg (fun he => hne (Prod.mk.inj he).2) h
  · refine Family.eq_of_meets_of_mod_eq (Family.nameAt_eq_iff.mp h) ?_
    rw [hfresh.candidates_eq, show (Family.fresh name).candidates.length = 1 from rfl, Nat.mod_one,
      Nat.mod_one]

/-- When two draws have the same name. -/
theorem draws_name_eq_iff {keys : List TypeKey} {d e : Draw} (hd : d ∈ builtin.draws keys)
    (he : e ∈ builtin.draws keys) {k l : String} {i j : Nat} (hk : d.source = some (k, i))
    (hl : e.source = some (l, j)) (hne : (k, i) ≠ (l, j)) :
    d.name = e.name ↔ k ≠ l ∧ ∃ f g, (builtin.after keys).families[k]? = some f ∧
      (builtin.after keys).families[l]? = some g ∧ f.Meets i g j := by
  obtain ⟨f, hf, _, hfname⟩ := family_of_mem_draws hd hk
  obtain ⟨g, hg, _, hgname⟩ := family_of_mem_draws he hl
  rw [← hfname, ← hgname]
  constructor
  · intro h
    refine ⟨fun hkl => ?_, f, g, hf, hg, Family.nameAt_eq_iff.mp h⟩
    subst hkl
    rw [hf, Option.some_inj] at hg
    subst hg
    exact hne (by rw [eq_of_nameAt_eq hf h])
  · rintro ⟨_, f', g', hf', hg', hm⟩
    rw [hf, Option.some_inj] at hf'
    rw [hg, Option.some_inj] at hg'
    subst hf' hg'
    exact Family.nameAt_eq_iff.mpr hm

/-- Names drawn from built-in families are different, whatever else is drawn between them. -/
theorem builtinNames_nodup (keys : List TypeKey) :
    (Draw.builtinNames (builtin.draws keys)).Nodup :=
  builtin_separated.nodup (fun _ _ hf => families_after hf keys)
    fun _ _ hb => Draw.exists_of_isBuiltin hb

end Registry

end LocalNames
