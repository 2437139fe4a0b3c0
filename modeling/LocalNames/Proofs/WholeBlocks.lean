import LocalNames.Proofs.Blocks
import LocalNames.Proofs.WellFormed

/-! Blocks without a fault. Whether all directives of a block can be added to its method, and what
the method holds then, depends on what they say together: on the order of the requests for
parameters, and on no other order. -/

namespace LocalNames

/-- A directive that adds to a method behind `earlier` ones, if the method can take it. -/
def Directive.Fits (earlier : List Method) (d : Directive) : Prop :=
  (∃ parent, d.inherited? = some parent ∧ Reader.declares earlier parent = true) ∨
    (∃ v, d.declared? = some v) ∨ ∃ p, d.requested? = some p

namespace Method

/-- The parents that a method has been given and is given by directives. -/
def parents (m : Method) (ds : List Directive) : List String :=
  m.parent.toList ++ ds.filterMap (·.inherited?)

/-- The method with all that directives say of it. -/
def extended (m : Method) (ds : List Directive) : Method where
  name := m.name
  access := m.access
  descriptor := m.descriptor
  parent := (m.parents ds).head?
  vars := m.vars ++ ds.filterMap (·.declared?)
  parameters := m.parameters ++ ds.filterMap (·.requested?)

/-- A method behind `earlier` ones to which directives add without a fault. -/
structure Admits (m : Method) (earlier : List Method) (ds : List Directive) : Prop where
  fits : ∀ d ∈ ds, d.Fits earlier
  vars : ((m.extended ds).vars.map (·.1)).Nodup
  parents : (m.parents ds).length ≤ 1

@[simp]
theorem parents_nil (m : Method) : m.parents [] = m.parent.toList := List.append_nil _

@[simp]
theorem extended_nil (m : Method) : m.extended [] = m := by
  obtain ⟨_, _, _, parent, _, _⟩ := m
  cases parent <;> simp [extended, parents]

theorem admits_nil {m : Method} (hm : (m.vars.map (·.1)).Nodup) (earlier : List Method) :
    m.Admits earlier [] where
  fits := by simp
  vars := by rwa [extended_nil]
  parents := by rw [parents_nil]; cases m.parent <;> simp

end Method

namespace Reader

variable {earlier : List Method} {d : Directive} {m n : Method} {ds : List Directive}

/-! ### One directive -/

/-- What a directive has added is what it says. -/
theorem Amends.parents_eq (h : Amends earlier d m n) (ds : List Directive) :
    n.parents ds = m.parents (d :: ds) := by
  cases h with
  | @parent _ _ parent _ hnone =>
    simp [Method.parents, hnone, Directive.inherited?]
  | var _ _ _ => rfl
  | parameter _ => rfl

theorem Amends.extended_eq (h : Amends earlier d m n) (ds : List Directive) :
    n.extended ds = m.extended (d :: ds) := by
  rw [Method.extended, Method.extended, h.parents_eq]
  cases h with
  | parent _ _ => rfl
  | var hs hv _ => simp [Directive.declared?, Directive.requested?, hs, hv]
  | parameter hn => simp [Directive.declared?, Directive.requested?, hn]

theorem Amends.fits (h : Amends earlier d m n) : d.Fits earlier := by
  cases h with
  | parent hdeclared _ => exact .inl ⟨_, rfl, hdeclared⟩
  | var hs hv _ => exact .inr (.inl ⟨_, by rw [Directive.declared?, hs, hv]; rfl⟩)
  | parameter hn => exact .inr (.inr ⟨_, by rw [Directive.requested?, hn]; rfl⟩)

theorem Amends.admits_iff (h : Amends earlier d m n) (ds : List Directive) :
    n.Admits earlier ds ↔ m.Admits earlier (d :: ds) := by
  constructor
  · rintro ⟨hfits, hvars, hparents⟩
    exact ⟨List.forall_mem_cons.mpr ⟨h.fits, hfits⟩, h.extended_eq ds ▸ hvars,
      h.parents_eq ds ▸ hparents⟩
  · rintro ⟨hfits, hvars, hparents⟩
    exact ⟨(List.forall_mem_cons.mp hfits).2, h.extended_eq ds ▸ hvars,
      h.parents_eq ds ▸ hparents⟩

theorem requested?_eq_some {p : ParameterRequest} (h : d.requested? = some p) :
    ∃ head slot name, d = .param head slot name p.type ∧ name.value = p.name ∧
      Text.word32? slot.value = some p.slot := by
  cases d with
  | param head slot name type =>
    obtain ⟨n, hn, rfl⟩ := Option.map_eq_some_iff.mp h
    exact ⟨head, slot, name, rfl, rfl, hn⟩
  | _ => cases h

/-- The first of directives that a method admits can be added. -/
theorem exists_amends (h : m.Admits earlier (d :: ds)) : ∃ n, Amends earlier d m n := by
  rcases h.fits d List.mem_cons_self with ⟨parent, hp, hdeclared⟩ | ⟨⟨v, type⟩, hv⟩ | ⟨p, hp⟩
  · obtain ⟨head, word, rfl, rfl⟩ := inherited?_eq_some hp
    refine ⟨_, .parent hdeclared ?_⟩
    have hlen := h.parents
    rw [Method.parents, List.filterMap_cons_some hp, List.length_append, List.length_cons] at hlen
    rw [← Option.toList_eq_nil_iff, ← List.length_eq_zero_iff]
    omega
  · obtain ⟨head, slot, version, rfl, hs, hn⟩ := declared?_eq_some hv
    refine ⟨_, .var hs hn (Method.declares_eq_false_iff.mpr fun hmem => ?_)⟩
    have hnodup := h.vars
    rw [Method.extended, List.filterMap_cons_some hv, List.map_append, List.nodup_append] at hnodup
    exact hnodup.2.2 v hmem v List.mem_cons_self rfl
  · obtain ⟨head, slot, name, rfl, _, hn⟩ := requested?_eq_some hp
    exact ⟨_, .parameter hn⟩

/-! ### All directives of a block -/

/-- Directives that a method admits are added to it, and nothing is reported. -/
theorem run_of_admits {r : Reader} (hb : r.block = .method m) (h : m.Admits r.earlier ds) :
    r.run ds = (⟨r.earlier, .method (m.extended ds)⟩, []) := by
  induction ds generalizing r m with
  | nil =>
    obtain ⟨earlier, block⟩ := r
    obtain rfl : block = .method m := hb
    rw [Method.extended_nil]
    rfl
  | cons d ds ih =>
    obtain ⟨n, hn⟩ := exists_amends h
    have hrest := ih (r := ⟨r.earlier, .method n⟩) rfl ((hn.admits_iff ds).mpr h)
    rw [run_cons, step_of_amends hb hn, hrest, hn.extended_eq]
    rfl

/-- What can stand in a block of which nothing is reported. -/
def Plain (d : Directive) : Prop := startsMethod d = false ∧ ∀ k, d ≠ .rejected k

/-- Unless a faulty `method` line silences it, what is not reported adds to a method. -/
theorem amends_of_step {r : Reader} (hd : Plain d) (hr : r.block ≠ .rejected)
    (h : (r.step d).2 = none) : ∃ m n, r.block = .method m ∧ Amends r.earlier d m n := by
  have ho := outcome_step r d
  rw [h] at ho
  generalize (r.step d).1 = next at ho
  cases ho with
  | opened _ => cases hd.1
  | dropped => cases hd.1
  | amended _ hb ha => exact ⟨_, _, hb, ha⟩
  | silent _ hsilent =>
    rcases hsilent with hb | ⟨k, rfl⟩
    · exact absurd hb hr
    · exact absurd rfl (hd.2 k)

/-- Where nothing is reported, all has been admitted. -/
theorem admits_of_run {r : Reader} (hb : r.block = .method m) (hm : (m.vars.map (·.1)).Nodup)
    (hds : ∀ d ∈ ds, Plain d) (h : (r.run ds).2 = []) : m.Admits r.earlier ds := by
  induction ds generalizing r m with
  | nil => exact Method.admits_nil hm _
  | cons d ds ih =>
    obtain ⟨hd, hds⟩ := List.forall_mem_cons.mp hds
    rw [run_cons] at h
    obtain ⟨hnone, hrest⟩ := List.append_eq_nil_iff.mp h
    obtain ⟨_, n, hb', hn⟩ :=
      amends_of_step hd (by simp [hb]) (Option.toList_eq_nil_iff.mp hnone)
    obtain rfl := Block.method.inj (hb.symm.trans hb')
    rw [step_of_amends hb hn] at hrest
    exact (hn.admits_iff ds).mp <|
      ih (r := ⟨r.earlier, .method n⟩) rfl (hn.nodup_vars hm) hds hrest

/-- Outside of all methods nothing can be said without a report. -/
theorem eq_nil_of_run_outside {r : Reader} (hb : r.block = .outside) (hds : ∀ d ∈ ds, Plain d)
    (h : (r.run ds).2 = []) : ds = [] := by
  cases ds with
  | nil => rfl
  | cons d ds =>
    rw [run_cons] at h
    have hnone := Option.toList_eq_nil_iff.mp (List.append_eq_nil_iff.mp h).1
    obtain ⟨m, _, hb', _⟩ := amends_of_step (hds d List.mem_cons_self) (by simp [hb]) hnone
    rw [hb] at hb'
    cases hb'

end Reader

/-! ### Directives in another order -/

/-- A list of at most one element has no other order. -/
theorem eq_of_perm_of_length_le_one {α : Type} {as bs : List α} (h : as.Perm bs)
    (hlen : as.length ≤ 1) : as = bs := by
  match as, hlen with
  | [], _ => exact h.nil_eq
  | [a], _ => exact (List.perm_singleton.mp h.symm).symm

namespace Method

/-- Methods that differ in the order of their variables alone. -/
structure Alike (m n : Method) : Prop where
  name : m.name = n.name
  access : m.access = n.access
  descriptor : m.descriptor = n.descriptor
  parent : m.parent = n.parent
  vars : m.vars.Perm n.vars
  nodup : (m.vars.map (·.1)).Nodup
  parameters : m.parameters = n.parameters

variable {m : Method} {earlier earlier' : List Method} {ds ds' : List Directive}

theorem Admits.perm (h : m.Admits earlier ds) (hperm : ds.Perm ds')
    (hnames : ∀ name, Reader.declares earlier' name = Reader.declares earlier name) :
    m.Admits earlier' ds' where
  fits d hd := by
    have hfits := h.fits d (hperm.mem_iff.mpr hd)
    simp only [Directive.Fits, hnames]
    exact hfits
  vars := (((hperm.filterMap _).append_left m.vars).map (·.1)).nodup_iff.mp h.vars
  parents := ((hperm.filterMap _).append_left m.parent.toList).length_eq ▸ h.parents

theorem Admits.alike (h : m.Admits earlier ds) (hperm : ds.Perm ds')
    (hrequests : ds.filterMap (·.requested?) = ds'.filterMap (·.requested?)) :
    (m.extended ds).Alike (m.extended ds') where
  name := rfl
  access := rfl
  descriptor := rfl
  parent := congrArg List.head? <|
    eq_of_perm_of_length_le_one ((hperm.filterMap _).append_left _) h.parents
  vars := (hperm.filterMap _).append_left _
  nodup := h.vars
  parameters := congrArg (m.parameters ++ ·) hrequests

end Method

end LocalNames
