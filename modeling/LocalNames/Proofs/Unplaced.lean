import LocalNames.Proofs.ReaderSteps

/-! Directives without their places. Places go into the reports only: which methods are read, and
whether something is reported, depends on what the directives say. -/

namespace LocalNames

/-- A word that stands nowhere. -/
def bare (text : String) : Word := ⟨text, .marker 0⟩

@[simp]
theorem bare_value (text : String) : (bare text).value = text := rfl

/-- What a directive says, wherever it stands. -/
def Directive.unplaced : Directive → Directive
  | method name descriptor flags =>
    method (bare name.value) (bare descriptor.value) (flags.map (bare ·.value))
  | inherit _ parent => inherit (.marker 0) (bare parent.value)
  | var _ slot version type => var (.marker 0) (bare slot.value) (bare version.value) type
  | param _ slot name type => param (.marker 0) (bare slot.value) (bare name.value) type
  | unknown word => unknown (bare word.value)
  | rejected keyword => rejected keyword

namespace Reader

theorem toOption_map {α β : Type} (f : α → β) (x : Except ListingError α) :
    (x.map f).toOption = x.toOption.map f := by
  cases x <;> rfl

theorem toOption_bind {α β : Type} {x y : Except ListingError α} {f g : α → Except ListingError β}
    (h : x.toOption = y.toOption) (hf : ∀ a, (f a).toOption = (g a).toOption) :
    (x >>= f).toOption = (y >>= g).toOption := by
  cases x with
  | error _ =>
    cases y with
    | error _ => rfl
    | ok _ => cases h
  | ok a =>
    cases y with
    | error _ => cases h
    | ok b =>
      obtain rfl := Option.some_inj.mp h
      exact hf a

theorem toOption_eq_some_iff {ε α : Type} {x : Except ε α} {a : α} :
    x.toOption = some a ↔ x = .ok a := by
  cases x <;> simp [Except.toOption]

theorem toOption_readNumber (word : Word) :
    (readNumber (bare word.value)).toOption = (readNumber word).toOption := by
  unfold readNumber
  rw [bare_value]
  cases Text.word32? word.value <;> rfl

theorem toOption_readFlags (flags : List Word) :
    (readFlags (flags.map (bare ·.value))).toOption = (readFlags flags).toOption := by
  induction flags with
  | nil => rfl
  | cons flag flags ih =>
    rw [List.map_cons, readFlags, readFlags]
    cases hm : Modifier.ofKeyword? flag.value with
    | none => simp only [bare_value, hm]; rfl
    | some m => simp only [bare_value, hm, toOption_map, ih]

theorem toOption_readMethod (before : List Method) (name descriptor : Word) (flags : List Word) :
    (readMethod before (bare name.value) (bare descriptor.value)
      (flags.map (bare ·.value))).toOption =
      (readMethod before name descriptor flags).toOption := by
  ext m
  simp only [toOption_eq_some_iff, readMethod_eq_ok_iff]
  simp only [← toOption_eq_some_iff, toOption_readFlags, bare_value]

theorem toOption_amend {r : Reader} {k : Keyword} {head head' : Span}
    {change change' : Method → Except ListingError Method}
    (h : ∀ m, (change m).toOption = (change' m).toOption) :
    (r.amend k head change).toOption = (r.amend k head' change').toOption := by
  unfold amend
  cases r.block with
  | outside => rfl
  | rejected => rfl
  | method m => rw [toOption_map, toOption_map, h]

/-- What a directive does depends on what it says alone. -/
theorem toOption_extend (r : Reader) (d : Directive) :
    (r.extend d.unplaced).toOption = (r.extend d).toOption := by
  cases d with
  | method name descriptor flags =>
    rw [Directive.unplaced, extend, extend, toOption_map, toOption_map, toOption_readMethod]
  | inherit head parent =>
    refine toOption_amend fun m => ?_
    unfold addParent
    cases hd : declares r.earlier parent.value <;> cases m.parent <;> simp [hd, Except.toOption]
  | var head slot version type =>
    rw [Directive.unplaced, extend, extend]
    refine toOption_bind (toOption_readNumber slot) fun _ => ?_
    refine toOption_bind (toOption_readNumber version) fun _ => toOption_amend fun m => ?_
    unfold addVariable
    split_ifs <;> rfl
  | param head slot name type =>
    rw [Directive.unplaced, extend, extend]
    exact toOption_bind (toOption_readNumber slot) fun _ => toOption_amend fun _ => rfl
  | unknown _ | rejected _ => rfl

theorem afterFault_unplaced (r : Reader) (d : Directive) :
    r.afterFault d.unplaced = r.afterFault d := by
  cases d <;> rfl

theorem step_unplaced (r : Reader) (d : Directive) :
    (r.step d.unplaced).1 = (r.step d).1 ∧
      ((r.step d.unplaced).2 = none ↔ (r.step d).2 = none) := by
  have h := toOption_extend r d
  cases hx : r.extend d with
  | error e =>
    cases hy : r.extend d.unplaced with
    | error f => rw [step_of_error hx, step_of_error hy, afterFault_unplaced]; simp
    | ok next => rw [hx, hy] at h; cases h
  | ok next =>
    cases hy : r.extend d.unplaced with
    | error f => rw [hx, hy] at h; cases h
    | ok next' =>
      rw [hx, hy] at h
      obtain rfl := Option.some_inj.mp h
      rw [step_of_ok hx, step_of_ok hy]
      simp

theorem run_unplaced (r : Reader) (ds : List Directive) :
    (r.run (ds.map (·.unplaced))).1 = (r.run ds).1 ∧
      ((r.run (ds.map (·.unplaced))).2 = [] ↔ (r.run ds).2 = []) := by
  induction ds generalizing r with
  | nil => simp
  | cons d ds ih =>
    obtain ⟨hnext, hnone⟩ := step_unplaced r d
    obtain ⟨hlast, hnil⟩ := ih (r.step d).1
    rw [List.map_cons, run_cons, run_cons, hnext]
    refine ⟨hlast, ?_⟩
    rw [List.append_eq_nil_iff, List.append_eq_nil_iff, Option.toList_eq_nil_iff,
      Option.toList_eq_nil_iff, hnone, hnil]

end Reader

end LocalNames
