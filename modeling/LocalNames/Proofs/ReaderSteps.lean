import LocalNames.Listing.Reader
import Mathlib.Tactic.SplitIfs

/-! What a directive can do to a reader. A `method` directive opens a block and closes the one
before; every other directive leaves all blocks alone but the current one, and that too unless it
belongs to a method. -/

namespace LocalNames.Reader

@[simp]
theorem methods_outside (earlier : List Method) : methods ⟨earlier, .outside⟩ = earlier :=
  List.append_nil earlier

@[simp]
theorem methods_rejected (earlier : List Method) : methods ⟨earlier, .rejected⟩ = earlier :=
  List.append_nil earlier

@[simp]
theorem methods_method (earlier : List Method) (m : Method) :
    methods ⟨earlier, .method m⟩ = earlier ++ [m] :=
  rfl

theorem methods_of_block {r : Reader} {m : Method} (h : r.block = .method m) :
    r.methods = r.earlier ++ [m] := by
  rw [methods, h, Block.methods]

/-! ### One directive -/

/-- What a faultless directive adds to the method it belongs to. -/
inductive Amends (earlier : List Method) : Directive → Method → Method → Prop
  | parent {m : Method} {head : Span} {parent : Word} :
      declares earlier parent.value = true → m.parent = none →
      Amends earlier (.inherit head parent) m { m with parent := some parent.value }
  | var {m : Method} {head : Span} {slot version : Word} {type : String} {v : VarId} :
      Text.word32? slot.value = some v.slot → Text.word32? version.value = some v.version →
      m.declares v = false →
      Amends earlier (.var head slot version type) m { m with vars := m.vars ++ [(v, type)] }
  | parameter {m : Method} {head : Span} {slot name : Word} {type : String} {n : UInt32} :
      Text.word32? slot.value = some n →
      Amends earlier (.param head slot name type) m
        { m with parameters := m.parameters ++ [⟨n, name.value, type⟩] }

theorem Amends.head_eq {earlier : List Method} {d : Directive} {m n : Method}
    (h : Amends earlier d m n) :
    n.name = m.name ∧ n.access = m.access ∧ n.descriptor = m.descriptor := by
  cases h <;> exact ⟨rfl, rfl, rfl⟩

variable {r : Reader} {d : Directive}

theorem step_of_ok {next : Reader} (h : r.extend d = .ok next) : r.step d = (next, none) := by
  rw [step, h]

theorem step_of_error {e : ListingError} (h : r.extend d = .error e) :
    r.step d = (r.afterFault d, some e) := by
  rw [step, h]

theorem afterFault_of_starts (h : startsMethod d = true) :
    r.afterFault d = ⟨r.methods, .rejected⟩ :=
  if_pos h

theorem afterFault_of_not_starts (h : startsMethod d = false) : r.afterFault d = r :=
  if_neg (by simp [h])

theorem readNumber_of_some {word : Word} {n : UInt32} (h : Text.word32? word.value = some n) :
    readNumber word = .ok n := by
  rw [readNumber, h]

theorem readNumber_of_none {word : Word} (h : Text.word32? word.value = none) :
    readNumber word = .error (.invalidNumber word) := by
  rw [readNumber, h]

theorem readMethod_eq_ok_iff {before : List Method} {name descriptor : Word} {flags : List Word}
    {m : Method} : readMethod before name descriptor flags = .ok m ↔
      declares before name.value = false ∧
        (∃ d, MethodDescriptor.read descriptor.value = .ok d) ∧
        ∃ access, readFlags flags = .ok access ∧
          m = .headed name.value descriptor.value access := by
  unfold readMethod
  cases declares before name.value with
  | true => simp
  | false =>
    cases MethodDescriptor.read descriptor.value with
    | error reason => simp
    | ok d => cases readFlags flags <;> simp [Except.map, eq_comm]

theorem step_of_readMethod {name descriptor : Word} {flags : List Word} {m : Method}
    (h : readMethod r.methods name descriptor flags = .ok m) :
    r.step (.method name descriptor flags) = (⟨r.methods, .method m⟩, none) :=
  step_of_ok (by rw [extend, h]; rfl)

section Extend

variable (r) {head : Span} {slot version name : Word} {type : String}

theorem extend_var {v : VarId} (hs : Text.word32? slot.value = some v.slot)
    (hv : Text.word32? version.value = some v.version) :
    r.extend (.var head slot version type) =
      r.amend .var head (addVariable v type (head.through version.span)) := by
  rw [extend, readNumber_of_some hs, readNumber_of_some hv]
  rfl

theorem extend_var_of_slot (hs : Text.word32? slot.value = none) :
    r.extend (.var head slot version type) = .error (.invalidNumber slot) := by
  rw [extend, readNumber_of_none hs]
  rfl

theorem extend_var_of_version {s : UInt32} (hs : Text.word32? slot.value = some s)
    (hv : Text.word32? version.value = none) :
    r.extend (.var head slot version type) = .error (.invalidNumber version) := by
  rw [extend, readNumber_of_some hs, readNumber_of_none hv]
  rfl

theorem extend_param {n : UInt32} (hs : Text.word32? slot.value = some n) :
    r.extend (.param head slot name type) =
      r.amend .param head (addParameter ⟨n, name.value, type⟩) := by
  rw [extend, readNumber_of_some hs]
  rfl

theorem extend_param_of_slot (hs : Text.word32? slot.value = none) :
    r.extend (.param head slot name type) = .error (.invalidNumber slot) := by
  rw [extend, readNumber_of_none hs]
  rfl

end Extend

/-- All that a directive can do. -/
inductive Outcome (r : Reader) : Directive → Reader → Option ListingError → Prop
  | opened {name descriptor : Word} {flags : List Word} {m : Method} :
      readMethod r.methods name descriptor flags = .ok m →
      Outcome r (.method name descriptor flags) ⟨r.methods, .method m⟩ none
  | rejected {d : Directive} {e : ListingError} : startsMethod d = true →
      Outcome r d ⟨r.methods, .rejected⟩ (some e)
  | dropped : Outcome r (.rejected .method) ⟨r.methods, .rejected⟩ none
  | amended {d : Directive} {m n : Method} : startsMethod d = false → r.block = .method m →
      Amends r.earlier d m n → Outcome r d ⟨r.earlier, .method n⟩ none
  | silent {d : Directive} : startsMethod d = false →
      r.block = .rejected ∨ (∃ k, d = .rejected k) → Outcome r d r none
  | faulty {d : Directive} {e : ListingError} : startsMethod d = false → Outcome r d r (some e)

theorem Outcome.eq_of_not_method {next : Reader} {e? : Option ListingError}
    (h : Outcome r d next e?) (hd : startsMethod d = false) (hb : ∀ m, r.block ≠ .method m) :
    next = r := by
  cases h with
  | opened _ => cases hd
  | rejected hd' => simp [hd] at hd'
  | dropped => cases hd
  | amended _ hm _ => exact absurd hm (hb _)
  | silent _ _ => rfl
  | faulty _ => rfl

theorem Outcome.of_error {e : ListingError} (h : r.extend d = .error e) :
    Outcome r d (r.step d).1 (r.step d).2 := by
  rw [step_of_error h]
  cases hd : startsMethod d with
  | true =>
    rw [afterFault_of_starts hd]
    exact .rejected hd
  | false =>
    rw [afterFault_of_not_starts hd]
    exact .faulty hd

/-- A directive that changes the method it belongs to. -/
theorem Outcome.of_amend {keyword : Keyword} {head : Span}
    {change : Method → Except ListingError Method} (hd : startsMethod d = false)
    (h : r.extend d = r.amend keyword head change)
    (hchange : ∀ m n, change m = .ok n → Amends r.earlier d m n) :
    Outcome r d (r.step d).1 (r.step d).2 := by
  cases hb : r.block with
  | outside => exact .of_error (h.trans (by rw [amend, hb]))
  | rejected =>
    rw [step_of_ok (h.trans (by rw [amend, hb]))]
    exact .silent hd (.inl hb)
  | method m =>
    cases hc : change m with
    | error e => exact .of_error (h.trans (by rw [amend, hb]; simp only [hc]; rfl))
    | ok n =>
      rw [step_of_ok (h.trans (by rw [amend, hb]; simp only [hc]; rfl))]
      exact .amended hd hb (hchange m n hc)

theorem outcome_step (r : Reader) (d : Directive) : Outcome r d (r.step d).1 (r.step d).2 := by
  cases d with
  | method name descriptor flags =>
    cases h : readMethod r.methods name descriptor flags with
    | error e => exact .of_error (by rw [extend, h]; rfl)
    | ok m =>
      rw [step_of_readMethod h]
      exact .opened h
  | inherit head parent =>
    refine .of_amend rfl rfl fun m n hc => ?_
    unfold addParent at hc
    split_ifs at hc with hdeclared hparent
    cases hc
    exact .parent (by simpa using hdeclared) (by simpa using hparent)
  | var head slot version type =>
    cases hs : Text.word32? slot.value with
    | none => exact .of_error (extend_var_of_slot r hs)
    | some s =>
      cases hv : Text.word32? version.value with
      | none => exact .of_error (extend_var_of_version r hs hv)
      | some v =>
        refine .of_amend rfl (extend_var r (v := ⟨s, v⟩) hs hv) fun m n hc => ?_
        unfold addVariable at hc
        split_ifs at hc with hdeclared
        cases hc
        exact .var hs hv (by simpa using hdeclared)
  | param head slot name type =>
    cases hs : Text.word32? slot.value with
    | none => exact .of_error (extend_param_of_slot r hs)
    | some s =>
      refine .of_amend rfl (extend_param r hs) fun m n hc => ?_
      cases hc
      exact .parameter hs
  | unknown word => exact .of_error rfl
  | rejected k =>
    cases k with
    | method => exact .dropped
    | inherit | var | param => exact .silent rfl (.inr ⟨_, rfl⟩)

/-- A directive that adds to the current method has no fault. -/
theorem step_of_amends {m n : Method} (hb : r.block = .method m) (h : Amends r.earlier d m n) :
    r.step d = (⟨r.earlier, .method n⟩, none) := by
  apply step_of_ok
  cases h with
  | parent hdeclared hparent =>
    rw [extend, amend, hb]
    simp [addParent, hdeclared, hparent, Except.map]
  | var hs hv hdeclared =>
    rw [extend_var r hs hv, amend, hb]
    simp [addVariable, hdeclared, Except.map]
  | parameter hs =>
    rw [extend_param r hs, amend, hb]
    rfl

/-! ### Faults -/

theorem step_eq_some_iff {e : ListingError} : (r.step d).2 = some e ↔ r.extend d = .error e := by
  rw [step]
  cases r.extend d <;> simp

theorem amend_eq_error_iff {keyword : Keyword} {head : Span}
    {change : Method → Except ListingError Method} {e : ListingError} :
    r.amend keyword head change = .error e ↔
      (r.block = .outside ∧ .outsideMethod keyword head = e) ∨
        ∃ m, r.block = .method m ∧ change m = .error e := by
  unfold amend
  cases r.block with
  | outside => simp
  | rejected => simp
  | method m => cases hc : change m <;> simp [hc, Except.map]

theorem addParent_eq_error_iff {earlier : List Method} {parent : Word} {m : Method}
    {e : ListingError} : addParent earlier parent m = .error e ↔
      (declares earlier parent.value = false ∧ .unknownParent parent = e) ∨
        (declares earlier parent.value = true ∧ m.parent.isSome = true ∧
          .secondParent m.name parent.span = e) := by
  unfold addParent
  cases declares earlier parent.value <;> cases m.parent <;> simp

theorem addVariable_eq_error_iff {v : VarId} {type : String} {place : Span} {m : Method}
    {e : ListingError} : addVariable v type place m = .error e ↔
      m.declares v = true ∧ .duplicateVariable v place = e := by
  unfold addVariable
  cases m.declares v <;> simp

/-! ### Many directives -/

theorem run_cons (r : Reader) (d : Directive) (ds : List Directive) :
    r.run (d :: ds) = (((r.step d).1.run ds).1, (r.step d).2.toList ++ ((r.step d).1.run ds).2) :=
  rfl

theorem run_append_fst (r : Reader) (ds es : List Directive) :
    (r.run (ds ++ es)).1 = ((r.run ds).1.run es).1 := by
  induction ds generalizing r with
  | nil => rfl
  | cons d ds ih => rw [List.cons_append, run_cons, run_cons, ih]

theorem run_append_snd (r : Reader) (ds es : List Directive) :
    (r.run (ds ++ es)).2 = (r.run ds).2 ++ ((r.run ds).1.run es).2 := by
  induction ds generalizing r with
  | nil => rfl
  | cons d ds ih => rw [List.cons_append, run_cons, run_cons, ih, List.append_assoc]

theorem run_append_of_silent {s t : Reader} {ds es : List Directive} (h : r.run ds = (s, []))
    (h' : s.run es = (t, [])) : r.run (ds ++ es) = (t, []) := by
  have hfst := run_append_fst r ds es
  have hsnd := run_append_snd r ds es
  rw [h, h'] at hfst hsnd
  exact Prod.ext hfst hsnd

end LocalNames.Reader
