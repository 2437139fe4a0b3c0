import LocalNames.Proofs.Blocks

/-! What is reported of a directive, by what stands before it. -/

namespace LocalNames

/-! ### Numbers and keywords -/

namespace Text

/-- A word writes a number in decimal digits, behind at most one plus sign. -/
def Writes (word : String) (n : UInt32) : Prop :=
  ∃ digits : List Char, (word.toList = digits ∨ word.toList = '+' :: digits) ∧ digits ≠ [] ∧
    (∀ c ∈ digits, c.isDigit = true) ∧ Nat.ofDigitChars 10 digits 0 = n.toNat

theorem decimal?_eq_some_iff {cs : List Char} {n : Nat} :
    decimal? cs = some n ↔
      cs ≠ [] ∧ (∀ c ∈ cs, c.isDigit = true) ∧ Nat.ofDigitChars 10 cs 0 = n := by
  unfold decimal?
  split_ifs with he hd
  · simp_all
  · simp_all
  · refine iff_of_false (by simp) fun ⟨_, hall, _⟩ => hd (List.all_eq_true.mpr hall)

theorem withoutPlus_eq_iff {cs digits : List Char} (hd : ∀ c ∈ digits, c.isDigit = true) :
    withoutPlus cs = digits ↔ cs = digits ∨ cs = '+' :: digits := by
  unfold withoutPlus
  split
  · next rest =>
    have hne : '+' :: rest ≠ digits := by
      rintro rfl
      exact absurd (hd '+' List.mem_cons_self) (by decide)
    simp [hne]
  · next hplus =>
    have hne : cs ≠ '+' :: digits := hplus digits
    simp [hne]

theorem word32?_eq_some_iff {word : String} {n : UInt32} :
    word32? word = some n ↔ Writes word n := by
  have hbound (k : Nat) :
      (if h : k < UInt32.size then some (UInt32.ofNatLT k h) else none) = some n ↔
        k = n.toNat := by
    split_ifs with h
    · rw [Option.some_inj, ← UInt32.toNat_inj, UInt32.toNat_ofNatLT]
    · have := n.toNat_lt_size
      exact iff_of_false (by simp) (by omega)
  simp only [word32?, Option.bind_eq_some_iff, hbound, decimal?_eq_some_iff, Writes]
  constructor
  · rintro ⟨k, ⟨hne, hd, hk⟩, rfl⟩
    exact ⟨_, (withoutPlus_eq_iff hd).mp rfl, hne, hd, hk⟩
  · rintro ⟨digits, hword, hne, hd, hk⟩
    rw [(withoutPlus_eq_iff hd).mpr hword]
    exact ⟨_, ⟨hne, hd, hk⟩, rfl⟩

end Text

/-- The word is not the keyword of a modifier. -/
def NoKeyword (w : Word) : Prop := ∀ m : Modifier, m.keyword ≠ w.value

/-- The word does not write a number. -/
def NoNumber (w : Word) : Prop := ∀ n, ¬Text.Writes w.value n

theorem noKeyword_iff {w : Word} : NoKeyword w ↔ Modifier.ofKeyword? w.value = none := by
  constructor
  · intro h
    cases hm : Modifier.ofKeyword? w.value with
    | none => rfl
    | some m => exact absurd (Modifier.keyword_of_ofKeyword? hm) (h m)
  · intro h m hm
    rw [← hm, Modifier.ofKeyword?_keyword] at h
    cases h

theorem noNumber_iff {w : Word} : NoNumber w ↔ Text.word32? w.value = none := by
  simp only [NoNumber, Option.eq_none_iff_forall_ne_some, ne_eq, Text.word32?_eq_some_iff]

theorem not_noNumber_iff {w : Word} : ¬NoNumber w ↔ ∃ n, Text.word32? w.value = some n := by
  rw [noNumber_iff, ← ne_eq, Option.ne_none_iff_exists']

/-- `w` is the first bad one of some words. -/
def IsFirst (bad : Word → Prop) (w : Word) : List Word → Prop
  | [] => False
  | x :: xs => (bad x ∧ x = w) ∨ (¬bad x ∧ IsFirst bad w xs)

theorem isFirst_cons_of_bad {bad : Word → Prop} {w x : Word} {xs : List Word} (h : bad x) :
    IsFirst bad w (x :: xs) ↔ x = w := by
  simp [IsFirst, h]

theorem isFirst_cons_of_good {bad : Word → Prop} {w x : Word} {xs : List Word} (h : ¬bad x) :
    IsFirst bad w (x :: xs) ↔ IsFirst bad w xs := by
  simp [IsFirst, h]

theorem IsFirst.mem {bad : Word → Prop} {w : Word} {ws : List Word} (h : IsFirst bad w ws) :
    w ∈ ws ∧ bad w := by
  induction ws with
  | nil => exact h.elim
  | cons x xs ih =>
    rcases h with ⟨hx, rfl⟩ | ⟨_, h⟩
    · exact ⟨List.mem_cons_self, hx⟩
    · exact ⟨List.mem_cons_of_mem _ (ih h).1, (ih h).2⟩

theorem IsFirst.eq {bad : Word → Prop} {w w' : Word} {ws : List Word} (h : IsFirst bad w ws)
    (h' : IsFirst bad w' ws) : w = w' := by
  induction ws with
  | nil => exact h.elim
  | cons x xs ih =>
    by_cases hx : bad x
    · exact ((isFirst_cons_of_bad hx).mp h).symm.trans ((isFirst_cons_of_bad hx).mp h')
    · exact ih ((isFirst_cons_of_good hx).mp h) ((isFirst_cons_of_good hx).mp h')

theorem exists_isFirst_or (bad : Word → Prop) (ws : List Word) :
    (∃ w, IsFirst bad w ws) ∨ ∀ w ∈ ws, ¬bad w := by
  induction ws with
  | nil => exact .inr (List.forall_mem_nil _)
  | cons x xs ih =>
    by_cases hx : bad x
    · exact .inl ⟨x, (isFirst_cons_of_bad hx).mpr rfl⟩
    · rcases ih with ⟨w, hw⟩ | h
      · exact .inl ⟨w, (isFirst_cons_of_good hx).mpr hw⟩
      · exact .inr (List.forall_mem_cons.mpr ⟨hx, h⟩)

namespace Directive

/-- The words that are to be numbers. -/
def numbers : Directive → List Word
  | var _ slot version _ => [slot, version]
  | param _ slot _ _ => [slot]
  | _ => []

/-- The keyword of a directive that belongs to a method, and its place. -/
def member? : Directive → Option (Keyword × Span)
  | inherit head _ => some (.inherit, head)
  | var head _ _ _ => some (.var, head)
  | param head _ _ _ => some (.param, head)
  | _ => none

end Directive

namespace Reader

/-- The faults of a directive, by what stands before it. -/
inductive Fault (before : List Directive) : Directive → ListingError → Prop
  | duplicateMethod {name descriptor : Word} {flags : List Word} :
      Accepts before name.value →
      Fault before (.method name descriptor flags) (.duplicateMethod name)
  | invalidDescriptor {name descriptor : Word} {flags : List Word} {reason : DescriptorError} :
      ¬Accepts before name.value → MethodDescriptor.read descriptor.value = .error reason →
      Fault before (.method name descriptor flags) (.invalidDescriptor reason descriptor.span)
  | unknownFlag {name descriptor flag : Word} {flags : List Word} {d : MethodDescriptor} :
      ¬Accepts before name.value → MethodDescriptor.read descriptor.value = .ok d →
      IsFirst NoKeyword flag flags →
      Fault before (.method name descriptor flags) (.unknownFlag flag)
  | invalidNumber {d : Directive} {word : Word} :
      IsFirst NoNumber word d.numbers →
      Fault before d (.invalidNumber word)
  | outsideMethod {d : Directive} {keyword : Keyword} {head : Span} :
      d.member? = some (keyword, head) → (∀ w ∈ d.numbers, ¬NoNumber w) →
      (∀ e ∈ before, startsMethod e = false) → Fault before d (.outsideMethod keyword head)
  | unknownParent {outer inside : List Directive} {name parent : Word} {head : Span} :
      InMethod outer name inside before → ¬Accepts outer parent.value →
      Fault before (.inherit head parent) (.unknownParent parent)
  | secondParent {outer inside : List Directive} {name parent : Word} {head : Span} :
      InMethod outer name inside before → Accepts outer parent.value →
      (∃ d ∈ inside, ∃ other, d.inherited? = some other ∧ Accepts outer other) →
      Fault before (.inherit head parent) (.secondParent name.value parent.span)
  | duplicateVariable {outer inside : List Directive} {name slot version : Word} {head : Span}
      {type : String} {v : VarId} : InMethod outer name inside before →
      Text.Writes slot.value v.slot → Text.Writes version.value v.version →
      (∃ d ∈ inside, ∃ other, d.declared? = some (v, other)) →
      Fault before (.var head slot version type) (.duplicateVariable v (head.through version.span))
  | unknown {word : Word} : Fault before (.unknown word) (.unknownDirective word)

/-! ### The faults of directives -/

theorem map_eq_error_iff {ε α β : Type} {f : α → β} {x : Except ε α} {e : ε} :
    x.map f = .error e ↔ x = .error e := by
  cases x <;> simp [Except.map]

theorem readFlags_eq_error_iff {flags : List Word} {e : ListingError} :
    readFlags flags = .error e ↔
      ∃ flag, IsFirst NoKeyword flag flags ∧ .unknownFlag flag = e := by
  induction flags with
  | nil => simp [readFlags, IsFirst]
  | cons flag flags ih =>
    rw [readFlags]
    cases hk : Modifier.ofKeyword? flag.value with
    | none =>
      simp only [isFirst_cons_of_bad (noKeyword_iff.mpr hk)]
      simp
    | some m =>
      have hgood : ¬NoKeyword flag := by simp [noKeyword_iff, hk]
      simp only [isFirst_cons_of_good hgood, map_eq_error_iff, ih]

theorem readMethod_eq_error_iff {before : List Method} {name descriptor : Word}
    {flags : List Word} {e : ListingError} : readMethod before name descriptor flags = .error e ↔
      (declares before name.value = true ∧ .duplicateMethod name = e) ∨
      (declares before name.value = false ∧
        ((∃ reason, MethodDescriptor.read descriptor.value = .error reason ∧
          .invalidDescriptor reason descriptor.span = e) ∨
        ∃ d, MethodDescriptor.read descriptor.value = .ok d ∧
          ∃ flag, IsFirst NoKeyword flag flags ∧ .unknownFlag flag = e)) := by
  unfold readMethod
  cases declares before name.value with
  | true => simp
  | false =>
    cases MethodDescriptor.read descriptor.value with
    | error reason => simp
    | ok d => simp [map_eq_error_iff, readFlags_eq_error_iff]

/-- The faults of a `method` directive, in the order in which they count. -/
theorem extend_method_eq_error_iff {before : List Directive} {name descriptor : Word}
    {flags : List Word} {e : ListingError} :
    (behind before).extend (.method name descriptor flags) = .error e ↔
      Fault before (.method name descriptor flags) e := by
  rw [extend, map_eq_error_iff, readMethod_eq_error_iff, ← Bool.not_eq_true, declares_behind]
  constructor
  · rintro (⟨hn, rfl⟩ | ⟨hn, ⟨reason, hd, rfl⟩ | ⟨d, hd, flag, hflag, rfl⟩⟩)
    · exact .duplicateMethod hn
    · exact .invalidDescriptor hn hd
    · exact .unknownFlag hn hd hflag
  · intro h
    cases h with
    | duplicateMethod hn => exact .inl ⟨hn, rfl⟩
    | invalidDescriptor hn hd => exact .inr ⟨hn, .inl ⟨_, hd, rfl⟩⟩
    | unknownFlag hn hd hflag => exact .inr ⟨hn, .inr ⟨_, hd, _, hflag, rfl⟩⟩
    | invalidNumber hword => exact hword.elim
    | outsideMethod hm => cases hm

/-- What is left to check of a directive that belongs to a method and has its numbers. -/
theorem amend_behind_eq_error_iff {ds : List Directive} {keyword : Keyword} {head : Span}
    {change : Method → Except ListingError Method} {e : ListingError} :
    (behind ds).amend keyword head change = .error e ↔
      ((∀ d ∈ ds, startsMethod d = false) ∧ .outsideMethod keyword head = e) ∨
        ∃ outer name inside m, InMethod outer name inside ds ∧ HoldsBlock outer name inside m ∧
          behind ds = ⟨(behind outer).methods, .method m⟩ ∧ change m = .error e := by
  rw [amend_eq_error_iff, block_eq_outside_iff]
  refine or_congr_right ⟨?_, ?_⟩
  · rintro ⟨m, hb, hc⟩
    obtain ⟨outer, name, inside, hin⟩ := exists_inMethod hb
    obtain ⟨m', hm, hholds⟩ := behind_of_inMethod hin
    rw [hm] at hb
    obtain rfl := Block.method.inj hb
    exact ⟨outer, name, inside, _, hin, hholds, hm, hc⟩
  · rintro ⟨_, _, _, m, _, _, hm, hc⟩
    exact ⟨m, by rw [hm], hc⟩

theorem extend_inherit_eq_error_iff {before : List Directive} {head : Span} {parent : Word}
    {e : ListingError} : (behind before).extend (.inherit head parent) = .error e ↔
      Fault before (.inherit head parent) e := by
  rw [extend, amend_behind_eq_error_iff]
  constructor
  · rintro (⟨ho, rfl⟩ | ⟨outer, name, inside, m, hin, hholds, hm, hc⟩)
    · exact .outsideMethod rfl (by simp [Directive.numbers]) ho
    · rw [hm, addParent_eq_error_iff, ← Bool.not_eq_true, declares_behind, hholds.parent,
        hholds.name] at hc
      rcases hc with ⟨hn, rfl⟩ | ⟨hn, hp, rfl⟩
      · exact .unknownParent hin hn
      · exact .secondParent hin hn hp
  · intro h
    cases h with
    | invalidNumber hword => exact hword.elim
    | outsideMethod hm _ ho =>
      cases hm
      exact .inl ⟨ho, rfl⟩
    | unknownParent hin hn =>
      obtain ⟨m, hm, hholds⟩ := behind_of_inMethod hin
      refine .inr ⟨_, _, _, m, hin, hholds, hm, ?_⟩
      rw [hm, addParent_eq_error_iff, ← Bool.not_eq_true, declares_behind]
      exact .inl ⟨hn, rfl⟩
    | secondParent hin hn hp =>
      obtain ⟨m, hm, hholds⟩ := behind_of_inMethod hin
      refine .inr ⟨_, _, _, m, hin, hholds, hm, ?_⟩
      rw [hm, addParent_eq_error_iff, declares_behind, hholds.parent, hholds.name]
      exact .inr ⟨hn, hp, rfl⟩

/-! ### The faults of numbers -/

theorem extend_of_isFirst (r : Reader) {d : Directive} {word : Word}
    (h : IsFirst NoNumber word d.numbers) : r.extend d = .error (.invalidNumber word) := by
  cases d with
  | var head slot version type =>
    rcases h with ⟨hslot, rfl⟩ | ⟨hslot, ⟨hversion, rfl⟩ | ⟨_, h⟩⟩
    · exact extend_var_of_slot r (noNumber_iff.mp hslot)
    · obtain ⟨n, hn⟩ := not_noNumber_iff.mp hslot
      exact extend_var_of_version r hn (noNumber_iff.mp hversion)
    · exact h.elim
  | param head slot name type =>
    rcases h with ⟨hslot, rfl⟩ | ⟨_, h⟩
    · exact extend_param_of_slot r (noNumber_iff.mp hslot)
    · exact h.elim
  | _ => exact h.elim

/-- A word that is no number hides all other faults. -/
theorem fault_iff_of_isFirst {before : List Directive} {d : Directive} {word : Word}
    {e : ListingError} (h : IsFirst NoNumber word d.numbers) :
    Fault before d e ↔ .invalidNumber word = e := by
  constructor
  · intro hf
    cases hf with
    | invalidNumber h' => rw [h.eq h']
    | outsideMethod _ hn _ => exact absurd h.mem.2 (hn word h.mem.1)
    | @duplicateVariable _ _ _ slot version _ _ _ _ hs hv _ =>
      have hmem : word = slot ∨ word = version := by simpa [Directive.numbers] using h.mem.1
      rcases hmem with rfl | rfl
      · exact absurd hs (h.mem.2 _)
      · exact absurd hv (h.mem.2 _)
    | _ => exact h.elim
  · rintro rfl
    exact .invalidNumber h

theorem extend_var_eq_error_iff {before : List Directive} {head : Span} {slot version : Word}
    {type : String} {e : ListingError}
    (h : ∀ w ∈ (Directive.var head slot version type).numbers, ¬NoNumber w) :
    (behind before).extend (.var head slot version type) = .error e ↔
      Fault before (.var head slot version type) e := by
  obtain ⟨s, hs⟩ := not_noNumber_iff.mp (h slot (by simp [Directive.numbers]))
  obtain ⟨v, hv⟩ := not_noNumber_iff.mp (h version (by simp [Directive.numbers]))
  rw [extend_var (behind before) (v := ⟨s, v⟩) hs hv, amend_behind_eq_error_iff]
  constructor
  · rintro (⟨ho, rfl⟩ | ⟨outer, name, inside, m, hin, hholds, hm, hc⟩)
    · exact .outsideMethod rfl h ho
    · rw [addVariable_eq_error_iff, hholds.declares] at hc
      obtain ⟨hd, rfl⟩ := hc
      exact .duplicateVariable hin (Text.word32?_eq_some_iff.mp hs)
        (Text.word32?_eq_some_iff.mp hv) hd
  · intro hf
    cases hf with
    | invalidNumber hword => exact absurd hword.mem.2 (h _ hword.mem.1)
    | outsideMethod hm _ ho =>
      cases hm
      exact .inl ⟨ho, rfl⟩
    | @duplicateVariable _ _ _ _ _ _ _ w hin hslot hversion hd =>
      obtain rfl : w = ⟨s, v⟩ := by
        rw [← Text.word32?_eq_some_iff, hs, Option.some_inj] at hslot
        rw [← Text.word32?_eq_some_iff, hv, Option.some_inj] at hversion
        rw [hslot, hversion]
      obtain ⟨m, hm, hholds⟩ := behind_of_inMethod hin
      refine .inr ⟨_, _, _, m, hin, hholds, hm, ?_⟩
      rw [addVariable_eq_error_iff, hholds.declares]
      exact ⟨hd, rfl⟩

theorem extend_param_eq_error_iff {before : List Directive} {head : Span} {slot name : Word}
    {type : String} {e : ListingError}
    (h : ∀ w ∈ (Directive.param head slot name type).numbers, ¬NoNumber w) :
    (behind before).extend (.param head slot name type) = .error e ↔
      Fault before (.param head slot name type) e := by
  obtain ⟨n, hn⟩ := not_noNumber_iff.mp (h slot (by simp [Directive.numbers]))
  rw [extend_param _ hn, amend_behind_eq_error_iff]
  constructor
  · rintro (⟨ho, rfl⟩ | ⟨_, _, _, _, _, _, _, hc⟩)
    · exact .outsideMethod rfl h ho
    · cases hc
  · intro hf
    cases hf with
    | invalidNumber hword => exact absurd hword.mem.2 (h _ hword.mem.1)
    | outsideMethod hm _ ho =>
      cases hm
      exact .inl ⟨ho, rfl⟩

/-! ### All faults -/

theorem report_iff {before : List Directive} {d : Directive} {e : ListingError} :
    report before d = some e ↔ Fault before d e := by
  rw [report_eq_some_iff]
  rcases exists_isFirst_or NoNumber d.numbers with ⟨word, h⟩ | h
  · rw [extend_of_isFirst _ h, fault_iff_of_isFirst h, Except.error.injEq]
  · cases d with
    | method name descriptor flags => exact extend_method_eq_error_iff
    | inherit head parent => exact extend_inherit_eq_error_iff
    | var head slot version type => exact extend_var_eq_error_iff h
    | param head slot name type => exact extend_param_eq_error_iff h
    | unknown word =>
      refine ⟨fun h => by cases h; exact .unknown, fun h => ?_⟩
      cases h with
      | invalidNumber h => exact h.elim
      | outsideMethod h => cases h
      | unknown => rfl
    | rejected keyword =>
      refine iff_of_false (fun h => ?_) fun h => ?_
      · cases keyword <;> cases h
      · cases h with
        | invalidNumber h => exact h.elim
        | outsideMethod h => cases h

/-- What the reader makes of directives: each is reported exactly for its fault, and the methods
are those of the accepted blocks. -/
theorem run_start_eq_reports (ds : List Directive) :
    (start.run ds).2 = reports [] ds ∧
      (∀ before d e, report before d = some e ↔ Fault before d e) ∧
      (start.run ds).1.methods = methodsOf [] ds :=
  ⟨run_behind_snd [] ds, fun _ _ _ => report_iff, methods_behind ds⟩

end Reader

end LocalNames
