import LocalNames.Proofs.ParameterNames

/-! Variables named in one batch, or in two. Cut anywhere in the order of identities, a batch gives
the names and leaves the state that its two parts do one after the other, also where the cut goes
between the versions of one slot. -/

namespace LocalNames

/-! ### Cutting a batch -/

/-- A test that fails for all that comes after a failure cuts a list in two. -/
theorem filter_append_filter_not {α : Type} {p : α → Bool} {as : List α}
    (h : as.Pairwise fun a b => p b = true → p a = true) :
    as.filter p ++ as.filter (!p ·) = as := by
  induction as with
  | nil => rfl
  | cons a as ih =>
    obtain ⟨hfirst, hrest⟩ := List.pairwise_cons.mp h
    cases ha : p a with
    | true =>
      rw [List.filter_cons_of_pos ha, List.filter_cons_of_neg (by simp [ha]), List.cons_append,
        ih hrest]
    | false =>
      have hnone : ∀ b ∈ a :: as, p b = false := by
        refine List.forall_mem_cons.mpr ⟨ha, fun b hb => Bool.eq_false_iff.mpr fun hp => ?_⟩
        exact Bool.false_ne_true (ha.symm.trans (hfirst b hb hp))
      rw [List.filter_eq_nil_iff.mpr fun b hb => by simp [hnone b hb], List.nil_append,
        List.filter_eq_self.mpr fun b hb => by simp [hnone b hb]]

namespace VariableTypes

/-- The variables that come before `v`. -/
def below (types : VariableTypes) (v : VarId) : VariableTypes :=
  types.filter fun w _ => compare w v == .lt

/-- All others, `v` among them. -/
def onward (types : VariableTypes) (v : VarId) : VariableTypes :=
  types.filter fun w _ => !(compare w v == .lt)

theorem toList_below_append_onward (types : VariableTypes) (v : VarId) :
    (types.below v).toList ++ (types.onward v).toList = types.toList := by
  rw [below, onward, Std.ExtTreeMap.toList_filter, Std.ExtTreeMap.toList_filter]
  refine filter_append_filter_not (types.ordered_keys_toList.imp fun {a b} hab hb => ?_)
  rw [beq_iff_eq] at hb ⊢
  exact Std.TransCmp.lt_trans hab hb

end VariableTypes

/-! ### Who gets a name -/

theorem Holder.isSome_ofVariable? (slots : Nat) (renames : Bool) (call : Nat) (v : VarId)
    (key : TypeKey) : (ofVariable? slots renames call v key).isSome = true ↔
      key.isReceiver = false ∧ (slots ≤ v.slot.toNat ∨ renames = true) := by
  unfold ofVariable?
  grind

theorem mem_keys_variableAsks {slots : Nat} {renames : Bool} {call : Nat}
    {vars : List (VarId × String)} {v : VarId} :
    v ∈ (variableAsks slots renames call vars).map (·.1) ↔ ∃ type, (v, type) ∈ vars ∧
      (TypeKey.ofType type).isReceiver = false ∧ (slots ≤ v.slot.toNat ∨ renames = true) := by
  simp only [← Holder.isSome_ofVariable? slots renames call, Option.isSome_iff_exists, variableAsks,
    List.mem_map, List.mem_filterMap, Option.map_eq_some_iff]
  constructor
  · rintro ⟨_, ⟨⟨w, type⟩, hmem, h, hh, rfl⟩, rfl⟩
    exact ⟨type, hmem, h, hh⟩
  · rintro ⟨type, hmem, h, hh⟩
    exact ⟨_, ⟨(v, type), hmem, h, hh, rfl⟩, rfl⟩

/-- Names are handed out in the order of identities. -/
theorem pairwise_variableAsks (slots : Nat) (renames : Bool) (call : Nat) (types : VariableTypes) :
    ((variableAsks slots renames call types.toList).map (·.1)).Pairwise (compare · · = .lt) := by
  rw [List.pairwise_map, variableAsks, List.pairwise_filterMap]
  refine types.ordered_keys_toList.imp ?_
  rintro ⟨v, type⟩ ⟨w, type'⟩ hlt p hp q hq
  obtain ⟨_, _, rfl⟩ := Option.map_eq_some_iff.mp hp
  obtain ⟨_, _, rfl⟩ := Option.map_eq_some_iff.mp hq
  exact hlt

/-- The asks of a batch are those of its parts. -/
theorem variableAsks_parts (slots : Nat) (renames : Bool) (call : Nat) (types : VariableTypes)
    (v : VarId) : variableAsks slots renames call types.toList =
      variableAsks slots renames call (types.below v).toList ++
        variableAsks slots renames call (types.onward v).toList := by
  rw [← VariableTypes.toList_below_append_onward types v]
  exact List.filterMap_append

namespace Namer

/-! ### One batch -/

variable {n : Namer} {d : MethodDescriptor}

theorem keys_of_rename {names : List (VarId × String)} {last : Namer} {types : VariableTypes}
    (hd : MethodDescriptor.read n.descriptor = .ok d) (h : n.rename types = .ok (names, last)) :
    names.map (·.1) =
      (variableAsks (d.slots n.access) n.renamesParameters 0 types.toList).map (·.1) := by
  rw [rename_eq hd 0] at h
  obtain ⟨rfl, _⟩ := Prod.mk.inj (Except.ok.inj h)
  exact List.map_fst_zip (by simp)

/-- Who gets a name in a batch. -/
theorem mem_rename {names : List (VarId × String)} {last : Namer} {types : VariableTypes}
    (hd : MethodDescriptor.read n.descriptor = .ok d) (h : n.rename types = .ok (names, last))
    (v : VarId) : (∃ name, (v, name) ∈ names) ↔ ∃ type, types[v]? = some type ∧
      (TypeKey.ofType type).isReceiver = false ∧
        (d.slots n.access ≤ v.slot.toNat ∨ n.renamesParameters = true) := by
  have hmem : (∃ name, (v, name) ∈ names) ↔ v ∈ names.map (·.1) := by simp
  rw [hmem, keys_of_rename hd h, mem_keys_variableAsks]
  simp only [Std.ExtTreeMap.mem_toList_iff_getElem?_eq_some]

theorem rename_of_error {e : DescriptorError} (h : MethodDescriptor.read n.descriptor = .error e)
    (types : VariableTypes) : n.rename types = .error e := by
  rw [rename, h]
  rfl

theorem perform_of_error {e : DescriptorError} (h : MethodDescriptor.read n.descriptor = .error e)
    (types : VariableTypes) : n.perform (.request (.vars types)) = (none, n) := by
  simp only [perform, serve, rename_of_error h, Except.map]

/-! ### Two batches in a row -/

/-- Parts are served one after the other, and a parameter that the first has drawn for is not drawn
for in the second. -/
theorem rename_parts (hd : MethodDescriptor.read n.descriptor = .ok d) (types : VariableTypes)
    (v : VarId) : ∃ first second middle last, n.rename (types.below v) = .ok (first, middle) ∧
      middle.rename (types.onward v) = .ok (second, last) ∧
      n.rename types = .ok (first ++ second, last) := by
  obtain ⟨haccess, hdescriptor, hrenames⟩ := settings_eq_iff.mp (settings_askAll n
    ((variableAsks (d.slots n.access) n.renamesParameters 0 (types.below v).toList).map (·.2)))
  have hsecond := rename_eq (hdescriptor ▸ hd) 0 (types.onward v)
  rw [haccess, hrenames] at hsecond
  refine ⟨_, _, _, _, rename_eq hd 0 _, hsecond, ?_⟩
  rw [rename_eq hd 0, variableAsks_parts _ _ _ types v]
  simp only [List.map_append, askAll_append]
  rw [List.zip_append (by simp)]

/-- A batch is named as its parts before and from `v` on are one after the other: the names are
those of the first part and of the second, in the order of identities, and the namer is left in the
same state. All variables get names but the receiver and, where parameters are not renamed, those
in the slots of parameters. Where the descriptor cannot be read, no batch is named and nothing
changes. -/
theorem rename_splits (n : Namer) (types : VariableTypes) (v : VarId) :
    (∀ d, MethodDescriptor.read n.descriptor = .ok d → ∃ first second middle last,
      n.rename (types.below v) = .ok (first, middle) ∧
      middle.rename (types.onward v) = .ok (second, last) ∧
      n.rename types = .ok (first ++ second, last) ∧
      ((first ++ second).map (·.1)).Pairwise (compare · · = .lt) ∧
      ∀ w, (∃ name, (w, name) ∈ first ++ second) ↔ ∃ type, types[w]? = some type ∧
        (TypeKey.ofType type).isReceiver = false ∧
          (d.slots n.access ≤ w.slot.toNat ∨ n.renamesParameters = true)) ∧
    ∀ e, MethodDescriptor.read n.descriptor = .error e →
      (∀ batch ∈ [types, types.below v, types.onward v], n.rename batch = .error e) ∧
      n.perform (.request (.vars types)) = (none, n) ∧
      n.performAll [.request (.vars (types.below v)), .request (.vars (types.onward v))] =
        ([none, none], n) := by
  refine ⟨fun d hd => ?_, fun e he => ⟨fun batch _ => rename_of_error he batch,
    perform_of_error he types, ?_⟩⟩
  · obtain ⟨first, second, middle, last, hfirst, hsecond, hwhole⟩ := rename_parts hd types v
    refine ⟨first, second, middle, last, hfirst, hsecond, hwhole, ?_, mem_rename hd hwhole⟩
    rw [keys_of_rename hd hwhole]
    exact pairwise_variableAsks _ _ _ types
  · simp only [performAll, perform_of_error he]

/-- The cut goes between two versions of a parameter that has no name yet, while another one has
got a name before; a namer whose descriptor breaks off names neither part. -/
theorem rename_splits_between_versions :
    let static := Access.empty.insert .static
    let n : Namer := { start static "(IJ)V" true with
      registry := (Registry.builtin.nextName (.ofType "int")).2, parameters := {(0, "s")} }
    let types : VariableTypes := {(⟨0, 0⟩, "int"), (⟨0, 1⟩, "this"), (⟨1, 0⟩, "long"),
      (⟨1, 2⟩, "long"), (⟨3, 0⟩, "int")}
    let broken := start static "(IJ" true
    (∃ first second middle last, n.rename (types.below ⟨1, 1⟩) = .ok (first, middle) ∧
      middle.rename (types.onward ⟨1, 1⟩) = .ok (second, last) ∧
      n.rename types = .ok (first ++ second, last) ∧
      first ++ second = [(⟨0, 0⟩, "s"), (⟨1, 0⟩, "j"), (⟨1, 2⟩, "j"), (⟨3, 0⟩, "k")]) ∧
    broken.performAll [.request (.vars (types.below ⟨1, 1⟩)),
      .request (.vars (types.onward ⟨1, 1⟩))] = ([none, none], broken) := by
  intro static n types broken
  have hread : MethodDescriptor.read "(IJ)V" =
      .ok ⟨[.primitive .int, .primitive .long], none⟩ := rfl
  have hbroken : MethodDescriptor.read "(IJ" =
      .error (.unexpectedEnd "(IJ" [.char ')', .char 'L', .char '[']) := rfl
  have hnames : (n.rename types).toOption.map (·.1) =
      some [(⟨0, 0⟩, "s"), (⟨1, 0⟩, "j"), (⟨1, 2⟩, "j"), (⟨3, 0⟩, "k")] := by
    decide +kernel
  obtain ⟨first, second, middle, last, hfirst, hsecond, hwhole, _⟩ :=
    (rename_splits n types ⟨1, 1⟩).1 _ hread
  rw [hwhole] at hnames
  exact ⟨⟨first, second, middle, last, hfirst, hsecond, hwhole, Option.some_inj.mp hnames⟩,
    ((rename_splits broken types ⟨1, 1⟩).2 _ hbroken).2.2⟩

end Namer

end LocalNames
