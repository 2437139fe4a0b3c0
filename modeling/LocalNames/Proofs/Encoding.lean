import LocalNames.Proofs.FurthestFault

/-! Descriptors and their texts: a text is read exactly when it is the encoding of a descriptor,
and as that descriptor, and its slots are those of the types it encodes. -/

namespace LocalNames

namespace FieldType

/-- The types that take two slots. -/
def IsWide (t : FieldType) : Prop :=
  t = primitive .long ∨ t = primitive .double

instance (t : FieldType) : Decidable t.IsWide :=
  inferInstanceAs (Decidable (_ ∨ _))

theorem width_eq (t : FieldType) : t.width = if t.IsWide then 2 else 1 := by
  cases t with
  | primitive p => cases p <;> rfl
  | object name => rfl
  | array element => rfl

theorem totalWidth_eq (ts : List FieldType) :
    totalWidth ts = 2 * ts.countP (·.IsWide) + ts.countP (¬·.IsWide) := by
  induction ts with
  | nil => rfl
  | cons t ts ih =>
    rw [totalWidth, width_eq, ih]
    by_cases h : t.IsWide
    · rw [List.countP_cons_of_pos (by simpa using h), List.countP_cons_of_neg (by simpa using h),
        if_pos h]
      omega
    · rw [List.countP_cons_of_neg (by simpa using h), List.countP_cons_of_pos (by simpa using h),
        if_neg h]
      omega

end FieldType

namespace MethodDescriptor

/-- Texts are read as what they encode, and no other text is read. Of the parameters then `long`
and `double` take two slots and all others one. -/
theorem read_iff_encodes :
    (∀ (s : String) (d : MethodDescriptor), read s = .ok d ↔ d.Encodable ∧ d.encode = s) ∧
      ∀ (d : MethodDescriptor) (access : Access), d.Encodable →
        (read d.encode).map (·.slots access) = .ok ((if access.has .static then 0 else 1) +
          (2 * d.parameters.countP (·.IsWide) + d.parameters.countP (¬·.IsWide))) := by
  refine ⟨fun s d => read_eq_ok_iff, fun d access hd => ?_⟩
  have hread : read d.encode = .ok d := read_eq_ok_iff.mpr ⟨hd, rfl⟩
  rw [hread, Except.map, slots, FieldType.totalWidth_eq, Access.isStatic]

/-- A class name may hold brackets and the letters of types; arrays of `double` take one slot. -/
theorem read_brackets_in_name :
    let d : MethodDescriptor := ⟨[.primitive .long, .array (.primitive .double),
      .object "(a)[I", .array (.array (.object "L"))], some (.array (.primitive .int))⟩
    read "(J[DL(a)[I;[[LL;)[I" = .ok d ∧ d.Encodable ∧
      (read d.encode).map (·.slots .empty) = .ok (1 + (2 * 1 + 3)) := by
  intro d
  have hd : d.Encodable := by
    simp [d, Encodable, FieldType.Encodable]
  exact ⟨(read_iff_encodes.1 _ _).mpr ⟨hd, rfl⟩, hd, read_iff_encodes.2 d .empty hd⟩

end MethodDescriptor

end LocalNames
