import LocalNames.Proofs.FurthestFault

/-! Where a text stops being the beginning of a descriptor. Whatever has been read can be
completed, and behind it a character goes on in one way at most, so the place where reading breaks
off is the end of the longest beginning. -/

namespace LocalNames

/-! ### Completion -/

theorem FieldProgress.exists_type {field : FieldProgress} (hf : field.Encodable) :
    ∃ t : FieldType, t.Encodable ∧ field.written <+: t.encode := by
  cases field with
  | brackets dims =>
    refine ⟨.nested (.primitive .int) dims, (FieldType.encodable_nested _ _).mpr trivial, ?_⟩
    rw [FieldType.encode_nested]
    exact List.prefix_append _ _
  | name dims read =>
    refine ⟨.nested (.object (String.ofList read)) dims,
      (FieldType.encodable_nested _ _).mpr ?_, ?_⟩
    · rwa [FieldType.Encodable, String.toList_ofList]
    · rw [FieldType.encode_nested, FieldType.encode, String.toList_ofList, written]
      exact (List.prefix_append_right_inj _).mpr (List.prefix_append _ _)

theorem Progress.exists_descriptor {p : Progress} (hp : p.Encodable) :
    ∃ d : MethodDescriptor, d.Encodable ∧ p.written <+: d.encode.toList := by
  cases p with
  | start => exact ⟨⟨[], none⟩, ⟨by simp, by simp⟩, List.nil_prefix⟩
  | parameters types field =>
    obtain ⟨htypes, hfield⟩ := hp
    obtain ⟨t, ht, rest, hrest⟩ := field.exists_type hfield
    refine ⟨⟨types ++ [t], none⟩, ⟨?_, by simp⟩, rest ++ [')', 'V'], ?_⟩
    · simpa [or_imp, forall_and] using ⟨htypes, ht⟩
    · simp [written, MethodDescriptor.encode, ← hrest]
  | result types field =>
    obtain ⟨htypes, hfield⟩ := hp
    obtain ⟨t, ht, rest, hrest⟩ := field.exists_type hfield
    refine ⟨⟨types, some t⟩, ⟨htypes, by simpa using ht⟩, rest, ?_⟩
    simp [written, MethodDescriptor.encode, ← hrest]
  | complete d => exact ⟨d, hp, List.prefix_rfl⟩

namespace MethodDescriptor

open Progress

/-! ### Beginnings of descriptors -/

/-- Whether a text that is read begins with `cs`. -/
def Viable (cs : List Char) : Prop :=
  ∃ s d, read s = .ok d ∧ cs <+: s.toList

theorem viable_iff {cs : List Char} : Viable cs ↔ ∃ p, start.after cs = some p := by
  constructor
  · rintro ⟨s, d, h, rest, hrest⟩
    obtain ⟨hd, rfl⟩ := read_eq_ok_iff.mp h
    have hafter := after_encode hd
    rw [← hrest, after_append] at hafter
    obtain ⟨p, hp, -⟩ := Option.bind_eq_some_iff.mp hafter
    exact ⟨p, hp⟩
  · rintro ⟨p, h⟩
    obtain ⟨hp, rfl⟩ := start_after_eq_some_iff.mp h
    obtain ⟨d, hd, hprefix⟩ := exists_descriptor hp
    exact ⟨d.encode, d, read_eq_ok_iff.mpr ⟨hd, rfl⟩, hprefix⟩

theorem viable_written {p : Progress} (hp : p.Encodable) : Viable p.written :=
  viable_iff.mpr ⟨p, after_written hp⟩

/-- A character that has no place spoils whatever follows it. -/
theorem not_viable_of_stuck {p : Progress} (hp : p.Encodable) {c : Char} (hc : p.step c = none)
    (rest : List Char) : ¬Viable (p.written ++ c :: rest) := by
  rw [viable_iff, after_append, after_written hp, Option.bind_some, after_cons, hc]
  simp

/-- The beginnings that are viable are those of what stands before that character. -/
theorem length_le_of_viable {p : Progress} (hp : p.Encodable) {c : Char} (hc : p.step c = none)
    {rest cs : List Char} (hcs : cs <+: p.written ++ c :: rest) (hviable : Viable cs) :
    cs.length ≤ p.written.length := by
  refine Nat.le_of_not_lt fun hlong => ?_
  have hspoilt : p.written ++ [c] <+: p.written ++ c :: rest := ⟨rest, by simp⟩
  obtain ⟨more, rfl⟩ : p.written ++ [c] <+: cs :=
    List.prefix_of_prefix_length_le hspoilt hcs (by rwa [List.length_append])
  rw [List.append_assoc] at hviable
  exact not_viable_of_stuck hp hc more hviable

/-- The end is what is unexpected of a text that could go on; of any other text it is the character
behind the longest beginning that could. -/
theorem read_error_placed {s : String} {e : DescriptorError} (h : read s = .error e) :
    ((∃ expected, e = .unexpectedEnd s expected) ↔ Viable s.toList) ∧
      (¬Viable s.toList → ∃ expected found offset,
        e = .unexpectedChar s expected found offset ∧ s.toList[offset]? = some found ∧
        Viable (s.toList.take offset) ∧
        ∀ cs, cs <+: s.toList → Viable cs → cs.length ≤ offset) := by
  obtain ⟨p, hp, ⟨htext, rfl⟩ | ⟨c, rest, htext, hc, rfl⟩⟩ := exists_of_read_eq_error h
  · have hviable : Viable s.toList := htext ▸ viable_written hp
    exact ⟨⟨fun _ => hviable, fun _ => ⟨_, rfl⟩⟩, absurd hviable⟩
  · have hnot : ¬Viable s.toList := htext ▸ not_viable_of_stuck hp hc rest
    refine ⟨⟨fun ⟨_, he⟩ => (nomatch he), fun hviable => absurd hviable hnot⟩, fun _ =>
      ⟨_, c, p.written.length, rfl, ?_, ?_, ?_⟩⟩
    · rw [← htext, List.getElem?_append_right (Nat.le_refl _), Nat.sub_self]
      rfl
    · rw [← htext, List.take_left]
      exact viable_written hp
    · rw [← htext]
      exact fun cs hcs hviable => length_le_of_viable hp hc hcs hviable

/-- The elements of an array are missing, and a class name is not ended by its text. -/
theorem read_error_placed_in_array_and_name :
    read "(I[Q)V" = .error (.unexpectedChar "(I[Q)V" [.char 'L', .char '['] 'Q' 3) ∧
      ¬Viable "(I[Q)V".toList ∧ Viable "(I[".toList ∧
      (∀ cs, cs <+: "(I[Q)V".toList → Viable cs → cs.length ≤ 3) ∧
      read "(ILa)V" = .error (.unexpectedEnd "(ILa)V" [.char ';']) ∧ Viable "(ILa)V".toList := by
  have harray : read "(I[Q)V" =
      .error (.unexpectedChar "(I[Q)V" [.char 'L', .char '['] 'Q' 3) := rfl
  have hname : read "(ILa)V" = .error (.unexpectedEnd "(ILa)V" [.char ';']) := rfl
  obtain ⟨hend, hchar⟩ := read_error_placed harray
  have hnot : ¬Viable "(I[Q)V".toList := by
    intro hviable
    obtain ⟨_, he⟩ := hend.mpr hviable
    cases he
  obtain ⟨_, _, _, he, -, hbefore, hlongest⟩ := hchar hnot
  cases he
  exact ⟨harray, hnot, hbefore, hlongest, hname, (read_error_placed hname).1.mp ⟨_, rfl⟩⟩

end MethodDescriptor

end LocalNames
