import LocalNames.Proofs.Viable

/-! What the errors of descriptors say to be expected. It could stand at the place of the error,
though more could: the letters of the primitive types are never listed. -/

namespace LocalNames

namespace FieldProgress

theorem step_of_expected {field : FieldProgress} {c : Char}
    (h : .char c ∈ field.expected) : ∃ next, field.step c = some next := by
  cases field with
  | brackets dims =>
    obtain rfl | rfl : c = 'L' ∨ c = '[' := by simpa [expected] using h
    all_goals exact ⟨_, rfl⟩
  | name dims read =>
    obtain rfl : c = ';' := by simpa [expected] using h
    exact ⟨_, rfl⟩

theorem mem_expectedOr {field : FieldProgress} {c : Char} {x : Expectation}
    (h : x ∈ field.expectedOr c) : x = .char c ∧ field = brackets 0 ∨ x ∈ field.expected := by
  by_cases hf : field = brackets 0
  · subst hf
    simp only [expectedOr, if_pos, expected, List.foldr_cons, List.foldr_nil,
      Expectation.mem_insert, List.mem_cons, List.not_mem_nil, or_false] at h
    obtain rfl | rfl | h := h
    · exact .inr (List.mem_cons_self ..)
    · exact .inr (List.mem_cons_of_mem _ (List.mem_cons_self ..))
    · exact .inl ⟨h, rfl⟩
  · rw [expectedOr, if_neg hf] at h
    exact .inr h

theorem expectedOr_ne_nil (field : FieldProgress) (c : Char) : field.expectedOr c ≠ [] := by
  rw [expectedOr]
  split
  · next hf =>
    subst hf
    exact List.ne_nil_of_mem (Expectation.mem_insert.mpr (.inl rfl))
  · cases field <;> exact List.cons_ne_nil _ _

theorem pairwise_expectedOr (field : FieldProgress) (c : Char) :
    (field.expectedOr c).Pairwise (·.rank < ·.rank) := by
  rw [expectedOr]
  split
  · next hf =>
    subst hf
    exact Expectation.pairwise_insert _ (Expectation.pairwise_insert _
      (List.pairwise_singleton _ _))
  · cases field with
    | brackets dims => exact List.pairwise_pair.mpr (by decide)
    | name dims read => exact List.pairwise_singleton _ _

end FieldProgress

namespace Progress

theorem step_of_expected {p : Progress} {c : Char} (h : .char c ∈ p.expected) :
    ∃ q, p.step c = some q := by
  cases p with
  | start =>
    obtain rfl : c = '(' := by simpa [expected] using h
    exact ⟨_, rfl⟩
  | parameters types field =>
    obtain ⟨hc, rfl⟩ | h := FieldProgress.mem_expectedOr h
    · cases hc
      exact ⟨_, rfl⟩
    · obtain ⟨next, hnext⟩ := FieldProgress.step_of_expected h
      exact ⟨_, frames_ofParameter types _ _ _ hnext⟩
  | result types field =>
    obtain ⟨hc, rfl⟩ | h := FieldProgress.mem_expectedOr h
    · cases hc
      exact ⟨_, rfl⟩
    · obtain ⟨next, hnext⟩ := FieldProgress.step_of_expected h
      exact ⟨_, frames_ofResult types _ _ _ hnext⟩
  | complete d => simp [expected] at h

theorem exists_complete_of_expected {p : Progress} (h : .ending ∈ p.expected) :
    ∃ d, p = complete d := by
  cases p with
  | start => simp [expected] at h
  | parameters types field | result types field =>
    obtain ⟨hc, -⟩ | h := FieldProgress.mem_expectedOr h
    · cases hc
    · cases field <;> simp [FieldProgress.expected] at h
  | complete d => exact ⟨d, rfl⟩

theorem expected_ne_nil (p : Progress) : p.expected ≠ [] := by
  cases p with
  | start => exact List.cons_ne_nil _ _
  | parameters types field | result types field => exact field.expectedOr_ne_nil _
  | complete d => exact List.cons_ne_nil _ _

theorem pairwise_expected (p : Progress) : p.expected.Pairwise (·.rank < ·.rank) := by
  cases p with
  | start => exact List.pairwise_singleton _ _
  | parameters types field | result types field => exact field.pairwise_expectedOr _
  | complete d => exact List.pairwise_singleton _ _

end Progress

namespace DescriptorError

/-- What stands before the place of an error. -/
def before : DescriptorError → List Char
  | unexpectedChar descriptor _ _ offset => descriptor.toList.take offset
  | unexpectedEnd descriptor _ => descriptor.toList

end DescriptorError

namespace MethodDescriptor

open Progress

theorem expected_of_read_eq_error {s : String} {e : DescriptorError} (h : read s = .error e) :
    ∃ p : Progress, p.Encodable ∧ e.before = p.written ∧ e.expected = p.expected := by
  obtain ⟨p, hp, ⟨htext, rfl⟩ | ⟨c, rest, htext, -, rfl⟩⟩ := exists_of_read_eq_error h
  · exact ⟨p, hp, htext.symm, rfl⟩
  · exact ⟨p, hp, by rw [DescriptorError.before, ← htext, List.take_left], rfl⟩

/-- Whatever an error says to be expected could stand at its place. -/
theorem expected_viable {s : String} {e : DescriptorError} (h : read s = .error e) :
    (∀ c, .char c ∈ e.expected → Viable (e.before ++ [c])) ∧
      (.ending ∈ e.expected → ∃ d, read (String.ofList (e.before)) = .ok d) := by
  obtain ⟨p, hp, hbefore, hexpected⟩ := expected_of_read_eq_error h
  rw [hbefore, hexpected]
  constructor
  · intro c hc
    obtain ⟨q, hq⟩ := step_of_expected hc
    refine viable_iff.mpr ⟨q, ?_⟩
    rw [after_append, after_written hp, Option.bind_some, after_cons, hq]
    rfl
  · intro hending
    obtain ⟨d, rfl⟩ := exists_complete_of_expected hending
    exact ⟨d, read_eq_ok_iff.mpr ⟨hp, String.ofList_toList.symm⟩⟩

/-- Something is expected at every place, and what is stands in the order of the texts. -/
theorem expected_ordered {s : String} {e : DescriptorError} (h : read s = .error e) :
    e.expected ≠ [] ∧ e.expected.Pairwise (·.text < ·.text) := by
  obtain ⟨p, -, -, hexpected⟩ := expected_of_read_eq_error h
  rw [hexpected]
  exact ⟨p.expected_ne_nil, p.pairwise_expected.imp Expectation.text_lt_text⟩

end MethodDescriptor

end LocalNames
