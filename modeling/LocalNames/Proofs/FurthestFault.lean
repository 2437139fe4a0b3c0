import LocalNames.Proofs.Combinators
import LocalNames.Proofs.Progress

/-! The grammar reads exactly the encodings of descriptors. In every text that it does not read
stands something that has been read of a descriptor and cannot go on, and the fault that got
furthest is the one behind it. -/

namespace LocalNames

namespace DescriptorGrammar

/-! ### Types -/

theorem reads_nameChar : Reads nameChar (· ≠ ';') ([·]) where
  done h := by
    obtain ⟨c, rfl, hc, rfl⟩ := of_one_done h
    split_ifs at hc with hne
    cases hc
    exact ⟨hne, rfl, by simp⟩
  failed h := by
    obtain ⟨rfl, -⟩ := of_one_failed h
    exact Nat.le_refl _
  write_ne_nil _ := List.cons_ne_nil _ _

theorem object_of_ne {cs : List Char} (h : cs.head? ≠ some 'L') :
    object cs = .failed ⟨cs, [.char 'L']⟩ :=
  bind_of_failed (bind_of_failed (just_of_ne h))

/-- A class name ends with the first semicolon, or is not ended by the text. -/
theorem object_cases (cs : List Char) :
    (∃ name rest, ';' ∉ name ∧ cs = name ++ ';' :: rest ∧ object ('L' :: cs) =
        .done (.object (String.ofList name)) rest (some ⟨';' :: rest, []⟩)) ∨
      ';' ∉ cs ∧ object ('L' :: cs) = .failed ⟨[], [.char ';']⟩ := by
  obtain ⟨name, rest, fault, hfault, hname, rfl, h⟩ := enclosed_of_reads reads_nameChar 'L' ';' cs
  obtain ⟨rfl, hrest⟩ := of_one_failed hfault
  have hname : ';' ∉ name := fun h => hname _ h rfl
  rw [List.flatMap_singleton'] at *
  obtain ⟨behind, rfl, h⟩ | ⟨hne, h⟩ := h
  · exact .inl ⟨name, behind, hname, rfl, map_of_done _ h⟩
  · obtain rfl : rest = [] := by
      cases rest with
      | nil => rfl
      | cons c rest =>
        have := hrest c rfl
        simp_all
    refine .inr ⟨by simpa using hname, ?_⟩
    exact map_of_failed _ h

section

variable {element : Parser FieldType} {cs rest : List Char} {t : FieldType}
  {passed : Option Fault} {fault : Fault}

theorem array_of_ne (h : cs.head? ≠ some '[') :
    array element cs = .failed ⟨cs, [.char '[']⟩ :=
  bind_of_failed (just_of_ne h)

theorem array_of_done (h : element cs = .done t rest passed) :
    array element ('[' :: cs) = .done (.array t) rest passed := by
  rw [array, bind_of_done (just_self _ _)]
  show (Reading.behind none ((FieldType.array <$> element) cs)) = _
  rw [map_of_done _ h]
  cases passed <;> rfl

theorem array_of_failed (h : element cs = .failed fault) :
    array element ('[' :: cs) = .failed fault := by
  rw [array, bind_of_done (just_self _ _)]
  show (Reading.behind none ((FieldType.array <$> element) cs)) = _
  rw [map_of_failed _ h]
  rfl

end

end DescriptorGrammar

namespace FieldProgress

open DescriptorGrammar

/-- Whether `fault` is met in `cs` where what has been read of a type cannot go on. -/
structure Breaks (field : FieldProgress) (cs : List Char) (fault : Fault) : Prop where
  encodable : field.Encodable
  text : field.written ++ fault.rest = cs
  stuck : ∀ c ∈ fault.rest.head?, field.step c = none
  expected : fault.expected = field.expected

/-- What has been read of an array, where this has been read of its elements. -/
def inArray : FieldProgress → FieldProgress
  | brackets dims => brackets (dims + 1)
  | name dims read => name (dims + 1) read

theorem step_brackets_eq_none_iff {dims : Nat} {c : Char} : (brackets dims).step c = none ↔
    PrimitiveType.ofLetter? c = none ∧ c ≠ 'L' ∧ c ≠ '[' := by
  unfold step
  split <;> simp_all [PrimitiveType.ofLetter?]

theorem step_name_ne_none (dims : Nat) (read : List Char) (c : Char) :
    (name dims read).step c ≠ none := by
  by_cases hc : c = ';'
  · rw [hc]
    exact Option.some_ne_none _
  · rw [step_name hc]
    exact Option.some_ne_none _

theorem step_inArray {field : FieldProgress} {c : Char} (h : field.step c = none) :
    field.inArray.step c = none := by
  cases field with
  | brackets dims => exact step_brackets_eq_none_iff.mpr (step_brackets_eq_none_iff.mp h)
  | name dims read => exact absurd h (step_name_ne_none dims read c)

theorem Breaks.length_le {field : FieldProgress} {cs : List Char} {fault : Fault}
    (h : field.Breaks cs fault) : fault.rest.length ≤ cs.length := by
  rw [← h.text, List.length_append]
  exact Nat.le_add_left _ _

theorem Breaks.inArray {field : FieldProgress} {cs : List Char} {fault : Fault}
    (h : field.Breaks cs fault) : field.inArray.Breaks ('[' :: cs) fault := by
  obtain ⟨hencodable, rfl, hstuck, hexpected⟩ := h
  refine ⟨?_, ?_, fun c hc => step_inArray (hstuck c hc), ?_⟩
  · cases field <;> exact hencodable
  · cases field <;> rfl
  · cases field <;> exact hexpected

end FieldProgress

namespace DescriptorGrammar

/-- The type of the elements is read by the same grammar. -/
theorem fieldType_eq (cs : List Char) :
    fieldType cs = ((primitive <|> object) <|> array fieldType) cs := by
  cases cs with
  | nil => rfl
  | cons c cs =>
    have harray : array (fun _ => fieldType cs) (c :: cs) = array fieldType (c :: cs) := by
      by_cases hc : c = '['
      · subst hc
        rw [array, array, bind_of_done (just_self _ _), bind_of_done (just_self _ _)]
        rfl
      · rw [array_of_ne (by simpa using hc), array_of_ne (by simpa using hc)]
    rw [fieldType, typeOver]
    simp only [HOrElse.hOrElse, OrElse.orElse, harray]

theorem primitive_of_none {c : Char} (h : PrimitiveType.ofLetter? c = none) (cs : List Char) :
    primitive (c :: cs) = .failed ⟨c :: cs, []⟩ :=
  one_of_none (by simpa using h)

theorem fieldType_of_letter {c : Char} {p : PrimitiveType} (h : PrimitiveType.ofLetter? c = some p)
    (cs : List Char) : fieldType (c :: cs) = .done (.primitive p) cs none :=
  (fieldType_eq _).trans (orElse_of_done (orElse_of_done (one_of_some (by rw [h]; rfl) cs)))

theorem fieldType_of_object_done {cs rest : List Char} {t : FieldType} {passed : Option Fault}
    (h : object ('L' :: cs) = .done t rest passed) :
    fieldType ('L' :: cs) = .done t rest passed :=
  (fieldType_eq _).trans (orElse_of_done (orElse_of_failed_done (primitive_of_none rfl cs) h))

theorem fieldType_of_object_failed {cs : List Char} {fault : Fault}
    (h : object ('L' :: cs) = .failed fault) (hlength : fault.rest.length ≤ cs.length) :
    fieldType ('L' :: cs) = .failed fault := by
  have hlt : fault.rest.length < ('L' :: cs).length := Nat.lt_succ_of_le hlength
  have hor : (primitive <|> object) ('L' :: cs) = .failed fault := by
    rw [orElse_of_failed (primitive_of_none rfl cs) h, Fault.further_of_gt hlt]
  rw [fieldType_eq, orElse_of_failed hor (array_of_ne (by simp)), Fault.further_of_lt hlt]

/-- Neither a primitive type nor a class name begins here. -/
theorem primitive_or_object_of_ne {c : Char} (h : PrimitiveType.ofLetter? c = none) (hc : c ≠ 'L')
    (cs : List Char) :
    (primitive <|> object) (c :: cs) = .failed ⟨c :: cs, [.char 'L']⟩ := by
  rw [orElse_of_failed (primitive_of_none h cs) (object_of_ne (by simpa using hc))]
  exact congrArg _ (Fault.further_of_rest_eq rfl)

theorem fieldType_bracket_of_done {cs rest : List Char} {t : FieldType} {passed : Option Fault}
    (h : fieldType cs = .done t rest passed) :
    fieldType ('[' :: cs) = .done (.array t) rest passed :=
  (fieldType_eq _).trans
    (orElse_of_failed_done (primitive_or_object_of_ne rfl (by decide) cs) (array_of_done h))

theorem fieldType_bracket_of_failed {cs : List Char} {fault : Fault}
    (h : fieldType cs = .failed fault) (hlength : fault.rest.length ≤ cs.length) :
    fieldType ('[' :: cs) = .failed fault := by
  rw [fieldType_eq, orElse_of_failed (primitive_or_object_of_ne rfl (by decide) cs)
    (array_of_failed h), Fault.further_of_gt (Nat.lt_succ_of_le hlength)]

theorem fieldType_of_ne {c : Char} (h : PrimitiveType.ofLetter? c = none) (hL : c ≠ 'L')
    (hb : c ≠ '[') (cs : List Char) :
    fieldType (c :: cs) = .failed ⟨c :: cs, [.char 'L', .char '[']⟩ := by
  rw [fieldType_eq, orElse_of_failed (primitive_or_object_of_ne h hL cs)
    (array_of_ne (by simpa using hb))]
  exact congrArg _ (Fault.further_of_rest_eq rfl)

/-- A type that has been read is what is written in front; one that has not breaks off. -/
theorem fieldType_cases (cs : List Char) :
    (∃ t rest passed, fieldType cs = .done t rest passed ∧ t.Encodable ∧
        cs = t.encode ++ rest ∧ ∀ f ∈ passed, rest.length < f.rest.length) ∨
      ∃ field fault, fieldType cs = .failed fault ∧ FieldProgress.Breaks field cs fault := by
  induction cs with
  | nil => exact .inr ⟨.brackets 0, ⟨[], [.char 'L', .char '[']⟩, rfl, trivial, rfl, by simp, rfl⟩
  | cons c cs ih =>
    cases hp : PrimitiveType.ofLetter? c with
    | some p =>
      refine .inl ⟨.primitive p, cs, none, fieldType_of_letter hp cs, trivial, ?_, by simp⟩
      rw [FieldType.encode, PrimitiveType.letter_of_ofLetter? hp, List.singleton_append]
    | none =>
      by_cases hL : c = 'L'
      · subst hL
        obtain ⟨name, rest, hname, rfl, h⟩ | ⟨hname, h⟩ := object_cases cs
        · refine .inl ⟨.object (String.ofList name), rest, _, fieldType_of_object_done h, ?_, ?_,
            by simp⟩
          · rwa [FieldType.Encodable, String.toList_ofList]
          · rw [FieldType.encode, String.toList_ofList, List.append_assoc, List.cons_append,
              List.singleton_append]
        · refine .inr ⟨.name 0 cs, _, fieldType_of_object_failed h (Nat.zero_le _), hname, ?_,
            by simp, rfl⟩
          exact List.append_nil _
      by_cases hb : c = '['
      · subst hb
        obtain ⟨t, rest, passed, h, ht, rfl, hpassed⟩ | ⟨field, fault, h, hbreaks⟩ := ih
        · exact .inl ⟨.array t, rest, passed, fieldType_bracket_of_done h, ht, rfl, hpassed⟩
        · exact .inr ⟨field.inArray, fault, fieldType_bracket_of_failed h hbreaks.length_le,
            hbreaks.inArray⟩
      · refine .inr ⟨.brackets 0, _, fieldType_of_ne hp hL hb cs, trivial, rfl, ?_, rfl⟩
        rintro _ ⟨⟩
        exact FieldProgress.step_brackets_eq_none_iff.mpr ⟨hp, hL, hb⟩

theorem breaks_of_fieldType {cs : List Char} {fault : Fault} (h : fieldType cs = .failed fault) :
    ∃ field, FieldProgress.Breaks field cs fault := by
  obtain ⟨t, rest, passed, h', -⟩ | ⟨field, fault', h', hbreaks⟩ := fieldType_cases cs
  · rw [h] at h'
    cases h'
  · rw [h] at h'
    cases h'
    exact ⟨field, hbreaks⟩

theorem reads_fieldType : Reads fieldType FieldType.Encodable FieldType.encode where
  done h := by
    obtain ⟨t, rest, passed, h', hread⟩ | ⟨field, fault, h', -⟩ := fieldType_cases _
    · rw [h] at h'
      cases h'
      exact hread
    · rw [h] at h'
      cases h'
  failed h := by
    obtain ⟨field, hbreaks⟩ := breaks_of_fieldType h
    exact hbreaks.length_le
  write_ne_nil {t} _ := by cases t <;> exact List.cons_ne_nil _ _

end DescriptorGrammar

/-! ### Descriptors -/

namespace FieldProgress

open DescriptorGrammar

/-- Something has been read unless the type begins with what is left. -/
theorem written_ne_nil {field : FieldProgress} (h : field ≠ brackets 0) : field.written ≠ [] := by
  cases field with
  | brackets dims =>
    cases dims with
    | zero => exact absurd rfl h
    | succ dims => exact List.cons_ne_nil _ _
  | name dims read => simp [written]

/-- The characters that a type may begin with and go on behind. -/
theorem written_head {field : FieldProgress} {c : Char} {cs rest : List Char}
    (h : field.written ++ rest = c :: cs) (hb : c ≠ '[') (hL : c ≠ 'L') : field = brackets 0 := by
  cases field with
  | brackets dims =>
    cases dims with
    | zero => rfl
    | succ dims => exact absurd (List.head_eq_of_cons_eq h).symm hb
  | name dims read =>
    cases dims with
    | zero => exact absurd (List.head_eq_of_cons_eq h).symm hL
    | succ dims => exact absurd (List.head_eq_of_cons_eq h).symm hb

variable {field : FieldProgress} {cs : List Char} {fault : Fault} {c : Char}

theorem Breaks.further_eq (h : field.Breaks cs fault) (c : Char) :
    Fault.further ⟨cs, [.char c]⟩ fault = ⟨fault.rest, field.expectedOr c⟩ := by
  by_cases hf : field = brackets 0
  · have htext : cs = fault.rest := by rw [← h.text, hf]; rfl
    rw [Fault.further_of_rest_eq htext, h.expected, expectedOr, if_pos hf, htext]
  · have hlt : fault.rest.length < cs.length := by
      have := List.length_pos_iff.mpr (written_ne_nil hf)
      rw [← h.text, List.length_append]
      omega
    rw [Fault.further_of_gt hlt, expectedOr, if_neg hf, ← h.expected]

/-- Where `c` cannot stand in place of a type, nothing can that is not part of one. -/
theorem Breaks.not_head (h : field.Breaks cs fault) (hc : cs.head? ≠ some c) {d : Char}
    (hd : d ∈ fault.rest.head?) : ¬(field = brackets 0 ∧ d = c) := by
  rintro ⟨rfl, rfl⟩
  exact hc (by rw [← h.text]; exact hd)

end FieldProgress

namespace Progress

open DescriptorGrammar

/-- Whether `fault` is met in `cs` where what has been read of a descriptor cannot go on. -/
structure Breaks (p : Progress) (cs : List Char) (fault : Fault) : Prop where
  encodable : p.Encodable
  text : p.written ++ fault.rest = cs
  stuck : ∀ c ∈ fault.rest.head?, p.step c = none
  incomplete : fault.rest = [] → ∀ d, p ≠ complete d
  expected : fault.expected = p.expected

variable {types : List FieldType} {field : FieldProgress} {cs : List Char} {fault : Fault}

theorem breaks_parameters (ht : ∀ t ∈ types, t.Encodable) (h : field.Breaks cs fault)
    (hc : cs.head? ≠ some ')') : (parameters types field).Breaks
      ('(' :: types.flatMap FieldType.encode ++ cs) (Fault.further ⟨cs, [.char ')']⟩ fault) := by
  rw [h.further_eq]
  refine ⟨⟨ht, h.encodable⟩, ?_, fun c hd => ?_, fun _ d => by simp, rfl⟩
  · rw [written, List.append_assoc, h.text]
  · rw [step_parameters, if_neg (h.not_head hc hd), h.stuck c hd, Option.map_none]

theorem breaks_result (ht : ∀ t ∈ types, t.Encodable) (h : field.Breaks cs fault)
    (hc : cs.head? ≠ some 'V') : (result types field).Breaks
      ('(' :: types.flatMap FieldType.encode ++ ')' :: cs)
      (Fault.further ⟨cs, [.char 'V']⟩ fault) := by
  rw [h.further_eq]
  refine ⟨⟨ht, h.encodable⟩, ?_, fun c hd => ?_, fun _ d => by simp, rfl⟩
  · rw [written, List.append_assoc, ← h.text]
    rfl
  · rw [step_result, if_neg (h.not_head hc hd), h.stuck c hd, Option.map_none]

end Progress

namespace DescriptorGrammar

theorem resultType_cases (cs : List Char) :
    (∃ r rest passed, resultType cs = .done r rest passed ∧ (∀ t ∈ r, t.Encodable) ∧
        cs = r.elim ['V'] FieldType.encode ++ rest ∧ ∀ f ∈ passed, rest.length < f.rest.length) ∨
      ∃ field fault, cs.head? ≠ some 'V' ∧ FieldProgress.Breaks field cs fault ∧
        resultType cs = .failed (Fault.further ⟨cs, [.char 'V']⟩ fault) := by
  by_cases hV : cs.head? = some 'V'
  · obtain ⟨rest, rfl⟩ := List.head?_eq_some_iff.mp hV
    exact .inl ⟨none, rest, none, rfl, by simp, rfl, by simp⟩
  · have hvoid : (do just 'V'; return none : Parser (Option FieldType)) cs =
        .failed ⟨cs, [.char 'V']⟩ := bind_of_failed (just_of_ne hV)
    obtain ⟨t, rest, passed, h, ht, hcs, hpassed⟩ | ⟨field, fault, h, hbreaks⟩ := fieldType_cases cs
    · exact .inl ⟨some t, rest, passed, orElse_of_failed_done hvoid (map_of_done some h),
        by simpa using ht, hcs, hpassed⟩
    · exact .inr ⟨field, fault, hV, hbreaks, orElse_of_failed hvoid (map_of_failed some h)⟩

theorem returning_cases {types : List FieldType} (ht : ∀ t ∈ types, t.Encodable)
    (cs : List Char) :
    (∃ r passed, returning types cs = .done ⟨types, r⟩ [] passed ∧ (∀ t ∈ r, t.Encodable) ∧
        r.elim ['V'] FieldType.encode = cs) ∨
      ∃ p fault, returning types cs = .failed fault ∧ fault.rest.length ≤ cs.length ∧
        Progress.Breaks p ('(' :: types.flatMap FieldType.encode ++ ')' :: cs) fault := by
  obtain ⟨r, rest, passed, h, hr, rfl, hpassed⟩ | ⟨field, fault, hV, hbreaks, h⟩ :=
    resultType_cases cs
  · cases rest with
    | nil =>
      refine .inl ⟨r, passed, ?_, hr, (List.append_nil _).symm⟩
      rw [returning, bind_of_done h]
      cases passed <;> rfl
    | cons c rest =>
      refine .inr ⟨.complete ⟨types, r⟩, ⟨c :: rest, [.ending]⟩, ?_, by simp, ⟨ht, hr⟩, ?_,
        fun _ _ => rfl, by simp, rfl⟩
      · rw [returning, bind_of_done h]
        exact behind_failed hpassed
      · simp [Progress.written, MethodDescriptor.encode]
  · refine .inr ⟨_, _, bind_of_failed h, ?_, Progress.breaks_result ht hbreaks hV⟩
    rw [hbreaks.further_eq]
    exact hbreaks.length_le

/-- A text is read as the descriptor it writes, or it breaks off at the fault. -/
theorem descriptor_cases (cs : List Char) :
    (∃ d passed, descriptor cs = .done d [] passed ∧ d.Encodable ∧ d.encode.toList = cs) ∨
      ∃ p fault, descriptor cs = .failed fault ∧ Progress.Breaks p cs fault := by
  by_cases hopen : cs.head? = some '('
  · obtain ⟨inner, rfl⟩ := List.head?_eq_some_iff.mp hopen
    obtain ⟨types, rest, passed, hpassed, htypes, rfl, ⟨cs, rfl, h⟩ | ⟨hne, h⟩⟩ :=
      enclosed_of_reads reads_fieldType '(' ')' inner
    all_goals obtain ⟨field, hbreaks⟩ := breaks_of_fieldType hpassed
    -- No type begins with the parenthesis, so the fault in front of it is forgotten behind it.
    · have hlt : passed.rest.length = cs.length + 1 := by
        have htext := hbreaks.text
        obtain rfl := FieldProgress.written_head htext (by decide) (by decide)
        exact congrArg List.length htext
      obtain ⟨r, later, hrun, hr, rfl⟩ | ⟨p, fault, hrun, hle, hp⟩ := returning_cases htypes cs
      · refine .inl ⟨⟨types, r⟩, (some passed).merge Fault.further later, ?_, ⟨htypes, hr⟩,
          String.toList_ofList⟩
        rw [descriptor, bind_of_done h, hrun]
        rfl
      · refine .inr ⟨p, fault, ?_, hp⟩
        rw [descriptor, bind_of_done h, hrun]
        exact behind_failed (by simp; omega)
    · exact .inr ⟨_, _, bind_of_failed h, Progress.breaks_parameters htypes hbreaks hne⟩
  · refine .inr ⟨.start, ⟨cs, [.char '(']⟩, bind_of_failed (bind_of_failed (just_of_ne hopen)),
      trivial, rfl, fun c hc => ?_, by simp, rfl⟩
    rw [Progress.step_start, if_neg]
    rintro rfl
    exact hopen hc

end DescriptorGrammar

namespace Progress

theorem after_encode {d : MethodDescriptor} (hd : d.Encodable) :
    start.after d.encode.toList = some (complete d) :=
  after_written (p := complete d) hd

/-- Behind what has been read of it, a descriptor is completed by what is left of its text. -/
theorem after_of_encode {p : Progress} {d : MethodDescriptor} {rest : List Char}
    (hp : p.Encodable) (hd : d.Encodable) (h : p.written ++ rest = d.encode.toList) :
    p.after rest = some (complete d) := by
  have hafter := after_encode hd
  rwa [← h, after_append, after_written hp, Option.bind_some] at hafter

theorem Breaks.ne_encode {p : Progress} {cs : List Char} {fault : DescriptorGrammar.Fault}
    (h : p.Breaks cs fault) {d : MethodDescriptor} (hd : d.Encodable) : d.encode.toList ≠ cs := by
  intro hcs
  have hafter := after_of_encode h.encodable hd (h.text.trans hcs.symm)
  cases hrest : fault.rest with
  | nil =>
    rw [hrest] at hafter
    exact h.incomplete hrest d (Option.some.inj hafter)
  | cons c rest =>
    rw [hrest, after_cons, h.stuck c (by rw [hrest]; rfl)] at hafter
    cases hafter

end Progress

namespace MethodDescriptor

open DescriptorGrammar

theorem read_cases (s : String) :
    (∃ d, read s = .ok d ∧ d.Encodable ∧ d.encode = s) ∨
      ∃ p fault, read s = .error (fault.report s) ∧ Progress.Breaks p s.toList fault := by
  obtain ⟨d, passed, h, hd, henc⟩ | ⟨p, fault, h, hp⟩ := descriptor_cases s.toList
  · exact .inl ⟨d, by rw [read, h], hd, String.toList_inj.mp henc⟩
  · exact .inr ⟨p, fault, by rw [read, h], hp⟩

/-- No two descriptors are written alike. -/
theorem eq_of_encode_eq {d e : MethodDescriptor} (hd : d.Encodable) (he : e.Encodable)
    (h : d.encode = e.encode) : d = e := by
  have hafter := Progress.after_encode hd
  rw [h, Progress.after_encode he] at hafter
  cases hafter
  rfl

theorem read_eq_ok_iff {s : String} {d : MethodDescriptor} :
    read s = .ok d ↔ d.Encodable ∧ d.encode = s := by
  obtain ⟨e, h, he, rfl⟩ | ⟨p, fault, h, hp⟩ := read_cases s
  · rw [h, Except.ok.injEq]
    refine ⟨?_, fun ⟨hd, hencode⟩ => eq_of_encode_eq he hd hencode.symm⟩
    rintro rfl
    exact ⟨he, rfl⟩
  · rw [h]
    refine ⟨(nomatch ·), ?_⟩
    rintro ⟨hd, rfl⟩
    exact absurd rfl (hp.ne_encode hd)

/-- An error stands behind something that has been read of a descriptor. -/
theorem exists_of_read_eq_error {s : String} {e : DescriptorError} (h : read s = .error e) :
    ∃ p : Progress, p.Encodable ∧ (p.written = s.toList ∧ e = .unexpectedEnd s p.expected ∨
      ∃ c rest, p.written ++ c :: rest = s.toList ∧ p.step c = none ∧
        e = .unexpectedChar s p.expected c p.written.length) := by
  obtain ⟨d, hd, -⟩ | ⟨p, ⟨rest, expected⟩, herror, hp, htext, hstuck, -, rfl⟩ := read_cases s
  · rw [h] at hd
    cases hd
  obtain rfl := Except.error.inj (h.symm.trans herror)
  refine ⟨p, hp, ?_⟩
  cases rest with
  | nil => exact .inl ⟨(List.append_nil _).symm.trans htext, rfl⟩
  | cons c rest =>
    refine .inr ⟨c, rest, htext, hstuck c rfl, ?_⟩
    rw [Fault.report, ← htext, List.length_append, Nat.add_sub_cancel]

end MethodDescriptor

end LocalNames
