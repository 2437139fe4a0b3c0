import LocalNames.Descriptor.Basic
import LocalNames.Descriptor.Error
import Mathlib.Tactic.SplitIfs

/-! What has been read of a descriptor, from left to right. Whatever it is, it is what has been
written of a descriptor, and one character goes on with it in one way at most. -/

namespace LocalNames

namespace FieldType

/-- `dims` arrays around a type. -/
def nested (type : FieldType) : Nat → FieldType
  | 0 => type
  | dims + 1 => array (nested type dims)

theorem nested_array (t : FieldType) (dims : Nat) :
    nested (array t) dims = nested t (dims + 1) := by
  induction dims with
  | zero => rfl
  | succ dims ih => rw [nested, ih]; rfl

theorem encode_nested (t : FieldType) (dims : Nat) :
    (nested t dims).encode = List.replicate dims '[' ++ t.encode := by
  induction dims with
  | zero => rfl
  | succ dims ih => rw [nested, encode, ih, List.replicate_succ, List.cons_append]

theorem encodable_nested (t : FieldType) (dims : Nat) :
    (nested t dims).Encodable ↔ t.Encodable := by
  induction dims with
  | zero => rfl
  | succ dims ih => rw [nested, Encodable, ih]

end FieldType

/-- What has been read of a type that is not complete: brackets, or brackets, an `L` and a part
of a class name. -/
inductive FieldProgress
  | brackets (dims : Nat)
  | name (dims : Nat) (read : List Char)
  deriving DecidableEq

namespace FieldProgress

/-- Goes on with a character, which may complete the type. -/
def step : FieldProgress → Char → Option (FieldProgress ⊕ FieldType)
  | brackets dims, '[' => some (.inl (brackets (dims + 1)))
  | brackets dims, 'L' => some (.inl (name dims []))
  | brackets dims, c => (PrimitiveType.ofLetter? c).map fun p => .inr (.nested (.primitive p) dims)
  | name dims read, ';' => some (.inr (.nested (.object (String.ofList read)) dims))
  | name dims read, c => some (.inl (name dims (read ++ [c])))

/-- What a fault at this point is said to stand in place of. The letters of the primitive types
are not listed. -/
def expected : FieldProgress → List Expectation
  | brackets _ => [.char 'L', .char '[']
  | name _ _ => [.char ';']

/-- The same where `c` could stand in place of the whole type. -/
def expectedOr (c : Char) (field : FieldProgress) : List Expectation :=
  if field = brackets 0 then field.expected.foldr Expectation.insert [.char c] else field.expected

end FieldProgress

/-- What has been read of a method descriptor. -/
inductive Progress
  | start
  | parameters (done : List FieldType) (field : FieldProgress)
  | result (parameters : List FieldType) (field : FieldProgress)
  | complete (descriptor : MethodDescriptor)
  deriving DecidableEq

namespace Progress

def step : Progress → Char → Option Progress
  | start, '(' => some (parameters [] (.brackets 0))
  | start, _ => none
  | parameters done (.brackets 0), ')' => some (result done (.brackets 0))
  | parameters done field, c => (field.step c).map fun
    | .inl field => parameters done field
    | .inr type => parameters (done ++ [type]) (.brackets 0)
  | result types (.brackets 0), 'V' => some (complete ⟨types, none⟩)
  | result types field, c => (field.step c).map fun
    | .inl field => result types field
    | .inr type => complete ⟨types, some type⟩
  | complete _, _ => none

/-- What a fault at this point is said to stand in place of. -/
def expected : Progress → List Expectation
  | start => [.char '(']
  | parameters _ field => field.expectedOr ')'
  | result _ field => field.expectedOr 'V'
  | complete _ => [.ending]

end Progress

/-! ### What has been read of a type -/

namespace FieldProgress

/-- The text that has been read. -/
def written : FieldProgress → List Char
  | brackets dims => List.replicate dims '['
  | name dims read => List.replicate dims '[' ++ 'L' :: read

/-- Whether the name read so far goes on. -/
def Encodable : FieldProgress → Prop
  | brackets _ => True
  | name _ read => ';' ∉ read

/-- Whether a step has led to what `text` writes. -/
def Writes (text : List Char) : FieldProgress ⊕ FieldType → Prop
  | .inl field => field.Encodable ∧ field.written = text
  | .inr type => type.Encodable ∧ type.encode = text

theorem step_letter (dims : Nat) (p : PrimitiveType) :
    (brackets dims).step p.letter = some (.inr (.nested (.primitive p) dims)) := by
  cases p <;> rfl

theorem step_name {c : Char} (hc : c ≠ ';') (dims : Nat) (read : List Char) :
    (name dims read).step c = some (.inl (name dims (read ++ [c]))) := by
  unfold step
  split <;> simp_all

/-- A step writes its character behind what is there. -/
theorem writes_of_step {field : FieldProgress} {c : Char} {next : FieldProgress ⊕ FieldType}
    (hf : field.Encodable) (h : field.step c = some next) : Writes (field.written ++ [c]) next := by
  unfold step at h
  split at h
  · cases h
    exact ⟨trivial, by rw [written, written, List.replicate_succ']⟩
  · cases h
    exact ⟨List.not_mem_nil, rfl⟩
  · obtain ⟨p, hp, rfl⟩ := Option.map_eq_some_iff.mp h
    rw [← PrimitiveType.letter_of_ofLetter? hp]
    exact ⟨(FieldType.encodable_nested _ _).mpr trivial, FieldType.encode_nested _ _⟩
  · next dims read =>
    cases h
    refine ⟨(FieldType.encodable_nested _ _).mpr ?_, ?_⟩
    · rw [FieldType.Encodable, String.toList_ofList]
      exact hf
    · rw [FieldType.encode_nested, FieldType.encode, String.toList_ofList, written,
        List.append_assoc]
  · next dims read hc =>
    cases h
    refine ⟨?_, by rw [written, written, List.append_assoc, List.cons_append]⟩
    rw [Encodable, List.mem_append, List.mem_singleton]
    exact not_or.mpr ⟨hf, fun he => hc he.symm⟩

end FieldProgress

/-! ### What has been read of a descriptor -/

namespace Progress

/-- The text that has been read. -/
def written : Progress → List Char
  | start => []
  | parameters done field => '(' :: done.flatMap FieldType.encode ++ field.written
  | result types field => '(' :: types.flatMap FieldType.encode ++ ')' :: field.written
  | complete d => d.encode.toList

def Encodable : Progress → Prop
  | start => True
  | parameters types field | result types field =>
    (∀ t ∈ types, t.Encodable) ∧ field.Encodable
  | complete d => d.Encodable

/-- What follows a step in a parameter. -/
def ofParameter (done : List FieldType) : FieldProgress ⊕ FieldType → Progress
  | .inl field => parameters done field
  | .inr type => parameters (done ++ [type]) (.brackets 0)

/-- What follows a step in the type of the result. -/
def ofResult (types : List FieldType) : FieldProgress ⊕ FieldType → Progress
  | .inl field => result types field
  | .inr type => complete ⟨types, some type⟩

/-- Whether a type is read inside `frame` as it is by itself. -/
def Frames (frame : FieldProgress ⊕ FieldType → Progress) : Prop :=
  ∀ (field : FieldProgress) (c : Char) (next : FieldProgress ⊕ FieldType),
    field.step c = some next → (frame (.inl field)).step c = some (frame next)

theorem step_start (c : Char) :
    start.step c = if c = '(' then some (parameters [] (.brackets 0)) else none := by
  unfold step
  split <;> simp_all

theorem step_parameters (done : List FieldType) (field : FieldProgress) (c : Char) :
    (parameters done field).step c =
      if field = .brackets 0 ∧ c = ')' then some (result done (.brackets 0))
      else (field.step c).map (ofParameter done) := by
  split_ifs with h
  · obtain ⟨rfl, rfl⟩ := h
    rfl
  · rw [step]
    · rfl
    · exact fun hc hfield => h ⟨hfield, hc⟩

theorem step_result (types : List FieldType) (field : FieldProgress) (c : Char) :
    (result types field).step c =
      if field = .brackets 0 ∧ c = 'V' then some (complete ⟨types, none⟩)
      else (field.step c).map (ofResult types) := by
  split_ifs with h
  · obtain ⟨rfl, rfl⟩ := h
    rfl
  · rw [step]
    · rfl
    · exact fun hc hfield => h ⟨hfield, hc⟩

theorem frames_ofParameter (done : List FieldType) : Frames (ofParameter done) := by
  intro field c next h
  rw [ofParameter, step_parameters, if_neg, h, Option.map_some]
  rintro ⟨rfl, rfl⟩
  cases h

theorem frames_ofResult (types : List FieldType) : Frames (ofResult types) := by
  intro field c next h
  rw [ofResult, step_result, if_neg, h, Option.map_some]
  rintro ⟨rfl, rfl⟩
  cases h

/-- A step writes its character behind what is there. -/
theorem written_of_step {p q : Progress} {c : Char} (hp : p.Encodable) (h : p.step c = some q) :
    q.Encodable ∧ q.written = p.written ++ [c] := by
  cases p with
  | start =>
    rw [step_start] at h
    split_ifs at h with hc
    obtain rfl := hc
    cases h
    exact ⟨⟨by simp, trivial⟩, rfl⟩
  | parameters done field =>
    obtain ⟨hdone, hfield⟩ := hp
    rw [step_parameters] at h
    split_ifs at h with hc
    · obtain ⟨rfl, rfl⟩ := hc
      cases h
      exact ⟨⟨hdone, trivial⟩, by simp [written, FieldProgress.written]⟩
    · obtain ⟨next, hnext, rfl⟩ := Option.map_eq_some_iff.mp h
      have hw := FieldProgress.writes_of_step hfield hnext
      cases next with
      | inl field =>
        obtain ⟨he, hw⟩ := hw
        exact ⟨⟨hdone, he⟩, by rw [ofParameter, written, hw, written, List.append_assoc]⟩
      | inr type =>
        obtain ⟨he, hw⟩ := hw
        refine ⟨⟨?_, trivial⟩, ?_⟩
        · simpa [or_imp, forall_and] using ⟨hdone, he⟩
        · simp [ofParameter, written, FieldProgress.written, hw]
  | result types field =>
    obtain ⟨htypes, hfield⟩ := hp
    rw [step_result] at h
    split_ifs at h with hc
    · obtain ⟨rfl, rfl⟩ := hc
      cases h
      exact ⟨⟨htypes, by simp⟩, by simp [written, FieldProgress.written, MethodDescriptor.encode]⟩
    · obtain ⟨next, hnext, rfl⟩ := Option.map_eq_some_iff.mp h
      have hw := FieldProgress.writes_of_step hfield hnext
      cases next with
      | inl field =>
        obtain ⟨he, hw⟩ := hw
        exact ⟨⟨htypes, he⟩, by simp [ofResult, written, hw]⟩
      | inr type =>
        obtain ⟨he, hw⟩ := hw
        refine ⟨⟨htypes, by simpa using he⟩, ?_⟩
        simp [ofResult, written, MethodDescriptor.encode, hw]
  | complete d => cases h

/-! ### Reading what has been written -/

/-- What has been read when all characters have been. -/
def after (p : Progress) (cs : List Char) : Option Progress :=
  cs.foldlM step p

theorem after_cons (p : Progress) (c : Char) (cs : List Char) :
    p.after (c :: cs) = (p.step c).bind (·.after cs) :=
  List.foldlM_cons

theorem after_append (p : Progress) (cs ds : List Char) :
    p.after (cs ++ ds) = (p.after cs).bind (·.after ds) :=
  List.foldlM_append

theorem written_of_after {p q : Progress} {cs : List Char} (hp : p.Encodable)
    (h : p.after cs = some q) : q.Encodable ∧ q.written = p.written ++ cs := by
  induction cs generalizing p with
  | nil =>
    cases h
    exact ⟨hp, (List.append_nil _).symm⟩
  | cons c cs ih =>
    rw [after_cons] at h
    obtain ⟨next, hnext, h⟩ := Option.bind_eq_some_iff.mp h
    obtain ⟨he, hw⟩ := written_of_step hp hnext
    obtain ⟨hq, hqw⟩ := ih he h
    exact ⟨hq, by rw [hqw, hw, List.append_assoc, List.singleton_append]⟩

section Frame

variable {frame : FieldProgress ⊕ FieldType → Progress} (hf : Frames frame)
include hf

theorem after_brackets (dims more : Nat) :
    (frame (.inl (.brackets dims))).after (List.replicate more '[') =
      some (frame (.inl (.brackets (dims + more)))) := by
  induction more generalizing dims with
  | zero => rfl
  | succ more ih =>
    rw [List.replicate_succ, after_cons, hf _ _ _ rfl, Option.bind_some, ih, Nat.add_right_comm,
      Nat.add_assoc]

theorem after_name {cs : List Char} (hc : ';' ∉ cs) (dims : Nat) (read : List Char) :
    (frame (.inl (.name dims read))).after cs =
      some (frame (.inl (.name dims (read ++ cs)))) := by
  induction cs generalizing read with
  | nil => rw [List.append_nil]; rfl
  | cons c cs ih =>
    obtain ⟨hne, hcs⟩ := List.ne_and_not_mem_of_not_mem_cons hc
    rw [after_cons, hf _ _ _ (FieldProgress.step_name hne.symm _ _), Option.bind_some, ih hcs,
      List.append_assoc, List.singleton_append]

theorem after_field {field : FieldProgress} (he : field.Encodable) :
    (frame (.inl (.brackets 0))).after field.written = some (frame (.inl field)) := by
  cases field with
  | brackets dims => rw [FieldProgress.written, after_brackets hf, Nat.zero_add]
  | name dims read =>
    rw [FieldProgress.written, after_append, after_brackets hf, Option.bind_some, after_cons,
      hf _ _ _ rfl, Option.bind_some, after_name hf he, Nat.zero_add, List.nil_append]

theorem after_type {t : FieldType} (he : t.Encodable) (dims : Nat) :
    (frame (.inl (.brackets dims))).after t.encode = some (frame (.inr (t.nested dims))) := by
  induction t generalizing dims with
  | primitive p =>
    rw [FieldType.encode, after_cons, hf _ _ _ (FieldProgress.step_letter dims p)]
    rfl
  | object name =>
    rw [FieldType.encode, List.cons_append, after_cons, hf _ _ _ rfl, Option.bind_some,
      after_append, after_name hf he, Option.bind_some, after_cons, hf _ _ _ rfl, List.nil_append,
      String.ofList_toList]
    rfl
  | array element ih =>
    rw [FieldType.encode, after_cons, hf _ _ _ rfl, Option.bind_some, ih he,
      FieldType.nested_array]

end Frame

theorem after_types {types : List FieldType} (he : ∀ t ∈ types, t.Encodable)
    (done : List FieldType) : (parameters done (.brackets 0)).after
      (types.flatMap FieldType.encode) = some (parameters (done ++ types) (.brackets 0)) := by
  induction types generalizing done with
  | nil => rw [List.append_nil]; rfl
  | cons t types ih =>
    obtain ⟨ht, htypes⟩ := List.forall_mem_cons.mp he
    rw [List.flatMap_cons, after_append]
    show ((ofParameter done (.inl (.brackets 0))).after _).bind _ = _
    rw [after_type (frames_ofParameter done) ht, Option.bind_some]
    show (parameters (done ++ [t]) (.brackets 0)).after _ = _
    rw [ih htypes, List.append_assoc, List.singleton_append]

theorem after_parameters {types : List FieldType} (he : ∀ t ∈ types, t.Encodable)
    (rest : List Char) : start.after ('(' :: types.flatMap FieldType.encode ++ rest) =
      (parameters types (.brackets 0)).after rest := by
  rw [List.cons_append, after_cons]
  show (parameters [] (.brackets 0)).after _ = _
  rw [after_append, after_types he, List.nil_append, Option.bind_some]

/-- Whatever can have been read is read from the text that has been written. -/
theorem after_written {p : Progress} (hp : p.Encodable) : start.after p.written = some p := by
  cases p with
  | start => rfl
  | parameters done field =>
    obtain ⟨hdone, hfield⟩ := hp
    rw [written, after_parameters hdone]
    exact after_field (frames_ofParameter done) hfield
  | result types field =>
    obtain ⟨htypes, hfield⟩ := hp
    rw [written, after_parameters htypes, after_cons]
    exact after_field (frames_ofResult types) hfield
  | complete d =>
    obtain ⟨types, result⟩ := d
    obtain ⟨htypes, hresult⟩ := hp
    rw [written, MethodDescriptor.encode, String.toList_ofList, after_parameters htypes, after_cons]
    cases result with
    | none => rfl
    | some t => exact after_type (frames_ofResult types) (hresult t rfl) 0

theorem start_after_eq_some_iff {cs : List Char} {p : Progress} :
    start.after cs = some p ↔ p.Encodable ∧ p.written = cs := by
  refine ⟨fun h => ?_, ?_⟩
  · simpa [written] using written_of_after (p := start) trivial h
  · rintro ⟨hp, rfl⟩
    exact after_written hp

end Progress

end LocalNames
