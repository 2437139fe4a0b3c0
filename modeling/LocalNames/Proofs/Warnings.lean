import LocalNames.Logging

/-! Warnings. Naming logs one for a method whose parent is not among the methods before it, and for
nothing else. -/

namespace LocalNames

theorem Registry.level_ne_warn_of_mem_drawLog {r : Registry} {key : TypeKey} :
    ∀ e ∈ r.drawLog key, e.level ≠ .warn := by
  intro e he
  rcases List.mem_append.mp he with he | he
  · obtain ⟨base, _, rfl⟩ := List.mem_map.mp he
    exact nofun
  · obtain rfl := List.mem_singleton.mp he
    exact nofun

namespace Namer

theorem level_ne_warn_of_mem_parameterLog {n : Namer} {slot : UInt32} {key : TypeKey} :
    ∀ e ∈ n.parameterLog slot key, e.level ≠ .warn := by
  unfold parameterLog
  split
  · exact nofun
  · exact Registry.level_ne_warn_of_mem_drawLog

theorem level_ne_warn_of_mem_variableLog {n : Namer} {slots : Nat} {v : VarId} {key : TypeKey} :
    ∀ e ∈ n.variableLog slots v key, e.level ≠ .warn := by
  unfold variableLog
  split
  · exact nofun
  split
  · exact Registry.level_ne_warn_of_mem_drawLog
  split
  · exact level_ne_warn_of_mem_parameterLog
  · exact nofun

theorem level_ne_warn_of_mem_variablesLog {n : Namer} {slots : Nat}
    {types : List (VarId × String)} : ∀ e ∈ n.variablesLog slots types, e.level ≠ .warn := by
  induction types generalizing n with
  | nil => exact nofun
  | cons p rest ih => exact List.forall_mem_append.mpr ⟨level_ne_warn_of_mem_variableLog, ih⟩

theorem level_ne_warn_of_mem_renameLog {n : Namer} {types : VariableTypes} :
    ∀ e ∈ n.renameLog types, e.level ≠ .warn := by
  unfold renameLog
  split
  · exact nofun
  · exact List.forall_mem_append.mpr
      ⟨level_ne_warn_of_mem_variablesLog, List.forall_mem_singleton.mpr nofun⟩

theorem level_ne_warn_of_mem_answerLog {n : Namer} {access : Access}
    {parameters : List ParameterRequest} :
    ∀ e ∈ n.answerLog access parameters, e.level ≠ .warn := by
  induction parameters generalizing n with
  | nil => exact nofun
  | cons p rest ih =>
    refine List.forall_mem_append.mpr ⟨?_, ih⟩
    split
    · exact level_ne_warn_of_mem_parameterLog
    · exact nofun

end Namer

namespace Method

variable {m : Method} {renames : Bool} {earlier : List RenamedMethod} {e : LogEvent}

theorem warn_mem_parentLog_iff : e ∈ m.parentLog earlier ∧ e.level = .warn ↔
    ∃ parent, m.parent = some parent ∧ parent ∉ earlier.map (·.name) ∧
      e = .unknownParent m.name parent := by
  cases hm : m.parent with
  | none => simp [parentLog, hm]
  | some parent =>
    cases hp : earlier.find? (·.name == parent) with
    | some p =>
      have hmem : parent ∈ earlier.map (·.name) :=
        List.mem_map.mpr ⟨p, List.mem_of_find?_eq_some hp, by simpa using List.find?_some hp⟩
      refine iff_of_false ?_ ?_
      · rintro ⟨he, hlevel⟩
        simp only [parentLog, hm, hp, List.mem_singleton] at he
        rw [he] at hlevel
        cases hlevel
      · rintro ⟨_, ⟨⟩, hnew, _⟩
        exact hnew hmem
    | none =>
      have hnew : parent ∉ earlier.map (·.name) := by simpa using hp
      simp only [parentLog, hm, hp, List.mem_singleton]
      constructor
      · rintro ⟨rfl, _⟩
        exact ⟨parent, rfl, hnew, rfl⟩
      · rintro ⟨_, ⟨⟩, _, rfl⟩
        exact ⟨rfl, rfl⟩

theorem warn_mem_log_iff : e ∈ m.log renames earlier ∧ e.level = .warn ↔
    ∃ parent, m.parent = some parent ∧ parent ∉ earlier.map (·.name) ∧
      e = .unknownParent m.name parent := by
  rw [← warn_mem_parentLog_iff]
  refine and_congr_left fun hlevel => ?_
  constructor
  · intro he
    rcases List.mem_append.mp he with he | he
    · rcases List.mem_append.mp he with he | he
      · exact he
      · exact absurd hlevel (Namer.level_ne_warn_of_mem_renameLog e he)
    · split at he
      · cases he
      · rcases List.mem_append.mp he with he | he
        · exact absurd hlevel (Namer.level_ne_warn_of_mem_answerLog e he)
        · obtain rfl := List.mem_singleton.mp he
          cases hlevel
  · exact fun he => List.mem_append_left _ (List.mem_append_left _ he)

example :
    let orphan := { headed "orphan" "()V" (Access.empty.insert .static) with
      parent := some "nobody"
      vars := [(⟨0, 0⟩, "Foo")] }
    orphan.log false [] = [.unknownParent "orphan" "nobody", .newFamily (.ofType "Foo") "foo",
      .nextName (.ofType "Foo") "foo", .renamedVariables 0 1, .namedMethod "orphan" 1] := by
  decide +kernel

end Method

end LocalNames
