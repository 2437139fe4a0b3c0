import LocalNames.Proofs.Collisions
import LocalNames.Proofs.Inheritance
import LocalNames.Proofs.Requests

/-! Names along a line of methods, each the parent of the next. All their draws are those of one
replay of the built-in families, so that the families keep the names of one scope apart and also
those of a whole line. -/

namespace LocalNames

theorem parentIndex?_lt {methods : List Method} {i j : Nat}
    (h : parentIndex? methods i = some j) : j < i := by
  obtain ⟨parent, _, hj⟩ := Option.bind_eq_some_iff.mp h
  exact List.mem_range.mp (List.mem_reverse.mp (List.mem_of_find?_eq_some hj))

section Lineage

variable (renames : Bool) (methods : List Method) (outs : List RenamedMethod)

/-- The method at `i` is named by a replay on a registry, with these draws. -/
def NamedFrom (start : Registry) (i : Nat) (draws : List Draw) : Prop :=
  ∃ m d out, methods[i]? = some m ∧ MethodDescriptor.read m.descriptor = .ok d ∧
    outs[i]? = some out ∧ m.Replays d renames start out ∧
    draws = (start.record (m.asks d renames)).map (·.2)

/-- The draws of the method at an index, after those of its parent and of all before that. -/
inductive Lineage : Nat → List Draw → Prop
  | root {i : Nat} {draws : List Draw} : parentIndex? methods i = none →
      NamedFrom renames methods outs .builtin i draws → Lineage i draws
  | child {i j : Nat} {parent : RenamedMethod} {before draws : List Draw} :
      parentIndex? methods i = some j → outs[j]? = some parent → Lineage j before →
      NamedFrom renames methods outs parent.registry i draws → Lineage i (before ++ draws)

end Lineage

variable {renames : Bool} {methods : List Method} {outs : List RenamedMethod}

theorem NamedFrom.draws_eq {start : Registry} {i : Nat} {draws : List Draw}
    (h : NamedFrom renames methods outs start i draws) :
    ∃ keys out, outs[i]? = some out ∧ draws = start.draws keys ∧
      out.registry = start.after keys := by
  obtain ⟨m, d, out, _, _, hout, hreplays, rfl⟩ := h
  exact ⟨_, out, hout, Registry.map_snd_record _ _, hreplays.registry⟩

/-- The draws of a line are a replay of the built-in families, which ends where the last method
of the line does. -/
theorem Lineage.draws_eq {i : Nat} {draws : List Draw} (h : Lineage renames methods outs i draws) :
    ∃ keys out, outs[i]? = some out ∧ draws = Registry.builtin.draws keys ∧
      out.registry = Registry.builtin.after keys := by
  induction h with
  | root _ hnamed => exact hnamed.draws_eq
  | child _ hparent _ hnamed ih =>
    obtain ⟨keys, out, hout, rfl, hreg⟩ := ih
    obtain rfl := Option.some_inj.mp (hparent.symm.trans hout)
    obtain ⟨more, out', hout', rfl, hreg'⟩ := hnamed.draws_eq
    refine ⟨keys ++ more, out', hout', ?_, ?_⟩
    · rw [Registry.draws_append, hreg]
    · rw [Registry.after_append, hreg', hreg]

/-- Every method of a listing ends a line. -/
theorem exists_lineage (hread : ∀ m ∈ methods, ∃ d, MethodDescriptor.read m.descriptor = .ok d)
    (hlen : outs.length = methods.length)
    (hall : ∀ (i : Nat) (m : Method) (d : MethodDescriptor), methods[i]? = some m →
      MethodDescriptor.read m.descriptor = .ok d → ∃ out, outs[i]? = some out ∧
        m.Replays d renames (startRegistry methods outs i) out) {i : Nat}
    (hi : i < methods.length) : ∃ draws, Lineage renames methods outs i draws := by
  induction i using Nat.strongRecOn with
  | ind i ih =>
    have hm := List.getElem?_eq_getElem hi
    obtain ⟨d, hd⟩ := hread _ (List.getElem_mem hi)
    obtain ⟨out, hout, hreplays⟩ := hall i _ d hm hd
    cases hp : parentIndex? methods i with
    | none =>
      rw [startRegistry, hp, Option.bind_none, Option.elim_none] at hreplays
      exact ⟨_, .root hp ⟨_, d, out, hm, hd, hout, hreplays, rfl⟩⟩
    | some j =>
      have hji := parentIndex?_lt hp
      obtain ⟨before, hbefore⟩ := ih j hji (by omega)
      have hparent := List.getElem?_eq_getElem (l := outs) (i := j) (by omega)
      rw [startRegistry, hp, Option.bind_some, hparent, Option.elim_some] at hreplays
      exact ⟨_, .child hp hparent hbefore ⟨_, d, out, hm, hd, hout, hreplays, rfl⟩⟩

/-- Draws from families whose candidates are separated give no name twice. The built-in families
are such, and give no name twice to a scope or along a line of methods. -/
theorem separated_draws_nodup :
    (∀ (r : Registry) (keys : List TypeKey), (r.after keys).Separated →
      (Draw.familyNames (r.draws keys)).Nodup) ∧
    Registry.builtin.Separated ∧
    (∀ (descriptor : String) (d : MethodDescriptor) (access : Access) (renames : Bool)
      (requests : List Request), MethodDescriptor.read descriptor = .ok d →
      let asks := asksFrom (d.slots access) renames 0 requests
      ∃ answers n, (Namer.start access descriptor renames).serveAll requests = .ok (answers, n) ∧
        (∀ (i : Nat) (q : Request), requests[i]? = some q → ∃ a, answers[i]? = some a ∧
          a.IsBy (d.slots access) renames (Registry.builtin.nameOf? asks) i q) ∧
        (Draw.builtinNames ((Registry.builtin.record asks).map (·.2))).Nodup) ∧
    ∀ (renames : Bool) (methods : List Method),
      (∀ m ∈ methods, ∃ d, MethodDescriptor.read m.descriptor = .ok d) →
      ∃ outs, renameListing renames methods = .ok outs ∧ outs.length = methods.length ∧
        (∀ i < methods.length, ∃ draws, Lineage renames methods outs i draws) ∧
        ∀ i draws, Lineage renames methods outs i draws → (Draw.builtinNames draws).Nodup := by
  refine ⟨fun r keys => Registry.Separated.familyNames_nodup, Registry.builtin_separated, ?_, ?_⟩
  · intro descriptor d access renames requests hd asks
    obtain ⟨answers, n, hrun, _, _, hby⟩ := Namer.serveAll_start hd access renames requests
    refine ⟨answers, n, hrun, hby, ?_⟩
    rw [Registry.map_snd_record]
    exact Registry.builtinNames_nodup _
  · intro renames methods hread
    have hnone : ([] : List RenamedMethod).map (·.name) = ([] : List Method).map (·.name) := rfl
    obtain ⟨outs, hok, hlen, hall⟩ := renameFrom_replays renames hnone hread
    simp only [List.nil_append, List.length_nil, Nat.zero_add] at hall
    refine ⟨outs, hok, hlen, fun i hi => exists_lineage hread hlen hall hi, ?_⟩
    intro i draws h
    obtain ⟨keys, _, _, rfl, _⟩ := h.draws_eq
    exact Registry.builtinNames_nodup keys

/-- Classes whose names stay apart from each other and from the built-in ones; the families of a
scope and of a line of three methods. -/
theorem separated_class_draws_nodup :
    (Registry.builtin.after [.ofType "Foo", .ofType "int", .ofType "Bar[]", .ofType "Foo",
        .ofType "long"]).Separated ∧
      (Draw.familyNames (Registry.builtin.draws [.ofType "Foo", .ofType "int", .ofType "Bar[]",
        .ofType "Foo", .ofType "long"])).Nodup ∧
      MethodDescriptor.read "(J)V" = .ok ⟨[.primitive .long], none⟩ ∧
      (∃ answers n, (Namer.start .empty "(J)V" true).serveAll
          [.vars {(⟨3, 0⟩, "int")}, .parameter .empty "long" "x" 1] = .ok (answers, n) ∧
        (Draw.builtinNames ((Registry.builtin.record (asksFrom 3 true 0
          [.vars {(⟨3, 0⟩, "int")}, .parameter .empty "long" "x" 1])).map (·.2))).Nodup) ∧
      (∀ m ∈ overloaded, ∃ d, MethodDescriptor.read m.descriptor = .ok d) ∧
      ∃ outs draws, renameListing true overloaded = .ok outs ∧
        Lineage true overloaded outs 2 draws ∧ (Draw.builtinNames draws).Nodup := by
  obtain ⟨hnodup, _, hscope, hline⟩ := separated_draws_nodup
  have hsep : (Registry.builtin.after [.ofType "Foo", .ofType "int", .ofType "Bar[]",
      .ofType "Foo", .ofType "long"]).Separated :=
    Registry.separated_of_no_digit (by decide +kernel) (by decide +kernel)
  have hd : MethodDescriptor.read "(J)V" = .ok ⟨[.primitive .long], none⟩ := rfl
  obtain ⟨answers, n, hrun, _, hnames⟩ := hscope "(J)V" _ .empty true
    [.vars {(⟨3, 0⟩, "int")}, .parameter .empty "long" "x" 1] hd
  obtain ⟨outs, hok, _, hlines, hall⟩ := hline true overloaded overloaded_readable
  obtain ⟨draws, hdraws⟩ := hlines 2 (by decide)
  exact ⟨hsep, hnodup _ _ hsep, hd, ⟨answers, n, hrun, hnames⟩, overloaded_readable, outs, draws,
    hok, hdraws, hall 2 draws hdraws⟩

end LocalNames
