import LocalNames.Proofs.Collisions
import LocalNames.Proofs.Requests

/-! Names of different local variables in one scope. Those of one family are always different;
those of two families are the same when the candidates and the numbers behind them meet, which the
families of classes and arrays can do. -/

namespace LocalNames

/-- In its call the variable is answered by the name, and its slot belongs to no parameter. -/
structure LocalNamed (slots : Nat) (answers : List Answer) (call : Nat) (v : VarId)
    (name : String) : Prop where
  slots_le : slots ≤ v.slot.toNat
  answered : ∃ names, answers[call]? = some (.vars names) ∧ (v, name) ∈ names

/-- The name of a local variable is that of its own draw. -/
theorem LocalNamed.nameOf? {descriptor : String} {d : MethodDescriptor} {access : Access}
    {renames : Bool} {requests : List Request} {answers : List Answer} {n : Namer}
    (hd : MethodDescriptor.read descriptor = .ok d)
    (hrun : (Namer.start access descriptor renames).serveAll requests = .ok (answers, n))
    {call : Nat} {v : VarId} {name : String}
    (h : LocalNamed (d.slots access) answers call v name) :
    Registry.builtin.nameOf? (asksFrom (d.slots access) renames 0 requests) (.var call v) =
      some name := by
  obtain ⟨answers', n', hrun', _, hlen, hby⟩ := Namer.serveAll_start hd access renames requests
  obtain ⟨rfl, rfl⟩ := Prod.mk.inj (Except.ok.inj (hrun.symm.trans hrun'))
  obtain ⟨names, ha, hv⟩ := h.answered
  have hlt : call < requests.length := by
    have := (List.getElem?_eq_some_iff.mp ha).1
    omega
  obtain ⟨a, ha', hby⟩ := hby call _ (List.getElem?_eq_getElem hlt)
  obtain rfl : Answer.vars names = a := Option.some_inj.mp (ha.symm.trans ha')
  exact hby.local hv h.slots_le

/-- Names of two local variables of a scope that come from families are the same exactly when the
families are different ones that meet. -/
theorem local_names_eq_iff {descriptor : String} {d : MethodDescriptor} {access : Access}
    {renames : Bool} {requests : List Request} {answers : List Answer} {n : Namer}
    (hd : MethodDescriptor.read descriptor = .ok d)
    (hrun : (Namer.start access descriptor renames).serveAll requests = .ok (answers, n))
    {c c' : Nat} {v v' : VarId} {name name' : String}
    (h : LocalNamed (d.slots access) answers c v name)
    (h' : LocalNamed (d.slots access) answers c' v' name') (hne : (c, v) ≠ (c', v'))
    {k k' : String} {i i' : Nat}
    (hk : Registry.builtin.sourceOf? (asksFrom (d.slots access) renames 0 requests) (.var c v) =
      some (k, i))
    (hk' : Registry.builtin.sourceOf? (asksFrom (d.slots access) renames 0 requests)
      (.var c' v') = some (k', i')) :
    name = name' ↔ k ≠ k' ∧ ∃ f f', n.registry.families[k]? = some f ∧
      n.registry.families[k']? = some f' ∧ f.Meets i f' i' := by
  obtain ⟨_, n', hrun', hreg, _, _⟩ := Namer.serveAll_start hd access renames requests
  obtain ⟨rfl, rfl⟩ := Prod.mk.inj (Except.ok.inj (hrun.symm.trans hrun'))
  obtain ⟨e, he, rfl⟩ := Option.map_eq_some_iff.mp (h.nameOf? hd hrun)
  obtain ⟨e', he', rfl⟩ := Option.map_eq_some_iff.mp (h'.nameOf? hd hrun)
  rw [Registry.sourceOf?, he, Option.bind_some] at hk
  rw [Registry.sourceOf?, he', Option.bind_some] at hk'
  have hholder : Holder.var c v ≠ .var c' v' := by
    intro heq
    obtain ⟨rfl, rfl⟩ := Holder.var.inj heq
    exact hne rfl
  have hsource : (k, i) ≠ (k', i') := by
    intro heq
    exact Registry.source_ne_of_lookup he he' hholder hk (heq ▸ hk')
  rw [hreg, Registry.afterAsks]
  exact Registry.draws_name_eq_iff (Registry.mem_draws_of_lookup he)
    (Registry.mem_draws_of_lookup he') hk hk' hsource

/-- The family of an array of classes meets that of a class in front of whose name stands an `A`, as
two locals with the same name show; here a parameter of two slots goes before the locals. -/
theorem array_local_meets_class_local :
    ∃ answers n, (Namer.start (Access.empty.insert .static) "(IJ)V" false).serveAll
        [.vars {(⟨3, 0⟩, "Foo[]")}, .vars {(⟨3, 0⟩, "AFoo"), (⟨4, 0⟩, "long")}] =
          .ok (answers, n) ∧
      LocalNamed 3 answers 0 ⟨3, 0⟩ "afoo" ∧ LocalNamed 3 answers 1 ⟨3, 0⟩ "afoo" ∧
      "foo[]" ≠ "afoo" ∧ ∃ f f', n.registry.families["foo[]"]? = some f ∧
        n.registry.families["afoo"]? = some f' ∧ f.Meets 0 f' 0 := by
  have hd : MethodDescriptor.read "(IJ)V" = .ok ⟨[.primitive .int, .primitive .long], none⟩ := rfl
  have hrun : (Namer.start (Access.empty.insert .static) "(IJ)V" false).serveAll
      [.vars {(⟨3, 0⟩, "Foo[]")}, .vars {(⟨3, 0⟩, "AFoo"), (⟨4, 0⟩, "long")}] =
        .ok ([.vars [(⟨3, 0⟩, "afoo")], .vars [(⟨3, 0⟩, "afoo"), (⟨4, 0⟩, "i")]], _) :=
    rfl
  have harray : LocalNamed 3 [.vars [(⟨3, 0⟩, "afoo")],
      .vars [(⟨3, 0⟩, "afoo"), (⟨4, 0⟩, "i")]] 0 ⟨3, 0⟩ "afoo" :=
    ⟨by decide, _, rfl, by decide⟩
  have hclass : LocalNamed 3 [.vars [(⟨3, 0⟩, "afoo")],
      .vars [(⟨3, 0⟩, "afoo"), (⟨4, 0⟩, "i")]] 1 ⟨3, 0⟩ "afoo" :=
    ⟨by decide, _, rfl, by decide⟩
  refine ⟨_, _, hrun, harray, hclass, ?_⟩
  exact (local_names_eq_iff hd hrun harray hclass (by decide) (by decide +kernel)
    (by decide +kernel)).mp rfl

/-- It is not true that local variables with names from families all have different ones. -/
theorem local_names_not_unique :
    ¬∀ (descriptor : String) (d : MethodDescriptor) (access : Access) (renames : Bool)
      (requests : List Request) (answers : List Answer) (n : Namer),
      MethodDescriptor.read descriptor = .ok d →
      (Namer.start access descriptor renames).serveAll requests = .ok (answers, n) →
      ∀ (c c' : Nat) (v v' : VarId) (name name' : String),
        LocalNamed (d.slots access) answers c v name →
        LocalNamed (d.slots access) answers c' v' name' → (c, v) ≠ (c', v') →
        (Registry.builtin.sourceOf? (asksFrom (d.slots access) renames 0 requests)
          (.var c v)).isSome →
        (Registry.builtin.sourceOf? (asksFrom (d.slots access) renames 0 requests)
          (.var c' v')).isSome → name ≠ name' := by
  intro h
  have hrun : (Namer.start (Access.empty.insert .static) "()V" false).serveAll
      [.vars {(⟨0, 0⟩, "Foo[]"), (⟨1, 0⟩, "AFoo")}] =
        .ok ([.vars [(⟨0, 0⟩, "afoo"), (⟨1, 0⟩, "afoo")]], _) := rfl
  exact h _ ⟨[], none⟩ _ _ _ _ _ rfl hrun 0 0 ⟨0, 0⟩ ⟨1, 0⟩ "afoo" "afoo"
    ⟨by decide, _, rfl, by decide⟩ ⟨by decide, _, rfl, by decide⟩ (by decide)
    (by decide +kernel) (by decide +kernel) rfl

end LocalNames
