import LocalNames.Proofs.Naming

/-! Naming a listing is a replay of registries. What a method draws is known before any name is
given; its registry starts where that of its parent ends, and all names are those of the draws in
their order. -/

namespace LocalNames

/-! ### One method -/

namespace Method

/-- The variables that get a name, in the order of their identities, with the asks for it. Of
several types for one variable the last counts. -/
def variableAsks (m : Method) (d : MethodDescriptor) (renames : Bool) : List (VarId × Ask) :=
  LocalNames.variableAsks (d.slots m.access) renames 0
    (Std.ExtTreeMap.ofList m.vars : VariableTypes).toList

/-- All asks: those of the variables, then those for parameters where these are renamed. -/
def asks (m : Method) (d : MethodDescriptor) (renames : Bool) : List Ask :=
  (m.variableAsks d renames).map (·.2) ++ if renames then m.parameters.map (·.ask) else []

/-- The outcome is that of replaying the asks of the method on a registry. -/
structure Replays (m : Method) (d : MethodDescriptor) (renames : Bool) (start : Registry)
    (out : RenamedMethod) : Prop where
  name : out.name = m.name
  vars : out.vars.map (fun (v, name) => (v, some name)) =
    (m.variableAsks d renames).map fun (v, a) => (v, start.nameOf? (m.asks d renames) a.holder)
  parameters : out.parameters.map (fun (p, name) => (p, some name)) =
    m.parameters.map fun p => (p, if renames then
      start.nameOf? (m.asks d renames) (.parameter p.slot) else some p.name)
  registry : out.registry = start.afterAsks (m.asks d renames)

theorem asks_once (m : Method) (d : MethodDescriptor) (renames : Bool) :
    (m.asks d renames).Pairwise fun a b => a.holder = b.holder → b.holder.isParameter = true := by
  have hparameter : ∀ a ∈ (if renames then m.parameters.map (·.ask) else []),
      a.holder.isParameter = true := by
    intro a ha
    split at ha
    · obtain ⟨p, _, rfl⟩ := List.mem_map.mp ha
      rfl
    · cases ha
  refine List.pairwise_append.mpr ⟨variableAsks_once _ _ _ _, ?_, fun _ _ b hb _ => hparameter b hb⟩
  exact List.pairwise_of_forall_mem_list fun _ _ b hb _ => hparameter b hb

/-- The registry a method starts with, when methods have been named before it. -/
def startRegistry (m : Method) (earlier : List RenamedMethod) : Registry :=
  (m.parent.bind fun parent => earlier.find? (·.name == parent)).elim .builtin (·.registry)

theorem namer_follows (m : Method) (renames : Bool) (earlier : List RenamedMethod) :
    (m.namer renames earlier).Follows ⟨[], m.startRegistry earlier⟩ ∧
      (m.namer renames earlier).settings = (m.access, m.descriptor, renames) := by
  have hstart := Namer.follows_start m.access m.descriptor renames
  unfold namer startRegistry
  cases m.parent.bind fun parent => earlier.find? (·.name == parent) with
  | none => exact ⟨hstart, rfl⟩
  | some parent => exact ⟨hstart.adopt parent.registry, rfl⟩

theorem rename_replays {m : Method} {d : MethodDescriptor}
    (hd : MethodDescriptor.read m.descriptor = .ok d) (renames : Bool)
    (earlier : List RenamedMethod) :
    ∃ out, m.rename renames earlier = .ok out ∧
      m.Replays d renames (m.startRegistry earlier) out := by
  obtain ⟨hf, hset⟩ := namer_follows m renames earlier
  generalize m.startRegistry earlier = start at hf ⊢
  unfold rename
  generalize m.namer renames earlier = n at hf hset ⊢
  obtain ⟨haccess, hdescriptor, hrenames⟩ := Namer.settings_eq_iff.mp hset
  obtain ⟨hvars, hparameters, hregistry⟩ := hf.askAll_eq (m.asks_once d renames)
  simp only [Namer.rename, hdescriptor, hd, Except.map, haccess, Namer.nameVariables_eq _ _ 0,
    hrenames]
  have hasks : LocalNames.variableAsks (d.slots m.access) renames 0
      (Std.ExtTreeMap.ofList m.vars : VariableTypes).toList = m.variableAsks d renames := rfl
  have hkeep : (n.askAll ((m.variableAsks d renames).map (·.2))).2.renamesParameters = renames :=
    congrArg (·.2.2) ((Namer.settings_askAll n _).trans hset)
  rw [List.map_map] at hvars
  rw [hasks]
  -- the rest of the asks are those for parameters, if there are any
  refine ⟨_, rfl, rfl, map_some_zip (·.1) hvars, ?_, ?_⟩
  · cases renames with
    | false => simp [Namer.answer_eq_of_not hkeep]
    | true =>
      rw [if_pos rfl, List.map_map] at hparameters
      have hzip := map_some_zip id hparameters
      rw [List.map_id] at hzip
      simp only [Namer.answer_eq hkeep]
      exact hzip
  · cases renames with
    | false =>
      simp only [Namer.answer_eq_of_not hkeep]
      exact hregistry
    | true =>
      simp only [Namer.answer_eq hkeep]
      exact hregistry

end Method

/-! ### All methods of a listing -/

/-- Where the parent of the method at `i` stands: the latest earlier method of that name. -/
def parentIndex? (methods : List Method) (i : Nat) : Option Nat :=
  (methods[i]?.bind (·.parent)).bind fun parent =>
    (List.range i).reverse.find? fun j => methods[j]?.any (·.name == parent)

/-- The registry the method at `i` starts with. -/
def startRegistry (methods : List Method) (outs : List RenamedMethod) (i : Nat) : Registry :=
  ((parentIndex? methods i).bind (outs[·]?)).elim .builtin (·.registry)

/-- Looking back in a list for an element is looking back for its place. -/
theorem find?_reverse_take {α : Type} {as : List α} {p : α → Bool} {q : Nat → Bool}
    {get : Nat → Option α} {n : Nat} (hn : n ≤ as.length)
    (hq : ∀ j (hj : j < as.length), j < n → q j = p as[j])
    (hget : ∀ j (hj : j < as.length), j < n → get j = some as[j]) :
    (as.take n).reverse.find? p = ((List.range n).reverse.find? q).bind get := by
  induction n with
  | zero => rfl
  | succ n ih =>
    have hlt : n < as.length := hn
    have hih := ih (by omega) (fun j hj hjn => hq j hj (by omega))
      fun j hj hjn => hget j hj (by omega)
    rw [← List.take_append_getElem hlt, List.range_succ, List.reverse_append, List.reverse_append,
      List.reverse_singleton, List.reverse_singleton, List.singleton_append, List.singleton_append,
      List.find?_cons, List.find?_cons, hq n hlt (by omega)]
    cases p as[n] with
    | true => rw [Option.bind_some, hget n hlt (by omega)]
    | false => exact hih

theorem startRegistry_eq {done : List Method} {past : List RenamedMethod}
    (hnames : past.map (·.name) = done.map (·.name)) (m : Method) (ms : List Method)
    (later : List RenamedMethod) :
    startRegistry (done ++ m :: ms) (past ++ later) done.length = m.startRegistry past.reverse := by
  have hlen : past.length = done.length := by simpa using congrArg List.length hnames
  unfold startRegistry Method.startRegistry parentIndex?
  simp only [List.getElem?_append_right (Nat.le_refl _), Nat.sub_self, List.getElem?_cons_zero,
    Option.bind_some]
  cases m.parent with
  | none => rfl
  | some parent =>
    rw [Option.bind_some, Option.bind_some, ← hlen, ← List.take_length (l := past),
      find?_reverse_take (Nat.le_refl _)]
    · rw [List.take_length]
    · intro j hj _
      have hname : (past.map (·.name))[j]? = (done.map (·.name))[j]? := by rw [hnames]
      have hjd : j < done.length := hlen ▸ hj
      simp only [List.getElem?_map, List.getElem?_eq_getElem hj, List.getElem?_eq_getElem hjd,
        Option.map_some, Option.some_inj] at hname
      rw [List.getElem?_append_left hjd, List.getElem?_eq_getElem hjd, Option.any_some, hname]
    · intro j hj _
      rw [List.getElem?_append_left hj, List.getElem?_eq_getElem hj]

/-- Methods that come after `done` ones, whose outcomes are `past`. -/
theorem renameFrom_replays (renames : Bool) {done : List Method} {past : List RenamedMethod}
    (hnames : past.map (·.name) = done.map (·.name)) {ms : List Method}
    (hread : ∀ m ∈ ms, ∃ d, MethodDescriptor.read m.descriptor = .ok d) :
    ∃ later, renameFrom renames past.reverse ms = .ok later ∧ later.length = ms.length ∧
      ∀ (i : Nat) (m : Method) (d : MethodDescriptor), ms[i]? = some m →
        MethodDescriptor.read m.descriptor = .ok d → ∃ out, later[i]? = some out ∧
          m.Replays d renames
            (startRegistry (done ++ ms) (past ++ later) (done.length + i)) out := by
  induction ms generalizing done past with
  | nil => exact ⟨[], rfl, rfl, by simp⟩
  | cons m ms ih =>
    obtain ⟨d, hd⟩ := hread m List.mem_cons_self
    obtain ⟨out, hout, hreplays⟩ := Method.rename_replays hd renames past.reverse
    have hnames' : (past ++ [out]).map (·.name) = (done ++ [m]).map (·.name) := by
      rw [List.map_append, List.map_append, hnames, List.map_singleton, List.map_singleton,
        hreplays.name]
    obtain ⟨later, hlater, hlen, hall⟩ :=
      ih hnames' fun m' hm' => hread m' (List.mem_cons_of_mem _ hm')
    rw [List.reverse_append, List.reverse_singleton, List.singleton_append] at hlater
    refine ⟨out :: later, ?_, by rw [List.length_cons, List.length_cons, hlen], ?_⟩
    · rw [renameFrom, hout]
      show (renameFrom renames (out :: past.reverse) ms >>= fun later => .ok (out :: later)) = _
      rw [hlater]
      rfl
    · rintro (_ | i) m' d' hm' hd'
      · obtain rfl : m = m' := Option.some_inj.mp hm'
        obtain rfl : d = d' := Except.ok.inj (hd.symm.trans hd')
        refine ⟨out, rfl, ?_⟩
        rw [Nat.add_zero, startRegistry_eq hnames]
        exact hreplays
      · obtain ⟨out', hout', hreplays'⟩ := hall i m' d' hm' hd'
        refine ⟨out', hout', ?_⟩
        rw [List.append_assoc, List.append_assoc, List.length_append] at hreplays'
        rw [Nat.add_comm i 1, ← Nat.add_assoc]
        exact hreplays'

/-- Naming a listing succeeds when all descriptors can be read, and every method is named by one
replay of its asks, on the registry that the latest earlier method with the name of its parent has
left. -/
theorem renameListing_replays (renames : Bool) (methods : List Method)
    (hread : ∀ m ∈ methods, ∃ d, MethodDescriptor.read m.descriptor = .ok d) :
    ∃ outs, renameListing renames methods = .ok outs ∧ outs.length = methods.length ∧
      ∀ (i : Nat) (m : Method) (d : MethodDescriptor), methods[i]? = some m →
        MethodDescriptor.read m.descriptor = .ok d → ∃ out, outs[i]? = some out ∧
          m.Replays d renames (startRegistry methods outs i) out := by
  have hnone : ([] : List RenamedMethod).map (·.name) = ([] : List Method).map (·.name) := rfl
  obtain ⟨outs, hok, hlen, hall⟩ := renameFrom_replays renames hnone hread
  refine ⟨outs, hok, hlen, fun i m d hm hd => ?_⟩
  simpa using hall i m d hm hd

/-- Two methods have one name, and the second of them is the parent of the last. It starts after
the first, and its parameter takes two slots. -/
def overloaded : List Method :=
  [{ Method.headed "run" "()V" .empty with vars := [(⟨1, 0⟩, "int")] },
    { Method.headed "run" "(J)V" (Access.empty.insert .static) with
      parent := some "run"
      vars := [(⟨0, 0⟩, "int"), (⟨2, 0⟩, "Foo"), (⟨0, 1⟩, "long"), (⟨0, 0⟩, "long")]
      parameters := [⟨0, "l", "long"⟩, ⟨1, "x", "int"⟩] },
    { Method.headed "lambda" "()V" .empty with
      parent := some "run"
      vars := [(⟨0, 0⟩, "this"), (⟨1, 0⟩, "int")] }]

theorem overloaded_readable :
    ∀ m ∈ overloaded, ∃ d, MethodDescriptor.read m.descriptor = .ok d := by
  simp only [overloaded, List.forall_mem_cons]
  exact ⟨⟨_, rfl⟩, ⟨_, rfl⟩, ⟨_, rfl⟩, by simp⟩

theorem overloaded_replays :
    (∀ m ∈ overloaded, ∃ d, MethodDescriptor.read m.descriptor = .ok d) ∧
      parentIndex? overloaded 2 = some 1 ∧ ∃ outs, renameListing true overloaded = .ok outs ∧
        ∃ m out, overloaded[2]? = some m ∧ outs[2]? = some out ∧
          m.Replays ⟨[], none⟩ true (startRegistry overloaded outs 2) out := by
  obtain ⟨outs, hok, _, hall⟩ := renameListing_replays true overloaded overloaded_readable
  obtain ⟨out, hout, hreplays⟩ := hall 2 _ ⟨[], none⟩ rfl rfl
  exact ⟨overloaded_readable, by decide +kernel, outs, hok, _, out, rfl, hout, hreplays⟩

end LocalNames
