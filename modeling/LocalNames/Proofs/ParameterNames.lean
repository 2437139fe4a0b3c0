import LocalNames.Proofs.Requests

/-! Names of parameters are stable. From the first time on a namer remembers the name of a
parameter, whatever it is asked for later and whichever namer it goes on after in between; so it
draws for a slot at most once. -/

namespace LocalNames

/-- What is done with a namer. -/
inductive Operation
  | request (q : Request)
  /-- It goes on where another namer stands. -/
  | adopt (parent : Namer)

/-- What happens to the registry of a namer. -/
inductive Event
  | draw (a : Ask)
  | adopt (registry : Registry)

def Event.isDrawFor (h : Holder) : Event → Bool
  | draw a => a.holder = h
  | adopt _ => false

/-- The registry after an event. -/
def Registry.happen (r : Registry) : Event → Registry
  | .draw a => (r.nextName a.key).2
  | .adopt registry => registry

namespace Namer

/-- A request that fails changes nothing. -/
def perform (n : Namer) : Operation → Option Answer × Namer
  | .request q =>
    match n.serve q with
    | .ok (answer, next) => (some answer, next)
    | .error _ => (none, n)
  | .adopt parent => (none, n.adopt parent.registry)

/-- Operations in their order, with what each is answered. -/
def performAll (n : Namer) : List Operation → List (Option Answer) × Namer
  | [] => ([], n)
  | op :: ops =>
    let (answer, n) := n.perform op
    let (answers, n) := n.performAll ops
    (answer :: answers, n)

/-! ### Draws -/

/-- Whether an ask draws. A parameter that has a name does not. -/
def draws (n : Namer) (a : Ask) : Bool :=
  match a.holder with
  | .var _ _ => true
  | .parameter slot => slot ∉ n.parameters

/-- Those of the asks that draw, when they are served in their order. -/
def drawing (n : Namer) : List Ask → List Ask
  | [] => []
  | a :: asks => (if n.draws a then [a] else []) ++ (n.ask a).2.drawing asks

/-- The asks of the request that is made as number `call`. Variables are not asked for where the
descriptor cannot be read. -/
def asksOf (n : Namer) (call : Nat) : Request → List Ask
  | .vars types =>
    match MethodDescriptor.read n.descriptor with
    | .ok d => (variableAsks (d.slots n.access) n.renamesParameters call types.toList).map (·.2)
    | .error _ => []
  | .parameter _ type _ slot =>
    if n.renamesParameters then [⟨.parameter slot, .ofType type⟩] else []

def eventsOf (n : Namer) (call : Nat) : Operation → List Event
  | .request q => (n.drawing (n.asksOf call q)).map .draw
  | .adopt parent => [.adopt parent.registry]

/-- The events of operations, the first of which is number `call`. -/
def history (n : Namer) (call : Nat) : List Operation → List Event
  | [] => []
  | op :: ops => n.eventsOf call op ++ (n.perform op).2.history (call + 1) ops

variable {n : Namer} {slot : UInt32} {name : String}

theorem ask_of_var {a : Ask} {call : Nat} {v : VarId} (h : a.holder = .var call v) :
    n.ask a = n.draw a.key := by
  rw [ask, h]

theorem ask_of_parameter {a : Ask} (h : a.holder = .parameter slot) :
    n.ask a = n.parameterName slot a.key := by
  rw [ask, h]

theorem draws_of_parameter {a : Ask} (h : a.holder = .parameter slot) :
    n.draws a = true ↔ n.parameters[slot]? = none := by
  simp [draws, h]

/-- An ask that does not draw changes nothing. -/
theorem ask_of_not_draws {a : Ask} (h : n.draws a = false) : (n.ask a).2 = n := by
  cases hh : a.holder with
  | var call v => simp [draws, hh] at h
  | parameter slot =>
    cases hp : n.parameters[slot]? with
    | none => simp [(draws_of_parameter hh).mpr hp] at h
    | some name => rw [ask_of_parameter hh, parameterName_of_some hp]

theorem registry_ask_of_draws {a : Ask} (h : n.draws a = true) :
    (n.ask a).2.registry = (n.registry.nextName a.key).2 := by
  cases hh : a.holder with
  | var call v => rw [ask_of_var hh]; rfl
  | parameter slot =>
    rw [ask_of_parameter hh, parameterName, (draws_of_parameter hh).mp h]
    rfl

/-- The events of asks are all that happens to the registry. -/
theorem registry_askAll (n : Namer) (asks : List Ask) : (n.askAll asks).2.registry =
    ((n.drawing asks).map Event.draw).foldl Registry.happen n.registry := by
  induction asks generalizing n with
  | nil => rfl
  | cons a asks ih =>
    simp only [askAll, drawing, List.map_append, List.foldl_append, ih]
    cases h : n.draws a with
    | true => rw [registry_ask_of_draws h]; rfl
    | false => rw [ask_of_not_draws h]; rfl

/-! ### Names that stay -/

/-- The only name an ask can add is that of the parameter it draws for. -/
theorem parameters_ask (n : Namer) (a : Ask) (slot : UInt32) :
    (n.ask a).2.parameters[slot]? =
      if n.draws a = true ∧ a.holder = .parameter slot then some (n.ask a).1
      else n.parameters[slot]? := by
  cases hd : n.draws a with
  | false => rw [ask_of_not_draws hd, if_neg (by simp)]
  | true =>
    cases hh : a.holder with
    | var call v => rw [ask_of_var hh, parameters_draw, if_neg (by simp)]
    | parameter other =>
      rw [ask_of_parameter hh]
      by_cases he : other = slot
      · rw [he, parameters_parameterName, if_pos ⟨rfl, rfl⟩]
      · rw [if_neg (by simpa using he), parameterName, (draws_of_parameter hh).mp hd]
        simp [Std.ExtTreeMap.getElem?_insert, he]

theorem parameters_ask_of_some (h : n.parameters[slot]? = some name) (a : Ask) :
    (n.ask a).2.parameters[slot]? = some name := by
  rw [parameters_ask, if_neg, h]
  rintro ⟨hd, hh⟩
  rw [(draws_of_parameter hh).mp hd] at h
  cases h

theorem parameters_askAll_of_some (h : n.parameters[slot]? = some name) (asks : List Ask) :
    (n.askAll asks).2.parameters[slot]? = some name := by
  induction asks generalizing n with
  | nil => exact h
  | cons a asks ih => exact ih (parameters_ask_of_some h a)

/-- A name that is given to a parameter is remembered. -/
theorem parameters_of_mem_zip {asks : List Ask} {a : Ask}
    (h : (a, name) ∈ asks.zip (n.askAll asks).1) (ha : a.holder = .parameter slot) :
    (n.askAll asks).2.parameters[slot]? = some name := by
  induction asks generalizing n with
  | nil => cases h
  | cons b asks ih =>
    rcases List.mem_cons.mp h with he | h
    · obtain ⟨rfl, rfl⟩ := Prod.mk.inj he
      have hask : (n.ask a).2.parameters[slot]? = some (n.ask a).1 := by
        rw [ask_of_parameter ha, parameters_parameterName]
      exact parameters_askAll_of_some hask asks
    · exact ih h

/-- The number of names remembered for a slot. -/
def known (n : Namer) (slot : UInt32) : Nat := n.parameters[slot]?.toList.length

theorem known_le_one (n : Namer) (slot : UInt32) : n.known slot ≤ 1 := by
  unfold known
  cases n.parameters[slot]? <;> simp

/-- A parameter is drawn for exactly when its name becomes known. -/
theorem known_askAll (n : Namer) (asks : List Ask) (slot : UInt32) :
    (n.drawing asks).countP (·.holder = .parameter slot) + n.known slot =
      (n.askAll asks).2.known slot := by
  induction asks generalizing n with
  | nil => simp [drawing, askAll]
  | cons a asks ih =>
    have hrest := ih (n.ask a).2
    have hask : (if n.draws a then [a] else []).countP (·.holder = .parameter slot) +
        n.known slot = (n.ask a).2.known slot := by
      unfold known
      rw [parameters_ask]
      cases hd : n.draws a with
      | false => simp
      | true =>
        by_cases hh : a.holder = .parameter slot
        · simp [hh, (draws_of_parameter hh).mp hd]
        · simp [hh]
    simp only [drawing, askAll, List.countP_append]
    omega

/-! ### Operations -/

/-- A request serves its asks, and nothing else happens. -/
theorem perform_request (n : Namer) (call : Nat) (q : Request) :
    (n.perform (.request q)).2 = (n.askAll (n.asksOf call q)).2 := by
  cases q with
  | vars types =>
    cases hd : MethodDescriptor.read n.descriptor with
    | error e => simp [perform, serve, rename, hd, Except.map, asksOf, askAll]
    | ok d =>
      have hserve := serve_vars hd call types
      simp only [perform, hserve, asksOf, hd]
  | parameter access type own slot =>
    cases hr : n.renamesParameters with
    | false => simp [perform, serve, renameParameter, hr, asksOf, askAll]
    | true => simp [perform, serve, renameParameter, hr, asksOf, askAll, ask]

theorem registry_perform (n : Namer) (call : Nat) (op : Operation) :
    (n.perform op).2.registry = (n.eventsOf call op).foldl Registry.happen n.registry := by
  cases op with
  | request q => rw [perform_request n call, registry_askAll, eventsOf]
  | adopt parent => rfl

@[simp]
theorem settings_perform (n : Namer) (op : Operation) :
    (n.perform op).2.settings = n.settings := by
  cases op with
  | request q => rw [perform_request n 0, settings_askAll]
  | adopt parent => rfl

theorem parameters_perform_of_some (h : n.parameters[slot]? = some name) (op : Operation) :
    (n.perform op).2.parameters[slot]? = some name := by
  cases op with
  | request q => rw [perform_request n 0]; exact parameters_askAll_of_some h _
  | adopt parent => exact h

theorem known_perform (n : Namer) (call : Nat) (op : Operation) (slot : UInt32) :
    (n.eventsOf call op).countP (·.isDrawFor (.parameter slot)) + n.known slot =
      (n.perform op).2.known slot := by
  cases op with
  | request q =>
    have hask := known_askAll n (n.asksOf call q) slot
    rw [perform_request n call, ← hask, eventsOf, List.countP_map]
    rfl
  | adopt parent => exact Nat.zero_add _

/-- The operation is answered with the name for the parameter in a slot. Where the variables of a
method are named, its parameters are those below its own slots. -/
inductive Gives (access : Access) (descriptor : String) (slot : UInt32) (name : String) :
    Operation → Option Answer → Prop
  | var {d : MethodDescriptor} {types : VariableTypes} {names : List (VarId × String)} {v : VarId} :
      MethodDescriptor.read descriptor = .ok d → slot.toNat < d.slots access → v.slot = slot →
      (v, name) ∈ names → Gives access descriptor slot name (.request (.vars types))
        (some (.vars names))
  | parameter {flags : Access} {type own : String} :
      Gives access descriptor slot name (.request (.parameter flags type own slot))
        (some (.parameter name))

theorem exists_of_mem_zip {α β γ : Type} {as : List (α × β)} {cs : List γ} {a : α} {c : γ}
    (h : (a, c) ∈ (as.map (·.1)).zip cs) : ∃ b, (a, b) ∈ as ∧ (b, c) ∈ (as.map (·.2)).zip cs := by
  rw [List.zip_map_left] at h
  obtain ⟨⟨⟨a, b⟩, c⟩, hmem, he⟩ := List.mem_map.mp h
  obtain ⟨rfl, rfl⟩ := Prod.mk.inj he
  rw [List.zip_map_left]
  exact ⟨b, (List.of_mem_zip hmem).1, List.mem_map.mpr ⟨_, hmem, rfl⟩⟩

/-- A name that is given stands for its slot from then on. -/
theorem parameters_of_gives {access : Access} {descriptor : String} {op : Operation}
    (hset : n.settings = (access, descriptor, true))
    (h : Gives access descriptor slot name op (n.perform op).1) :
    (n.perform op).2.parameters[slot]? = some name := by
  obtain ⟨rfl, rfl, hrenames⟩ := settings_eq_iff.mp hset
  generalize hanswer : (n.perform op).1 = answer at h
  cases h with
  | @var d types names v hd hlt hv hmem =>
    have hserve := serve_vars hd 0 types
    simp only [perform, hserve, Option.some_inj, Answer.vars.injEq] at hanswer ⊢
    subst hanswer hv
    obtain ⟨a, ha, hname⟩ := exists_of_mem_zip hmem
    obtain ⟨_, _, _, hholder⟩ := mem_variableAsks ha
    rcases Holder.ofVariable?_eq_some hholder with ⟨hle, _⟩ | ⟨_, hparameter⟩
    · omega
    · exact parameters_of_mem_zip hname hparameter
  | @parameter flags type own =>
    simp only [perform, serve, renameParameter, hrenames, if_true, Option.some_inj,
      Answer.parameter.injEq] at hanswer ⊢
    rw [parameters_parameterName, hanswer]

/-! ### Runs -/

theorem registry_performAll (n : Namer) (call : Nat) (ops : List Operation) :
    (n.performAll ops).2.registry = (n.history call ops).foldl Registry.happen n.registry := by
  induction ops generalizing n call with
  | nil => rfl
  | cons op ops ih =>
    rw [history, List.foldl_append, ← registry_perform]
    exact ih _ (call + 1)

theorem known_performAll (n : Namer) (call : Nat) (ops : List Operation) (slot : UInt32) :
    (n.history call ops).countP (·.isDrawFor (.parameter slot)) + n.known slot =
      (n.performAll ops).2.known slot := by
  induction ops generalizing n call with
  | nil => exact Nat.zero_add _
  | cons op ops ih =>
    have hop := known_perform n call op slot
    have hrest := ih (n.perform op).2 (call + 1)
    simp only [history, performAll, List.countP_append]
    omega

theorem parameters_performAll_of_some (h : n.parameters[slot]? = some name)
    (ops : List Operation) : (n.performAll ops).2.parameters[slot]? = some name := by
  induction ops generalizing n with
  | nil => exact h
  | cons op ops ih => exact ih (parameters_perform_of_some h op)

/-- All names given for a slot are the one that is remembered in the end. -/
theorem parameters_performAll_of_gives {access : Access} {descriptor : String}
    {ops : List Operation} (hset : n.settings = (access, descriptor, true)) {op : Operation}
    {answer : Option Answer} (hmem : (op, answer) ∈ ops.zip (n.performAll ops).1)
    (h : Gives access descriptor slot name op answer) :
    (n.performAll ops).2.parameters[slot]? = some name := by
  induction ops generalizing n with
  | nil => cases hmem
  | cons o ops ih =>
    rcases List.mem_cons.mp hmem with he | hmem
    · obtain ⟨rfl, rfl⟩ := Prod.mk.inj he
      exact parameters_performAll_of_some (parameters_of_gives hset h) ops
    · exact ih ((settings_perform n o).trans hset) hmem

/-- Where parameters are renamed, whatever is done with a namer, all names that it ever gives for
one slot are the same, and among all that happens to its registry is at most one draw for the slot
as a parameter. -/
theorem parameter_names_stable (access : Access) (descriptor : String) (ops : List Operation) :
    let n := Namer.start access descriptor true
    (n.performAll ops).2.registry = (n.history 0 ops).foldl Registry.happen .builtin ∧
      ∀ slot, (n.history 0 ops).countP (·.isDrawFor (.parameter slot)) ≤ 1 ∧
        ∃ name, ∀ op answer, (op, answer) ∈ ops.zip (n.performAll ops).1 →
          ∀ given, Gives access descriptor slot given op answer → given = name := by
  intro n
  refine ⟨registry_performAll n 0 ops, fun slot => ⟨?_, ?_⟩⟩
  · have hcount := known_performAll n 0 ops slot
    have hone := known_le_one (n.performAll ops).2 slot
    omega
  · refine ⟨((n.performAll ops).2.parameters[slot]?).getD "", ?_⟩
    intro op answer hmem given hgives
    rw [parameters_performAll_of_gives rfl hmem hgives, Option.getD_some]

/-- A parameter is asked for, the namer goes on after another one that has drawn from the same
family, and then variables in the slot are named, one of them of another type: they can be given no
other name than the parameter. -/
theorem parameter_name_survives_adoption :
    let static := Access.empty.insert .static
    let other := (Namer.start .empty "()V" false).draw (.ofType "String")
    let ask := Operation.request (.parameter .empty "java.lang.String" "arg0" 0)
    let vars := Operation.request
      (.vars {(⟨0, 0⟩, "int"), (⟨0, 1⟩, "String"), (⟨3, 0⟩, "String")})
    let n := Namer.start static "(Ljava/lang/String;J)V" true
    let named := Answer.vars [(⟨0, 0⟩, "s"), (⟨0, 1⟩, "s"), (⟨3, 0⟩, "s1")]
    (n.performAll [ask, .adopt other.2, vars]).1 = [some (.parameter "s"), none, some named] ∧
      Gives static "(Ljava/lang/String;J)V" 0 "s" ask (some (.parameter "s")) ∧
      Gives static "(Ljava/lang/String;J)V" 0 "s" vars (some named) ∧
      (n.history 0 [ask, .adopt other.2, vars]).countP (·.isDrawFor (.parameter 0)) ≤ 1 ∧
      ∀ given, Gives static "(Ljava/lang/String;J)V" 0 given vars (some named) → given = "s" := by
  intro static other ask vars n named
  have hrun : (n.performAll [ask, .adopt other.2, vars]).1 =
      [some (.parameter "s"), none, some named] := by
    decide +kernel
  have hask : Gives static "(Ljava/lang/String;J)V" 0 "s" ask (some (.parameter "s")) := .parameter
  have hvars : Gives static "(Ljava/lang/String;J)V" 0 "s" vars (some named) :=
    .var (v := ⟨0, 1⟩) (d := ⟨[.object "java/lang/String", .primitive .long], none⟩) rfl
      (by decide) rfl (by decide)
  obtain ⟨_, hslots⟩ :=
    parameter_names_stable static "(Ljava/lang/String;J)V" [ask, .adopt other.2, vars]
  obtain ⟨hcount, name, hname⟩ := hslots 0
  rw [hrun] at hname
  refine ⟨hrun, hask, hvars, hcount, fun given hgiven => ?_⟩
  exact (hname vars _ (by simp) given hgiven).trans (hname ask _ (by simp) "s" hask).symm

end Namer

end LocalNames
