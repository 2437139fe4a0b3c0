import LocalNames.Proofs.Naming

/-! One namer over a whole scope: it is asked for the names of variables and of parameters, in any
order and as often as one likes. Its answers are read off one replay of the built-in families. -/

namespace LocalNames

/-- What a namer is asked for, while no other registry is adopted. -/
inductive Request
  | vars (types : VariableTypes)
  | parameter (access : Access) (type name : String) (slot : UInt32)

inductive Answer
  | vars (names : List (VarId × String))
  | parameter (name : String)
  deriving DecidableEq

namespace Namer

def serve (n : Namer) : Request → Except DescriptorError (Answer × Namer)
  | .vars types => (n.rename types).map fun (names, n) => (.vars names, n)
  | .parameter access type name slot =>
    let (name, n) := n.renameParameter access type name slot
    .ok (.parameter name, n)

/-- Serves requests in their order, until one fails. -/
def serveAll (n : Namer) : List Request → Except DescriptorError (List Answer × Namer)
  | [] => .ok ([], n)
  | q :: qs => do
    let (answer, n) ← n.serve q
    let (answers, n) ← n.serveAll qs
    return (answer :: answers, n)

end Namer

/-! ### The asks of requests -/

/-- The asks of the request that is made as number `call`. -/
def Request.asks (slots : Nat) (renames : Bool) (call : Nat) : Request → List Ask
  | vars types => (variableAsks slots renames call types.toList).map (·.2)
  | parameter _ type _ slot => if renames then [⟨.parameter slot, .ofType type⟩] else []

/-- The asks of requests that are made as number `call` and later. -/
def asksFrom (slots : Nat) (renames : Bool) (call : Nat) : List Request → List Ask
  | [] => []
  | q :: qs => q.asks slots renames call ++ asksFrom slots renames (call + 1) qs

/-- The answer to the request made as number `call`, by the names of holders. -/
def Answer.IsBy (slots : Nat) (renames : Bool) (nameOf? : Holder → Option String) (call : Nat) :
    Request → Answer → Prop
  | .vars types, .vars names => names.map (fun (v, name) => (v, some name)) =
      (variableAsks slots renames call types.toList).map fun (v, a) => (v, nameOf? a.holder)
  | .parameter _ _ name slot, .parameter answer =>
      if renames then nameOf? (.parameter slot) = some answer else answer = name
  | _, _ => False

theorem Answer.IsBy.mono {slots : Nat} {renames : Bool} {nameOf? later? : Holder → Option String}
    (hle : ∀ h name, nameOf? h = some name → later? h = some name) {call : Nat} {q : Request}
    {a : Answer} (h : IsBy slots renames nameOf? call q a) :
    IsBy slots renames later? call q a := by
  cases q with
  | vars types =>
    cases a with
    | vars names =>
      refine Eq.trans h (List.map_congr_left fun ⟨v, b⟩ hb => ?_)
      have hmem : (v, nameOf? b.holder) ∈ names.map fun (v, name) => (v, some name) := by
        have h' : names.map (fun (v, name) => (v, some name)) = _ := h
        rw [h']
        exact List.mem_map_of_mem hb
      obtain ⟨⟨w, name⟩, _, he⟩ := List.mem_map.mp hmem
      obtain ⟨_, hname⟩ := Prod.mk.inj he
      show (v, nameOf? b.holder) = (v, later? b.holder)
      rw [hle _ _ hname.symm, ← hname]
    | parameter name => exact h.elim
  | parameter access type name slot =>
    cases a with
    | vars names => exact h.elim
    | parameter answer =>
      cases renames with
      | true => exact hle _ _ h
      | false => exact h

/-- A variable that owns its slot is answered by the name of its own holder. -/
theorem Answer.IsBy.local {slots : Nat} {renames : Bool} {nameOf? : Holder → Option String}
    {call : Nat} {q : Request} {names : List (VarId × String)}
    (h : IsBy slots renames nameOf? call q (.vars names)) {v : VarId} {name : String}
    (hv : (v, name) ∈ names) (hs : slots ≤ v.slot.toNat) : nameOf? (.var call v) = some name := by
  cases q with
  | vars types =>
    have hmem : (v, some name) ∈ (variableAsks slots renames call types.toList).map
        fun (v, a) => (v, nameOf? a.holder) := by
      have h' : names.map (fun (v, name) => (v, some name)) = _ := h
      rw [← h']
      exact List.mem_map_of_mem hv
    obtain ⟨⟨w, a⟩, ha, he⟩ := List.mem_map.mp hmem
    obtain ⟨rfl, hname⟩ := Prod.mk.inj he
    obtain ⟨_, _, _, hh⟩ := mem_variableAsks ha
    rcases Holder.ofVariable?_eq_some hh with ⟨_, hh⟩ | ⟨hlt, _⟩
    · rw [← hname, hh]
    · omega
  | parameter access type name slot => exact h.elim

/-! ### Serving requests -/

theorem Request.holder_of_mem_asks {slots : Nat} {renames : Bool} {call : Nat} {q : Request}
    {a : Ask} (ha : a ∈ q.asks slots renames call) :
    a.holder.isParameter = true ∨ ∃ v, a.holder = .var call v := by
  cases q with
  | vars types =>
    obtain ⟨⟨v, b⟩, hb, rfl⟩ := List.mem_map.mp ha
    obtain ⟨_, _, _, hh⟩ := mem_variableAsks hb
    rcases Holder.ofVariable?_eq_some hh with ⟨_, hh⟩ | ⟨_, hh⟩
    · exact .inr ⟨v, hh⟩
    · exact .inl (by rw [hh]; rfl)
  | parameter access type name slot =>
    simp only [asks] at ha
    split at ha
    · obtain rfl := List.mem_singleton.mp ha
      exact .inl rfl
    · cases ha

namespace Namer

variable {n : Namer} {s : Ledger} {d : MethodDescriptor}

/-- Naming variables serves their asks. -/
theorem rename_eq (hd : MethodDescriptor.read n.descriptor = .ok d) (call : Nat)
    (types : VariableTypes) :
    let vars := variableAsks (d.slots n.access) n.renamesParameters call types.toList
    n.rename types = .ok ((vars.map (·.1)).zip (n.askAll (vars.map (·.2))).1,
      (n.askAll (vars.map (·.2))).2) := by
  simp only [Namer.rename, hd, Except.map, nameVariables_eq _ _ call]

theorem serve_vars (hd : MethodDescriptor.read n.descriptor = .ok d) (call : Nat)
    (types : VariableTypes) :
    let vars := variableAsks (d.slots n.access) n.renamesParameters call types.toList
    n.serve (.vars types) =
      .ok (.vars ((vars.map (·.1)).zip (n.askAll (vars.map (·.2))).1),
        (n.askAll (vars.map (·.2))).2) := by
  simp only [Namer.serve, rename_eq hd call, Except.map]

/-- One request, made for the first time under its number. -/
theorem Follows.serve (hf : n.Follows s) (hd : MethodDescriptor.read n.descriptor = .ok d)
    {call : Nat} (hnew : ∀ v, s.nameOf? (.var call v) = none) (q : Request) :
    let later := s.enterAll (q.asks (d.slots n.access) n.renamesParameters call)
    ∃ a n', n.serve q = .ok (a, n') ∧ n'.settings = n.settings ∧ n'.Follows later ∧
      a.IsBy (d.slots n.access) n.renamesParameters later.nameOf? call q := by
  cases q with
  | vars types =>
    have hnew' : ∀ a ∈ Request.asks (d.slots n.access) n.renamesParameters call (.vars types),
        a.holder.isParameter = true ∨ s.nameOf? a.holder = none := by
      intro a ha
      rcases Request.holder_of_mem_asks ha with hp | ⟨v, hv⟩
      · exact .inl hp
      · exact .inr (by rw [hv, hnew])
    obtain ⟨hall, hnames⟩ := hf.askAll hnew' (variableAsks_once _ _ _ types)
    refine ⟨_, _, serve_vars hd call types, settings_askAll n _, hall, ?_⟩
    rw [Request.asks, List.map_map] at hnames
    exact map_some_zip (·.1) hnames
  | parameter access type name slot =>
    cases hr : n.renamesParameters with
    | true =>
      obtain ⟨hstep, hname⟩ := hf.ask (a := ⟨.parameter slot, .ofType type⟩) (.inl rfl)
      refine ⟨.parameter (n.ask ⟨.parameter slot, .ofType type⟩).1, _, ?_, settings_ask n _, hstep,
        hname⟩
      simp only [Namer.serve, renameParameter, hr, if_true, Namer.ask]
    | false =>
      refine ⟨.parameter name, n, ?_, rfl, hf, rfl⟩
      simp [Namer.serve, renameParameter, hr, keepParameter_eq]

/-- Requests that are made as number `call` and later. -/
theorem Follows.serveAll (hf : n.Follows s) (hd : MethodDescriptor.read n.descriptor = .ok d)
    {call : Nat} (hnew : ∀ c, call ≤ c → ∀ v, s.nameOf? (.var c v) = none) (qs : List Request) :
    let later := s.enterAll (asksFrom (d.slots n.access) n.renamesParameters call qs)
    ∃ answers n', n.serveAll qs = .ok (answers, n') ∧ n'.Follows later ∧
      answers.length = qs.length ∧ ∀ (i : Nat) (q : Request), qs[i]? = some q →
        ∃ a, answers[i]? = some a ∧
          a.IsBy (d.slots n.access) n.renamesParameters later.nameOf? (call + i) q := by
  induction qs generalizing n s call with
  | nil => exact ⟨[], n, rfl, hf, rfl, by simp⟩
  | cons q qs ih =>
    obtain ⟨a, n', hserve, hset, hf', hby⟩ := hf.serve hd (hnew call (Nat.le_refl _)) q
    obtain ⟨haccess, hdescriptor, hrenames⟩ := settings_eq_iff.mp hset
    -- a request leaves the variables of later ones without a name
    have hnew' : ∀ c, call + 1 ≤ c → ∀ v, (s.enterAll (q.asks (d.slots n.access)
        n.renamesParameters call)).nameOf? (.var c v) = none := by
      intro c hc v
      rw [Ledger.nameOf?_enterAll_of_ne, hnew c (by omega)]
      intro b hb he
      rcases Request.holder_of_mem_asks hb with hp | ⟨w, hw⟩
      · rw [← he] at hp
        cases hp
      · rw [hw] at he
        obtain ⟨rfl, _⟩ := Holder.var.inj he
        omega
    obtain ⟨answers, n'', hall, hf'', hlen, hbys⟩ := ih hf' (hdescriptor ▸ hd) hnew'
    rw [haccess, hrenames, ← Ledger.enterAll_append] at hf'' hbys
    refine ⟨a :: answers, n'', ?_, hf'', by rw [List.length_cons, List.length_cons, hlen], ?_⟩
    · rw [Namer.serveAll, hserve]
      show (n'.serveAll qs >>= fun p => .ok (a :: p.1, p.2)) = _
      rw [hall]
      rfl
    · rintro (_ | i) q' hq'
      · obtain rfl : q = q' := Option.some_inj.mp hq'
        refine ⟨a, rfl, hby.mono fun h name hname => ?_⟩
        rw [asksFrom, Ledger.enterAll_append]
        exact Ledger.nameOf?_enterAll hname _
      · obtain ⟨a', ha', hby'⟩ := hbys i q' hq'
        refine ⟨a', ha', ?_⟩
        rw [Nat.add_comm i 1, ← Nat.add_assoc]
        exact hby'

/-- A new namer answers all requests, as one replay of the built-in families does. -/
theorem serveAll_start {descriptor : String} (hd : MethodDescriptor.read descriptor = .ok d)
    (access : Access) (renames : Bool) (qs : List Request) :
    let asks := asksFrom (d.slots access) renames 0 qs
    ∃ answers n, (start access descriptor renames).serveAll qs = .ok (answers, n) ∧
      n.registry = Registry.builtin.afterAsks asks ∧ answers.length = qs.length ∧
      ∀ (i : Nat) (q : Request), qs[i]? = some q → ∃ a, answers[i]? = some a ∧
        a.IsBy (d.slots access) renames (Registry.builtin.nameOf? asks) i q := by
  have hnew : ∀ c, 0 ≤ c → ∀ v, (⟨[], .builtin⟩ : Ledger).nameOf? (.var c v) = none :=
    fun _ _ _ => rfl
  obtain ⟨answers, n, hall, hf, hlen, hby⟩ :=
    (follows_start access descriptor renames).serveAll hd hnew qs
  refine ⟨answers, n, hall, ?_, hlen, fun i q hq => ?_⟩
  · rw [hf.registry, Ledger.enterAll_start]
    rfl
  · obtain ⟨a, ha, hby⟩ := hby i q hq
    refine ⟨a, ha, ?_⟩
    rw [Ledger.enterAll_start, Nat.zero_add] at hby
    exact hby

end Namer

end LocalNames
