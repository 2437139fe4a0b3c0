import LocalNames.Proofs.Asks
import LocalNames.Session

/-! A namer serves asks as a ledger does: its registry is the one the draws so far have left, and
it remembers the names of the parameters among them. -/

namespace LocalNames

/-- Whom the name of a variable is for, when `slots` slots belong to the receiver and the
parameters. Without one the variable gets no name. -/
def Holder.ofVariable? (slots : Nat) (renames : Bool) (call : Nat) (v : VarId) (key : TypeKey) :
    Option Holder :=
  if key.isReceiver then none
  else if slots ≤ v.slot.toNat then some (.var call v)
  else if renames then some (.parameter v.slot)
  else none

theorem Holder.ofVariable?_eq_some {slots : Nat} {renames : Bool} {call : Nat} {v : VarId}
    {key : TypeKey} {h : Holder} (hh : ofVariable? slots renames call v key = some h) :
    slots ≤ v.slot.toNat ∧ h = .var call v ∨ v.slot.toNat < slots ∧ h = .parameter v.slot := by
  unfold ofVariable? at hh
  split at hh
  · cases hh
  · split at hh
    next hs => exact .inl ⟨hs, (Option.some_inj.mp hh).symm⟩
    next hs =>
      split at hh
      · exact .inr ⟨by omega, (Option.some_inj.mp hh).symm⟩
      · cases hh

/-- The variables that get a name, with the asks for it. -/
def variableAsks (slots : Nat) (renames : Bool) (call : Nat) (vars : List (VarId × String)) :
    List (VarId × Ask) :=
  vars.filterMap fun (v, type) =>
    (Holder.ofVariable? slots renames call v (.ofType type)).map fun h => (v, ⟨h, .ofType type⟩)

theorem mem_variableAsks {slots : Nat} {renames : Bool} {call : Nat} {vars : List (VarId × String)}
    {v : VarId} {a : Ask} (h : (v, a) ∈ variableAsks slots renames call vars) :
    ∃ type, (v, type) ∈ vars ∧ a.key = .ofType type ∧
      Holder.ofVariable? slots renames call v a.key = some a.holder := by
  obtain ⟨⟨w, type⟩, hw, he⟩ := List.mem_filterMap.mp h
  obtain ⟨h', hh', he⟩ := Option.map_eq_some_iff.mp he
  obtain ⟨rfl, rfl⟩ := Prod.mk.inj he
  exact ⟨type, hw, rfl, hh'⟩

/-- In one call no variable asks twice for a name of its own. -/
theorem variableAsks_once (slots : Nat) (renames : Bool) (call : Nat) (types : VariableTypes) :
    ((variableAsks slots renames call types.toList).map (·.2)).Pairwise fun a b =>
      a.holder = b.holder → b.holder.isParameter = true := by
  rw [List.pairwise_map, variableAsks, List.pairwise_filterMap]
  refine types.distinct_keys_toList.imp ?_
  rintro ⟨v, type⟩ ⟨w, type'⟩ hne ⟨v', a⟩ ha ⟨w', b⟩ hb he
  obtain ⟨h, hh, ha⟩ := Option.map_eq_some_iff.mp ha
  obtain ⟨h', hh', hb⟩ := Option.map_eq_some_iff.mp hb
  obtain ⟨rfl, rfl⟩ := Prod.mk.inj ha
  obtain ⟨rfl, rfl⟩ := Prod.mk.inj hb
  obtain rfl : h = h' := he
  rcases Holder.ofVariable?_eq_some hh' with ⟨_, rfl⟩ | ⟨_, rfl⟩
  · rcases Holder.ofVariable?_eq_some hh with ⟨_, he⟩ | ⟨_, he⟩
    · obtain ⟨_, rfl⟩ := Holder.var.inj he
      exact absurd (Std.LawfulEqOrd.compare_eq_iff_eq.mpr rfl) hne
    · cases he
  · rfl

/-- The ask for a parameter whose name is asked for apart from the variables. -/
def ParameterRequest.ask (p : ParameterRequest) : Ask :=
  ⟨.parameter p.slot, .ofType p.type⟩

theorem map_some_zip {α β γ : Type} (g : α → γ) {f : α → Option β} {as : List α} {bs : List β}
    (h : bs.map some = as.map f) : ((as.map g).zip bs).map (fun (c, b) => (c, some b)) =
      as.map fun a => (g a, f a) := by
  have hz : (as.map g).zip (bs.map some) = ((as.map g).zip bs).map (Prod.map id some) :=
    List.zip_map_right
  rw [h, List.zip_map'] at hz
  exact hz.symm

namespace Namer

def ask (n : Namer) (a : Ask) : String × Namer :=
  match a.holder with
  | .var _ _ => n.draw a.key
  | .parameter slot => n.parameterName slot a.key

def askAll (n : Namer) : List Ask → List String × Namer
  | [] => ([], n)
  | a :: asks =>
    let (name, n) := n.ask a
    let (names, n) := n.askAll asks
    (name :: names, n)

/-- What a namer is made with, and keeps. -/
def settings (n : Namer) : Access × String × Bool :=
  (n.access, n.descriptor, n.renamesParameters)

theorem settings_eq_iff {n : Namer} {access : Access} {descriptor : String} {renames : Bool} :
    n.settings = (access, descriptor, renames) ↔
      n.access = access ∧ n.descriptor = descriptor ∧ n.renamesParameters = renames := by
  simp only [settings, Prod.mk.injEq]

@[simp]
theorem settings_ask (n : Namer) (a : Ask) : (n.ask a).2.settings = n.settings := by
  unfold ask
  split
  · rfl
  · unfold parameterName
    split <;> rfl

theorem renamesParameters_ask (n : Namer) (a : Ask) :
    (n.ask a).2.renamesParameters = n.renamesParameters :=
  congrArg (·.2.2) (settings_ask n a)

@[simp]
theorem settings_askAll (n : Namer) (asks : List Ask) :
    (n.askAll asks).2.settings = n.settings := by
  induction asks generalizing n with
  | nil => rfl
  | cons a asks ih => simp only [askAll, ih, settings_ask]

theorem askAll_append (n : Namer) (asks more : List Ask) :
    n.askAll (asks ++ more) = ((n.askAll asks).1 ++ ((n.askAll asks).2.askAll more).1,
      ((n.askAll asks).2.askAll more).2) := by
  induction asks generalizing n with
  | nil => rfl
  | cons a asks ih => simp only [List.cons_append, askAll, ih]

@[simp]
theorem length_askAll (n : Namer) (asks : List Ask) : (n.askAll asks).1.length = asks.length := by
  induction asks generalizing n with
  | nil => rfl
  | cons a asks ih => simp only [askAll, List.length_cons, ih]

/-- Naming variables is asking for each that gets a name. -/
theorem nameVariables_eq (n : Namer) (slots call : Nat) (vars : List (VarId × String)) :
    n.nameVariables slots vars =
      let asks := variableAsks slots n.renamesParameters call vars
      let (names, n') := n.askAll (asks.map (·.2))
      ((asks.map (·.1)).zip names, n') := by
  induction vars generalizing n with
  | nil => rfl
  | cons var vars ih =>
    obtain ⟨v, type⟩ := var
    simp only [nameVariables, nameVariable, variableAsks, List.filterMap_cons,
      Holder.ofVariable?] at ih ⊢
    by_cases hr : (TypeKey.ofType type).isReceiver = true
    · simp [hr, ih]
    · by_cases hs : slots ≤ v.slot.toNat
      · simp [hr, hs, ih, askAll, ask, draw]
      · by_cases hp : n.renamesParameters = true
        · have hkeep := renamesParameters_ask n ⟨.parameter v.slot, .ofType type⟩
          simp only [ask] at hkeep
          simp [hr, hs, hp, ih, askAll, ask, hkeep]
        · simp [hr, hs, hp, ih]

/-- A name that is kept is the parameter's own, whether the method has a body or not. -/
theorem keepParameter_eq (access : Access) (name : String) (slot : UInt32) :
    keepParameter access name slot = name := by
  unfold keepParameter ParameterHook.keep
  split <;> rfl

/-- Where parameters are renamed, answering requests is asking. -/
theorem answer_eq {n : Namer} (h : n.renamesParameters = true) (access : Access)
    (requests : List ParameterRequest) :
    n.answer access requests =
      (requests.zip (n.askAll (requests.map (·.ask))).1, (n.askAll (requests.map (·.ask))).2) := by
  induction requests generalizing n with
  | nil => rfl
  | cons p requests ih =>
    have hkeep := renamesParameters_ask n p.ask
    simp only [ask, ParameterRequest.ask] at hkeep
    simp [answer, renameParameter, h, askAll, ask, ParameterRequest.ask, ih (hkeep.trans h)]

theorem answer_eq_of_not {n : Namer} (h : n.renamesParameters = false) (access : Access)
    (requests : List ParameterRequest) :
    n.answer access requests = (requests.map fun p => (p, p.name), n) := by
  induction requests with
  | nil => rfl
  | cons p requests ih => simp [answer, renameParameter, h, ih, keepParameter_eq]

/-! ### The ledger of a namer -/

/-- The namer stands where the ledger does. -/
structure Follows (n : Namer) (s : Ledger) : Prop where
  registry : n.registry = s.registry
  parameters : ∀ slot, n.parameters[slot]? = s.nameOf? (.parameter slot)

theorem follows_start (access : Access) (descriptor : String) (renames : Bool) :
    (start access descriptor renames).Follows ⟨[], .builtin⟩ :=
  ⟨rfl, fun _ => Std.ExtTreeMap.getElem?_empty⟩

theorem Follows.adopt {n : Namer} {r : Registry} (h : n.Follows ⟨[], r⟩) (parent : Registry) :
    (n.adopt parent).Follows ⟨[], parent⟩ :=
  ⟨rfl, h.parameters⟩

/-- One ask for a holder that shares its name, or that has not asked yet. -/
theorem Follows.ask {n : Namer} {s : Ledger} (hf : n.Follows s) {a : Ask}
    (ha : a.holder.isParameter = true ∨ s.nameOf? a.holder = none) :
    (n.ask a).2.Follows (s.enter a) ∧ (s.enter a).nameOf? a.holder = some (n.ask a).1 := by
  cases hd : s.log.lookup a.holder with
  | some d =>
    obtain ⟨slot, hslot⟩ : ∃ slot, a.holder = .parameter slot := by
      cases hh : a.holder with
      | var call v =>
        rw [Ledger.nameOf?_eq_none, hd, hh] at ha
        rcases ha with ha | ha <;> cases ha
      | parameter slot => exact ⟨slot, rfl⟩
    have hname : s.nameOf? a.holder = some d.name := by rw [Ledger.nameOf?, hd]; rfl
    have hp : n.parameters[slot]? = some d.name := by rw [hf.parameters, ← hslot, hname]
    have hask : n.ask a = (d.name, n) := by
      simp only [Namer.ask, hslot, parameterName_of_some hp]
    rw [Ledger.enter_of_some hd, hask]
    exact ⟨hf, hname⟩
  | none =>
    have hreg : (s.enter a).registry = (n.registry.nextName a.key).2 := by
      rw [Ledger.enter_of_none hd, hf.registry]
    rw [Ledger.nameOf?_enter_self hd, ← hf.registry]
    cases hh : a.holder with
    | var call v =>
      have hask : n.ask a = n.draw a.key := by rw [Namer.ask, hh]
      rw [hask]
      refine ⟨⟨hreg.symm, fun slot => ?_⟩, rfl⟩
      rw [parameters_draw, hf.parameters, Ledger.nameOf?_enter_of_ne (by simp [hh])]
    | parameter slot =>
      have hp : n.parameters[slot]? = none := by
        rw [hf.parameters, Ledger.nameOf?, ← hh, hd]; rfl
      have hask : n.ask a = ((n.draw a.key).1, { (n.draw a.key).2 with
          parameters := n.parameters.insert slot (n.draw a.key).1 }) := by
        rw [Namer.ask, hh]
        simp only [parameterName, hp, parameters_draw]
      rw [hask]
      refine ⟨⟨hreg.symm, fun other => ?_⟩, rfl⟩
      by_cases he : other = slot
      · rw [he, ← hh, Ledger.nameOf?_enter_self hd, ← hf.registry]
        simp [draw]
      · rw [Ledger.nameOf?_enter_of_ne (by simpa [hh] using he), ← hf.parameters]
        simp [Std.ExtTreeMap.getElem?_insert, Ne.symm he]

/-- Asks in a row, in which no variable asks twice. -/
theorem Follows.askAll {n : Namer} {s : Ledger} (hf : n.Follows s) {asks : List Ask}
    (hnew : ∀ a ∈ asks, a.holder.isParameter = true ∨ s.nameOf? a.holder = none)
    (honce : asks.Pairwise fun a b => a.holder = b.holder → b.holder.isParameter = true) :
    (n.askAll asks).2.Follows (s.enterAll asks) ∧
      (n.askAll asks).1.map some = asks.map fun a => (s.enterAll asks).nameOf? a.holder := by
  induction asks generalizing n s with
  | nil => exact ⟨hf, rfl⟩
  | cons a asks ih =>
    obtain ⟨hstep, hname⟩ := hf.ask (hnew a List.mem_cons_self)
    obtain ⟨hfirst, hrest⟩ := List.pairwise_cons.mp honce
    have hnew' : ∀ b ∈ asks, b.holder.isParameter = true ∨
        (s.enter a).nameOf? b.holder = none := by
      intro b hb
      by_cases he : a.holder = b.holder
      · exact .inl (hfirst b hb he)
      · rw [Ledger.nameOf?_enter_of_ne (Ne.symm he)]
        exact hnew b (List.mem_cons_of_mem _ hb)
    obtain ⟨hall, hnames⟩ := ih hstep hnew' hrest
    refine ⟨hall, ?_⟩
    simp only [Namer.askAll, List.map_cons, hnames]
    rw [← Ledger.nameOf?_enterAll hname asks]
    rfl

/-- A namer that has given no name yet serves asks by one replay, also where they come in two
parts. -/
theorem Follows.askAll_eq {n : Namer} {r : Registry} (hf : n.Follows ⟨[], r⟩) {asks more : List Ask}
    (honce : (asks ++ more).Pairwise fun a b =>
      a.holder = b.holder → b.holder.isParameter = true) :
    (n.askAll asks).1.map some = asks.map (fun a => r.nameOf? (asks ++ more) a.holder) ∧
      ((n.askAll asks).2.askAll more).1.map some =
        more.map (fun a => r.nameOf? (asks ++ more) a.holder) ∧
      ((n.askAll asks).2.askAll more).2.registry = r.afterAsks (asks ++ more) := by
  obtain ⟨hall, hnames⟩ := hf.askAll (fun _ _ => .inr rfl) honce
  rw [Ledger.enterAll_start] at hall hnames
  rw [askAll_append] at hall hnames
  rw [List.map_append, List.map_append] at hnames
  obtain ⟨hfirst, hsecond⟩ := List.append_inj hnames (by simp)
  exact ⟨hfirst, hsecond, hall.registry⟩

end Namer

end LocalNames
