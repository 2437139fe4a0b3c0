import LocalNames.Proofs.ParameterNames

/-! Namers side by side. Each is asked for names, and goes on after another one when it is told to.
Whatever they do, every registry stands where draws in a row leave the built-in families. -/

namespace LocalNames

/-- What happens among namers, which go by the places in which they have been made. -/
inductive Move
  | start (access : Access) (descriptor : String) (renames : Bool)
  | request (place : Nat) (q : Request)
  | adopt (place parent : Nat)

namespace Move

def apply (ns : List Namer) : Move → List Namer
  | start access descriptor renames => ns ++ [.start access descriptor renames]
  | request place q => ns.modify place fun n => (n.perform (.request q)).2
  | adopt place parent =>
    match ns[parent]? with
    | some p => ns.modify place fun n => (n.perform (.adopt p)).2
    | none => ns

/-- The namers that there are after moves in their order, when there were none before. -/
def applyAll (moves : List Move) : List Namer :=
  moves.foldl apply []

end Move

theorem Registry.foldl_happen_draw (r : Registry) (asks : List Ask) :
    (asks.map Event.draw).foldl happen r = r.after (asks.map (·.key)) := by
  induction asks generalizing r with
  | nil => rfl
  | cons a asks ih => exact ih _

namespace Namer

/-- A request moves the registry on by draws in a row. -/
theorem registry_perform_request (n : Namer) (q : Request) :
    (n.perform (.request q)).2.registry =
      n.registry.after ((n.drawing (n.asksOf 0 q)).map (·.key)) := by
  rw [registry_perform n 0, eventsOf, Registry.foldl_happen_draw]

/-- The registry of the namer is reached from the built-in families by draws. -/
def HasDrawn (n : Namer) : Prop := ∃ keys, n.registry = Registry.builtin.after keys

theorem HasDrawn.request {n : Namer} (h : n.HasDrawn) (q : Request) :
    (n.perform (.request q)).2.HasDrawn := by
  obtain ⟨keys, hkeys⟩ := h
  exact ⟨_, by rw [registry_perform_request, hkeys, ← Registry.after_append]⟩

theorem HasDrawn.adopt {p : Namer} (h : p.HasDrawn) (n : Namer) :
    (n.perform (.adopt p)).2.HasDrawn := h

end Namer

theorem mem_modify {α : Type} {as : List α} {i : Nat} {f : α → α} {a : α}
    (h : a ∈ as.modify i f) : a ∈ as ∨ ∃ b ∈ as, f b = a := by
  obtain ⟨j, hj⟩ := List.mem_iff_getElem?.mp h
  rw [List.getElem?_modify] at hj
  obtain ⟨b, hb, rfl⟩ := Option.map_eq_some_iff.mp hj
  have hmem := List.mem_of_getElem? hb
  split
  · exact .inr ⟨b, hmem, rfl⟩
  · exact .inl hmem

namespace Move

variable {P : Namer → Prop} {allowed : Request → Prop}

theorem forall_apply {ns : List Namer} {move : Move}
    (hstart : ∀ access descriptor renames, P (.start access descriptor renames))
    (hrequest : ∀ n q, allowed q → P n → P (n.perform (.request q)).2)
    (hadopt : ∀ n p, P n → P p → P (n.perform (.adopt p)).2)
    (hmove : ∀ place q, move = request place q → allowed q) (h : ∀ n ∈ ns, P n) :
    ∀ n ∈ apply ns move, P n := by
  intro n hn
  cases move with
  | start access descriptor renames =>
    rcases List.mem_append.mp hn with hn | hn
    · exact h n hn
    · obtain rfl := List.mem_singleton.mp hn
      exact hstart access descriptor renames
  | request place q =>
    rcases mem_modify hn with hn | ⟨m, hm, rfl⟩
    · exact h n hn
    · exact hrequest m q (hmove place q rfl) (h m hm)
  | adopt place parent =>
    rw [apply] at hn
    split at hn
    next p hp =>
      rcases mem_modify hn with hn | ⟨m, hm, rfl⟩
      · exact h n hn
      · exact hadopt m p (h m hm) (h p (List.mem_of_getElem? hp))
    next => exact h n hn

/-- What holds of new namers, and is kept by allowed requests and by adoption, holds of all. -/
theorem forall_applyAll {moves : List Move}
    (hstart : ∀ access descriptor renames, P (.start access descriptor renames))
    (hrequest : ∀ n q, allowed q → P n → P (n.perform (.request q)).2)
    (hadopt : ∀ n p, P n → P p → P (n.perform (.adopt p)).2)
    (hmoves : ∀ place q, request place q ∈ moves → allowed q) : ∀ n ∈ applyAll moves, P n := by
  suffices h : ∀ ns : List Namer, (∀ n ∈ ns, P n) → ∀ n ∈ moves.foldl apply ns, P n from
    h [] (by simp)
  induction moves with
  | nil => exact fun _ h => h
  | cons move moves ih =>
    intro ns hns
    refine ih (fun place q hq => hmoves place q (List.mem_cons_of_mem _ hq)) _ ?_
    exact forall_apply hstart hrequest hadopt
      (fun place q hq => hmoves place q (hq ▸ List.mem_cons_self)) hns

theorem hasDrawn_applyAll (moves : List Move) : ∀ n ∈ applyAll moves, n.HasDrawn :=
  forall_applyAll (fun _ _ _ => ⟨[], rfl⟩) (fun _ q (_ : True) h => h.request q)
    (fun n _ _ h => h.adopt n) fun _ _ _ => trivial

end Move

end LocalNames
