import LocalNames.Namer
import LocalNames.Proofs.Replay

/-! What a namer is asked, apart from the names it gives. A variable asks for a name of its own
in every call, and all that belongs to the slot of a parameter shares one. So of all asks only the
first for each holder draws, and the names are those of one replay of the registry on the types
of these. -/

namespace LocalNames

/-- Whom a name is for: a variable in one of several calls, or the parameter in a slot. -/
inductive Holder
  | var (call : Nat) (v : VarId)
  | parameter (slot : UInt32)
  deriving DecidableEq

def Holder.isParameter : Holder → Bool
  | var _ _ => false
  | parameter _ => true

structure Ask where
  holder : Holder
  key : TypeKey
  deriving DecidableEq

/-- Of the asks for one holder only the first draws. -/
def firstAsks : List Ask → List Ask
  | [] => []
  | a :: asks => a :: (firstAsks asks).filter (·.holder ≠ a.holder)

namespace Registry

/-- The registry as asks leave it. -/
def afterAsks (r : Registry) (asks : List Ask) : Registry :=
  r.after ((firstAsks asks).map (·.key))

/-- The draws for asks, under their holders. -/
def record (r : Registry) (asks : List Ask) : List (Holder × Draw) :=
  ((firstAsks asks).map (·.holder)).zip (r.draws ((firstAsks asks).map (·.key)))

/-- The name a holder gets when asks are served. -/
def nameOf? (r : Registry) (asks : List Ask) (h : Holder) : Option String :=
  ((r.record asks).lookup h).map (·.name)

/-- Where that name comes from. -/
def sourceOf? (r : Registry) (asks : List Ask) (h : Holder) : Option (String × Nat) :=
  ((r.record asks).lookup h).bind (·.source)

theorem map_snd_record (r : Registry) (asks : List Ask) :
    (r.record asks).map (·.2) = r.draws ((firstAsks asks).map (·.key)) :=
  List.map_snd_zip (by simp)

theorem mem_record_of_lookup {r : Registry} {asks : List Ask} {h : Holder} {d : Draw}
    (hd : (r.record asks).lookup h = some d) : (h, d) ∈ r.record asks := by
  obtain ⟨before, rest, hr, _⟩ := List.lookup_eq_some_iff.mp hd
  rw [hr]
  exact List.mem_append_right _ List.mem_cons_self

theorem mem_draws_of_lookup {r : Registry} {asks : List Ask} {h : Holder} {d : Draw}
    (hd : (r.record asks).lookup h = some d) : d ∈ r.draws ((firstAsks asks).map (·.key)) := by
  rw [← map_snd_record]
  exact List.mem_map_of_mem (mem_record_of_lookup hd)

/-- Different holders never get the same position of a family. -/
theorem source_ne_of_lookup {r : Registry} {asks : List Ask} {h h' : Holder} {d e : Draw}
    (hd : (r.record asks).lookup h = some d) (he : (r.record asks).lookup h' = some e)
    (hne : h ≠ h') {s : String × Nat} (hs : d.source = some s) : e.source ≠ some s := by
  have hdraws := draws_pairwise r ((firstAsks asks).map (·.key))
  rw [← map_snd_record, List.pairwise_map] at hdraws
  have hapart : (r.record asks).Pairwise fun p q =>
      p.1 ≠ q.1 → ∀ s, p.2.source = some s → q.2.source ≠ some s := by
    refine hdraws.imp ?_
    exact fun hpq _ => hpq
  refine hapart.forall_of_forall_of_flip (fun _ _ hne => absurd rfl hne) ?_
    (mem_record_of_lookup hd) (mem_record_of_lookup he) hne s hs
  refine hdraws.imp ?_
  exact fun hpq _ s hq hp => hpq s hp hq

end Registry

/-! ### Entering asks one by one -/

/-- The draws so far, and the registry as they have left it. -/
structure Ledger where
  log : List (Holder × Draw)
  registry : Registry

namespace Ledger

def nameOf? (s : Ledger) (h : Holder) : Option String :=
  (s.log.lookup h).map (·.name)

def enter (s : Ledger) (a : Ask) : Ledger :=
  match s.log.lookup a.holder with
  | some _ => s
  | none => ⟨s.log ++ [(a.holder, ⟨(s.registry.nextName a.key).1, s.registry.source? a.key⟩)],
      (s.registry.nextName a.key).2⟩

def enterAll (s : Ledger) (asks : List Ask) : Ledger :=
  asks.foldl enter s

theorem enter_of_some {s : Ledger} {a : Ask} {d : Draw} (h : s.log.lookup a.holder = some d) :
    s.enter a = s := by
  rw [enter, h]

theorem enter_of_none {s : Ledger} {a : Ask} (h : s.log.lookup a.holder = none) :
    s.enter a = ⟨s.log ++ [(a.holder, ⟨(s.registry.nextName a.key).1, s.registry.source? a.key⟩)],
      (s.registry.nextName a.key).2⟩ := by
  rw [enter, h]

theorem nameOf?_enter_self {s : Ledger} {a : Ask} (h : s.log.lookup a.holder = none) :
    (s.enter a).nameOf? a.holder = some (s.registry.nextName a.key).1 := by
  rw [enter_of_none h, nameOf?, List.lookup_append, h]
  simp

theorem nameOf?_enter_of_ne {s : Ledger} {a : Ask} {h : Holder} (hne : h ≠ a.holder) :
    (s.enter a).nameOf? h = s.nameOf? h := by
  cases ha : s.log.lookup a.holder with
  | some d => rw [enter_of_some ha]
  | none =>
    have hb : (h == a.holder) = false := beq_eq_false_iff_ne.mpr hne
    rw [enter_of_none ha, nameOf?, List.lookup_append, List.lookup_cons, hb, List.lookup_nil,
      Option.or_none, nameOf?]

theorem nameOf?_eq_none {s : Ledger} {h : Holder} :
    s.nameOf? h = none ↔ s.log.lookup h = none :=
  Option.map_eq_none_iff

theorem enterAll_append (s : Ledger) (asks more : List Ask) :
    s.enterAll (asks ++ more) = (s.enterAll asks).enterAll more :=
  List.foldl_append

/-- The asks for holders that are not in the log are replayed, the first for each. -/
theorem enterAll_eq (s : Ledger) (asks : List Ask) :
    let news := (firstAsks asks).filter fun a => (s.log.lookup a.holder).isNone
    s.enterAll asks = ⟨s.log ++ (news.map (·.holder)).zip (s.registry.draws (news.map (·.key))),
      s.registry.after (news.map (·.key))⟩ := by
  induction asks generalizing s with
  | nil => simp [firstAsks, enterAll, Registry.draws, Registry.after]
  | cons a asks ih =>
    simp only [enterAll, List.foldl_cons, firstAsks, List.filter_cons, List.filter_filter] at ih ⊢
    rw [ih]
    cases ha : s.log.lookup a.holder with
    | some d =>
      have hnews : ∀ b ∈ firstAsks asks, (s.log.lookup b.holder).isNone =
          ((s.log.lookup b.holder).isNone && decide (b.holder ≠ a.holder)) := by
        intro b _
        by_cases hb : b.holder = a.holder <;> simp [hb, ha]
      rw [enter_of_some ha, List.filter_congr hnews]
      simp
    | none =>
      have hnews : ∀ b ∈ firstAsks asks, ((s.enter a).log.lookup b.holder).isNone =
          ((s.log.lookup b.holder).isNone && decide (b.holder ≠ a.holder)) := by
        intro b _
        rw [enter_of_none ha, List.lookup_append]
        by_cases hb : b.holder = a.holder <;> simp [hb]
      rw [List.filter_congr hnews, enter_of_none ha]
      simp [Registry.draws, Registry.after]

/-- From an empty log, entering asks is one replay. -/
theorem enterAll_start (r : Registry) (asks : List Ask) :
    enterAll ⟨[], r⟩ asks = ⟨r.record asks, r.afterAsks asks⟩ := by
  have hall : (firstAsks asks).filter
      (fun a => (([] : List (Holder × Draw)).lookup a.holder).isNone) =
      firstAsks asks := List.filter_eq_self.mpr fun _ _ => rfl
  simp only [enterAll_eq, hall, List.nil_append, Registry.record, Registry.afterAsks]

theorem log_prefix_enterAll (s : Ledger) (asks : List Ask) : s.log <+: (s.enterAll asks).log := by
  rw [enterAll_eq]
  exact List.prefix_append _ _

theorem nameOf?_enterAll_of_ne {s : Ledger} {h : Holder} {asks : List Ask}
    (hne : ∀ a ∈ asks, h ≠ a.holder) : (s.enterAll asks).nameOf? h = s.nameOf? h := by
  induction asks generalizing s with
  | nil => rfl
  | cons a asks ih =>
    rw [enterAll, List.foldl_cons, ← enterAll, ih fun b hb => hne b (List.mem_cons_of_mem _ hb),
      nameOf?_enter_of_ne (hne a List.mem_cons_self)]

theorem nameOf?_enterAll {s : Ledger} {h : Holder} {name : String} (hs : s.nameOf? h = some name)
    (asks : List Ask) : (s.enterAll asks).nameOf? h = some name := by
  obtain ⟨d, hd, rfl⟩ := Option.map_eq_some_iff.mp hs
  rw [nameOf?, (log_prefix_enterAll s asks).lookup_eq_some hd, Option.map_some]

end Ledger

end LocalNames
