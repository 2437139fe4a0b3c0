import LocalNames.Descriptor.Grammar
import Mathlib.Tactic.SplitIfs

/-! The combinators of the grammar of descriptors, and what becomes of the faults that they pass
over. A fault is forgotten as soon as reading has got beyond its place; the one that ends a
repetition stays until then. -/

namespace LocalNames.DescriptorGrammar

namespace Fault

variable {e f : Fault}

theorem further_of_lt (h : e.rest.length < f.rest.length) : e.further f = e :=
  if_pos h

theorem further_of_gt (h : f.rest.length < e.rest.length) : e.further f = f := by
  rw [further, if_neg (Nat.lt_asymm h), if_pos h]

theorem further_of_rest_eq (h : e.rest = f.rest) :
    e.further f = ⟨e.rest, f.expected.foldr Expectation.insert e.expected⟩ := by
  rw [further, h, if_neg (Nat.lt_irrefl _), if_neg (Nat.lt_irrefl _)]

/-- Of faults that lie before a place, none gets beyond it. -/
theorem merge_before {a b : Option Fault} {n : Nat} (ha : ∀ f ∈ a, n < f.rest.length)
    (hb : ∀ f ∈ b, n < f.rest.length) : ∀ f ∈ a.merge further b, n < f.rest.length := by
  cases a with
  | none => simpa using hb
  | some e =>
    cases b with
    | none => simpa using ha
    | some f =>
      rintro _ ⟨⟩
      rw [further]
      split_ifs
      · exact ha e rfl
      · exact hb f rfl
      · exact ha e rfl

theorem merge_of_before {a : Option Fault} (ha : ∀ e ∈ a, f.rest.length < e.rest.length) :
    a.merge further (some f) = some f := by
  cases a with
  | none => rfl
  | some e => rw [Option.merge_some_some, further_of_gt (ha e rfl)]

end Fault

/-! ### Steps -/

section

variable {α β : Type} {p q : Parser α} {f : α → Parser β} {cs rest : List Char} {a : α}
  {passed : Option Fault} {fault other : Fault}

theorem bind_of_done (h : p cs = .done a rest passed) :
    (p >>= f) cs = (f a rest).behind passed := by
  simp only [bind, h]

theorem bind_of_failed (h : p cs = .failed fault) : (p >>= f) cs = .failed fault := by
  simp only [bind, h]

theorem map_of_done (g : α → β) (h : p cs = .done a rest passed) :
    (g <$> p) cs = .done (g a) rest passed := by
  show (p >>= fun a => pure (g a)) cs = _
  rw [bind_of_done h]
  cases passed <;> rfl

theorem map_of_failed (g : α → β) (h : p cs = .failed fault) : (g <$> p) cs = .failed fault :=
  bind_of_failed h

theorem orElse_of_done (h : p cs = .done a rest passed) :
    (p <|> q) cs = .done a rest passed := by
  simp only [HOrElse.hOrElse, OrElse.orElse, h]

theorem orElse_of_failed_done (h : p cs = .failed fault) (hq : q cs = .done a rest passed) :
    (p <|> q) cs = .done a rest passed := by
  simp only [HOrElse.hOrElse, OrElse.orElse, h, hq]

theorem orElse_of_failed (h : p cs = .failed fault) (hq : q cs = .failed other) :
    (p <|> q) cs = .failed (fault.further other) := by
  simp only [HOrElse.hOrElse, OrElse.orElse, h, hq]

/-- Faults that have been passed over before the place of a failure do not count. -/
theorem behind_failed (h : ∀ f ∈ passed, fault.rest.length < f.rest.length) :
    (Reading.failed fault : Reading α).behind passed = .failed fault := by
  cases passed with
  | none => rfl
  | some f => rw [Reading.behind, Option.elim_some, Fault.further_of_lt (h f rfl)]

end

section

variable {α : Type} {expected : List Expectation} {f : Char → Option α}

theorem one_of_some {c : Char} {a : α} (h : f c = some a) (cs : List Char) :
    one expected f (c :: cs) = .done a cs none := by
  simp only [one, h]

theorem one_of_none {cs : List Char} (h : ∀ c ∈ cs.head?, f c = none) :
    one expected f cs = .failed ⟨cs, expected⟩ := by
  cases cs with
  | nil => rfl
  | cons c cs => simp only [one, h c rfl]

theorem of_one_done {cs rest : List Char} {a : α} {passed : Option Fault}
    (h : one expected f cs = .done a rest passed) :
    ∃ c, cs = c :: rest ∧ f c = some a ∧ passed = none := by
  cases cs with
  | nil => cases h
  | cons c cs =>
    cases hc : f c with
    | none => simp [one, hc] at h
    | some b =>
      rw [one_of_some hc] at h
      cases h
      exact ⟨c, rfl, hc, rfl⟩

theorem of_one_failed {cs : List Char} {fault : Fault} (h : one expected f cs = .failed fault) :
    fault = ⟨cs, expected⟩ ∧ ∀ c ∈ cs.head?, f c = none := by
  cases cs with
  | nil =>
    cases h
    exact ⟨rfl, by simp⟩
  | cons c cs =>
    cases hc : f c with
    | none =>
      rw [one_of_none (by simpa using hc)] at h
      cases h
      exact ⟨rfl, by simpa using hc⟩
    | some b => simp [one, hc] at h

theorem just_self (c : Char) (cs : List Char) : just c (c :: cs) = .done () cs none :=
  one_of_some (if_pos rfl) cs

theorem just_of_ne {c : Char} {cs : List Char} (h : cs.head? ≠ some c) :
    just c cs = .failed ⟨cs, [.char c]⟩ :=
  one_of_none fun _ hd => if_neg fun he => h (by rw [hd, he])

end

/-! ### Repetition -/

/-- Whether `p` reads what `write` writes, and passes over no fault behind it. -/
structure Reads {α : Type} (p : Parser α) (Writable : α → Prop) (write : α → List Char) :
    Prop where
  done : ∀ {cs a rest passed}, p cs = .done a rest passed →
    Writable a ∧ cs = write a ++ rest ∧ ∀ f ∈ passed, rest.length < f.rest.length
  failed : ∀ {cs fault}, p cs = .failed fault → fault.rest.length ≤ cs.length
  write_ne_nil : ∀ {a}, Writable a → write a ≠ []

theorem Reads.shorter {α : Type} {p : Parser α} {Writable : α → Prop} {write : α → List Char}
    (hp : Reads p Writable write) {cs rest : List Char} {a : α} {passed : Option Fault}
    (h : p cs = .done a rest passed) : rest.length < cs.length := by
  obtain ⟨ha, rfl, -⟩ := hp.done h
  have := List.length_pos_iff.mpr (hp.write_ne_nil ha)
  rw [List.length_append]
  omega

section

variable {α : Type} {p : Parser α} {Writable : α → Prop} {write : α → List Char}

/-- A repetition ends where its item fails, and it is that fault which is passed over. -/
theorem repeated_of_reads (hp : Reads p Writable write) {bound : Nat} {cs : List Char}
    (hcs : cs.length < bound) (items : List α) {passed : Option Fault}
    (hpassed : ∀ f ∈ passed, cs.length < f.rest.length) : ∃ more rest fault,
      repeated p bound items passed cs = .done (items ++ more) rest (some fault) ∧
      p rest = .failed fault ∧ (∀ a ∈ more, Writable a) ∧ cs = more.flatMap write ++ rest := by
  -- Each item takes a character, so it is never the bound that ends the repetition.
  induction bound generalizing items passed cs with
  | zero => exact absurd hcs (Nat.not_lt_zero _)
  | succ bound ih =>
    cases h : p cs with
    | failed fault =>
      have hfault : ∀ f ∈ passed, fault.rest.length < f.rest.length := fun f hf =>
        Nat.lt_of_le_of_lt (hp.failed h) (hpassed f hf)
      refine ⟨[], cs, fault, ?_, h, by simp, rfl⟩
      simp only [repeated, h, Fault.merge_of_before hfault, List.append_nil]
    | done a rest later =>
      obtain ⟨ha, htext, hlater⟩ := hp.done h
      have hshorter := hp.shorter h
      have hbefore : ∀ f ∈ passed, rest.length < f.rest.length := fun f hf =>
        Nat.lt_trans hshorter (hpassed f hf)
      obtain ⟨more, last, fault, hrun, hlast, hmore, hrest⟩ :=
        ih (Nat.lt_of_lt_of_le hshorter (Nat.le_of_lt_succ hcs)) (items ++ [a])
          (Fault.merge_before hbefore hlater)
      refine ⟨a :: more, last, fault, ?_, hlast, List.forall_mem_cons.mpr ⟨ha, hmore⟩, ?_⟩
      · simp only [repeated, h]
        rw [hrun, List.append_assoc, List.singleton_append]
      · rw [htext, hrest, List.flatMap_cons, List.append_assoc]

theorem many_of_reads (hp : Reads p Writable write) (cs : List Char) : ∃ items rest fault,
    many p cs = .done items rest (some fault) ∧ p rest = .failed fault ∧
    (∀ a ∈ items, Writable a) ∧ cs = items.flatMap write ++ rest :=
  repeated_of_reads hp (Nat.lt_succ_self _) [] (by simp)

/-- Where the closing character is missing, an item is what could have stood there as well. -/
theorem enclosed_of_reads (hp : Reads p Writable write) (opening closing : Char)
    (cs : List Char) : ∃ items rest fault, p rest = .failed fault ∧ (∀ a ∈ items, Writable a) ∧
      cs = items.flatMap write ++ rest ∧
      ((∃ behind, rest = closing :: behind ∧
          enclosed opening closing p (opening :: cs) = .done items behind (some fault)) ∨
        rest.head? ≠ some closing ∧ enclosed opening closing p (opening :: cs) =
          .failed (Fault.further ⟨rest, [.char closing]⟩ fault)) := by
  obtain ⟨items, rest, fault, hrun, hfault, hitems, hcs⟩ := many_of_reads hp cs
  refine ⟨items, rest, fault, hfault, hitems, hcs, ?_⟩
  rw [enclosed, bind_of_done (just_self _ _), bind_of_done hrun]
  by_cases hrest : rest.head? = some closing
  · obtain ⟨behind, rfl⟩ := List.head?_eq_some_iff.mp hrest
    refine .inl ⟨behind, rfl, ?_⟩
    rw [bind_of_done (just_self _ _)]
    rfl
  · refine .inr ⟨hrest, ?_⟩
    rw [bind_of_failed (just_of_ne hrest)]
    rfl

end

end LocalNames.DescriptorGrammar
