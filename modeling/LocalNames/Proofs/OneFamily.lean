import LocalNames.Proofs.Collisions
import Mathlib.Data.List.Induction

/-! The names of one family, drawn without end. One of them comes again exactly when a candidate
stands at two places, or is another candidate with a number other than zero behind it. -/

namespace LocalNames

/-! ### Numerals -/

namespace Text

/-- Decimal digits, of which the first is not a zero. -/
structure IsNumeral (ds : List Char) : Prop where
  ne_nil : ds ≠ []
  isDigit : ∀ d ∈ ds, d.isDigit = true
  head_ne : ds.head? ≠ some '0'

theorem head?_toDigits_ne {n : Nat} (hn : 0 < n) : (Nat.toDigits 10 n).head? ≠ some '0' := by
  induction n using Nat.base_induction 10 (by decide) with
  | single d hd =>
    rw [Nat.toDigits_of_lt_base hd, List.head?_singleton, ne_eq, Option.some_inj,
      Nat.digitChar_eq_zero]
    omega
  | digit m d hd hm ih =>
    rw [← Nat.toDigits_append_toDigits (by decide) hm hd, List.head?_append,
      Option.or_of_isSome (List.isSome_head?.mpr Nat.toDigits_ne_nil)]
    exact ih hm

theorem isNumeral_toDigits {n : Nat} (hn : 0 < n) : IsNumeral (Nat.toDigits 10 n) where
  ne_nil := Nat.toDigits_ne_nil
  isDigit _ h := Nat.isDigit_of_mem_toDigits (by decide) (by decide) h
  head_ne := head?_toDigits_ne hn

theorem exists_digitChar {d : Char} (h : d.isDigit = true) : ∃ k < 10, k.digitChar = d := by
  have hd : 48 ≤ d.toNat ∧ d.toNat ≤ 57 := by
    simpa [Char.isDigit, UInt32.le_iff_toNat_le] using h
  refine ⟨d.toNat - 48, by omega, Char.toNat_inj.mp ?_⟩
  rw [Nat.toNat_digitChar_of_lt_ten (by omega)]
  omega

/-- A numeral is written for a number. -/
theorem IsNumeral.exists_toDigits {ds : List Char} (h : IsNumeral ds) :
    ∃ n, 0 < n ∧ Nat.toDigits 10 n = ds := by
  induction ds using List.reverseRecOn with
  | nil => exact absurd rfl h.ne_nil
  | append_singleton ds d ih =>
    obtain ⟨k, hk, rfl⟩ := exists_digitChar (h.isDigit d (by simp))
    by_cases hds : ds = []
    · subst hds
      have hk0 : k ≠ 0 := fun he => h.head_ne (by simp [he])
      exact ⟨k, by omega, Nat.toDigits_of_lt_base hk⟩
    · have hfront : IsNumeral ds :=
        ⟨hds, fun d hd => h.isDigit d (List.mem_append_left _ hd), by
          have hhead := h.head_ne
          rwa [List.head?_append, Option.or_of_isSome (List.isSome_head?.mpr hds)] at hhead⟩
      obtain ⟨m, hm, rfl⟩ := ih hfront
      refine ⟨10 * m + k, by omega, ?_⟩
      rw [← Nat.toDigits_append_toDigits (by decide) hm hk, Nat.toDigits_of_lt_base hk]

theorem append_numeral_iff {b c : String} :
    (∃ ds, IsNumeral ds ∧ c = b ++ String.ofList ds) ↔ ∃ n : Nat, 0 < n ∧ c = b ++ toString n := by
  constructor
  · rintro ⟨ds, hds, rfl⟩
    obtain ⟨n, hn, rfl⟩ := hds.exists_toDigits
    exact ⟨n, hn, by rw [Nat.toString_eq_ofList_toDigits]⟩
  · rintro ⟨n, hn, rfl⟩
    exact ⟨_, isNumeral_toDigits hn, by rw [Nat.toString_eq_ofList_toDigits]⟩

end Text

/-! ### Drawing without end -/

namespace Family

/-- The name that call number `i` gives, when the family is drawn from again and again. -/
def nameOfCall (f : Family) : Nat → String
  | 0 => f.advance.1
  | i + 1 => f.advance.2.nameOfCall i

theorem nameOfCall_eq (f : Family) (i : Nat) : f.nameOfCall i = f.nameAt (f.index + i) := by
  induction i generalizing f with
  | zero => rfl
  | succ i ih =>
    rw [nameOfCall, ih]
    show f.pass.nameAt (f.index + 1 + i) = _
    rw [nameAt_pass, Nat.add_assoc, Nat.add_comm 1]

/-- No candidate is the one at another place, or that with a numeral behind it. -/
def Apart (f : Family) : Prop :=
  ∀ ⦃p q : Nat⦄ ⦃b c : String⦄, f.candidates[p]? = some b → f.candidates[q]? = some c → p ≠ q →
    c ≠ b ∧ ∀ ds, Text.IsNumeral ds → c ≠ b ++ String.ofList ds

variable {f : Family}

theorem getElem?_candidates_mod (f : Family) (i : Nat) :
    f.candidates[i % f.candidates.length]? = some (f.candidateAt i) :=
  List.getElem?_eq_getElem (Nat.mod_lt _ f.candidates_length_pos)

/-- What stands between two candidates of one family is not zero: a zero has no digits behind it,
and where nothing is written behind it, zeros are not written at all. -/
theorem Reaches.exists_pos {i j : Nat} (h : f.Reaches i f j) :
    ∃ n : Nat, 0 < n ∧ f.candidateAt j = f.candidateAt i ++ toString n := by
  obtain ⟨n, r, hc, hi, hj⟩ := h
  refine ⟨n, ?_, hc⟩
  cases hw : f.written? j with
  | some m =>
    rw [hw] at hj
    exact hj.1
  | none =>
    rw [hw] at hj
    obtain rfl : r = n := hj
    unfold written? at hi hw
    grind

/-- Where candidates are apart, no name comes again. -/
theorem Apart.nameAt_injective (h : f.Apart) : Function.Injective f.nameAt := by
  intro i j he
  have hmeets := nameAt_eq_iff.mp he
  refine eq_of_meets_of_mod_eq hmeets (Decidable.byContradiction fun hne => ?_)
  have hi := getElem?_candidates_mod f i
  have hj := getElem?_candidates_mod f j
  rcases hmeets with ⟨hc, _⟩ | hij | hji
  · exact (h hi hj hne).1 hc.symm
  · obtain ⟨ds, hds, hc⟩ := Text.append_numeral_iff.mpr hij.exists_pos
    exact (h hi hj hne).2 ds hds hc
  · obtain ⟨ds, hds, hc⟩ := Text.append_numeral_iff.mpr hji.exists_pos
    exact (h hj hi (Ne.symm hne)).2 ds hds hc

/-- The name of the candidate at place `p` in round `r`, which is not the first. -/
theorem nameAt_round {p r : Nat} {b : String} (hp : f.candidates[p]? = some b) (hr : 0 < r) :
    f.nameAt (r * f.candidates.length + p) = b ++ toString r := by
  obtain ⟨hlt, rfl⟩ := List.getElem?_eq_some_iff.mp hp
  have hdiv : (r * f.candidates.length + p) / f.candidates.length = r := by
    rw [Nat.mul_comm, Nat.mul_add_div f.candidates_length_pos, Nat.div_eq_of_lt hlt, Nat.add_zero]
  have hmod : (r * f.candidates.length + p) % f.candidates.length = p := by
    rw [Nat.mul_comm, Nat.mul_add_mod, Nat.mod_eq_of_lt hlt]
  simp [nameAt, candidateAt, numberAt, hdiv, hmod, Nat.ne_of_gt hr]

/-- Two places that have the same name in later rounds are one place. -/
theorem place_eq_of_round {start p q r s : Nat} {b c : String}
    (hinj : ∀ i j, start ≤ i → start ≤ j → f.nameAt i = f.nameAt j → i = j)
    (hp : f.candidates[p]? = some b) (hq : f.candidates[q]? = some c) (hr : start < r)
    (hs : start < s) (h : b ++ toString r = c ++ toString s) : p = q := by
  have hlate : ∀ {r : Nat} (p : Nat), start < r → start ≤ r * f.candidates.length + p := by
    intro r p hr
    have := Nat.le_mul_of_pos_right r f.candidates_length_pos
    omega
  have heq := hinj _ _ (hlate p hr) (hlate q hs)
    (by rw [nameAt_round hp (by omega), nameAt_round hq (by omega), h])
  have hmod := congrArg (· % f.candidates.length) heq
  simpa [Nat.mul_comm _ f.candidates.length, Nat.mul_add_mod,
    Nat.mod_eq_of_lt (List.getElem?_eq_some_iff.mp hp).1,
    Nat.mod_eq_of_lt (List.getElem?_eq_some_iff.mp hq).1] using hmod

/-- Where no name comes again from some position on, candidates are apart: candidates that are
not have a name in common in rounds as late as one likes. -/
theorem apart_of_nameAt (start : Nat)
    (hinj : ∀ i j, start ≤ i → start ≤ j → f.nameAt i = f.nameAt j → i = j) : f.Apart := by
  intro p q b c hp hq hne
  refine ⟨fun he => ?_, fun ds hds he => ?_⟩
  · exact hne (place_eq_of_round hinj hp hq (Nat.lt_succ_self _) (Nat.lt_succ_self _) (by rw [he]))
  · obtain ⟨m, hm, rfl⟩ := Text.append_numeral_iff.mp ⟨ds, hds, he⟩
    let r := m * 10 ^ (Nat.toDigits 10 (start + 1)).length + (start + 1)
    refine hne (place_eq_of_round hinj (r := r) hp hq (by omega) (Nat.lt_succ_self _) ?_)
    rw [String.append_assoc, ← String.toList_inj]
    simp only [String.toList_append, Nat.toString_eq_repr, Nat.toList_repr, r,
      Text.toDigits_append hm]

theorem apart_single (index : Nat) (skipZero : Bool) (name : String) :
    (⟨index, skipZero, name, []⟩ : Family).Apart := by
  intro p q b c hp hq hne
  obtain ⟨hp, _⟩ := List.getElem?_eq_some_iff.mp hp
  obtain ⟨hq, _⟩ := List.getElem?_eq_some_iff.mp hq
  simp only [candidates, List.length_singleton] at hp hq
  omega

/-- Drawn from without end, a family gives no name twice exactly when its candidates are apart, so
a single candidate never gives one twice. -/
theorem names_of_calls_distinct (f : Family) :
    (Function.Injective f.nameOfCall ↔ f.Apart) ∧
      ∀ (index : Nat) (skipZero : Bool) (name : String),
        Function.Injective (⟨index, skipZero, name, []⟩ : Family).nameOfCall := by
  have hinjective : ∀ {g : Family}, g.Apart → Function.Injective g.nameOfCall := by
    intro g hg i j h
    rw [nameOfCall_eq, nameOfCall_eq] at h
    exact Nat.add_left_cancel (hg.nameAt_injective h)
  refine ⟨⟨fun h => apart_of_nameAt f.index fun i j hi hj he => ?_, hinjective⟩,
    fun index skipZero name => hinjective (apart_single index skipZero name)⟩
  have hcall : i - f.index = j - f.index := h (by
    rw [nameOfCall_eq, nameOfCall_eq, Nat.add_sub_cancel' hi, Nat.add_sub_cancel' hj, he])
  omega

/-- The eleventh round of `b` meets the first of `b1`. -/
example : (⟨0, true, "b", ["b1"]⟩ : Family).nameOfCall 22 =
    (⟨0, true, "b", ["b1"]⟩ : Family).nameOfCall 3 := by
  decide

end Family

end LocalNames
