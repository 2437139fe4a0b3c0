import LocalNames.Family
import Mathlib.Algebra.Group.Nat.Defs

/-! When two names of families are the same text. A name is a candidate with a number behind it,
or nothing; so either both parts agree, or one candidate goes on where the other ends and takes
the first digits of its number. -/

namespace LocalNames

/-! ### Decimal numbers -/

namespace Text

theorem toDigits_inj {m n : Nat} : Nat.toDigits 10 m = Nat.toDigits 10 n ↔ m = n := by
  refine ⟨fun h => ?_, fun h => h ▸ rfl⟩
  have hv := congrArg (fun ds => Nat.ofDigitChars 10 ds 0) h
  simpa using hv

theorem toDigits_append {n : Nat} (hn : 0 < n) (m : Nat) :
    Nat.toDigits 10 n ++ Nat.toDigits 10 m =
      Nat.toDigits 10 (n * 10 ^ (Nat.toDigits 10 m).length + m) := by
  induction m using Nat.base_induction 10 (by decide) with
  | single d hd =>
    rw [Nat.toDigits_append_toDigits (by decide) hn hd, Nat.toDigits_of_lt_base hd,
      List.length_singleton, Nat.pow_one, Nat.mul_comm]
  | digit m d hd hm ih =>
    have hlen : (Nat.toDigits 10 (10 * m + d)).length = (Nat.toDigits 10 m).length + 1 := by
      rw [← Nat.toDigits_append_toDigits (by decide) hm hd, Nat.toDigits_of_lt_base hd,
        List.length_append, List.length_singleton]
    rw [hlen, ← Nat.toDigits_append_toDigits (by decide) hm hd, ← List.append_assoc, ih,
      Nat.toDigits_append_toDigits (by decide) (by omega) hd]
    congr 1
    rw [Nat.pow_succ, ← Nat.mul_assoc]
    omega

/-- The first digits of a number are a number. -/
theorem exists_toDigits_of_append {n : Nat} {cs ds : List Char} (hc : cs ≠ [])
    (h : Nat.toDigits 10 n = cs ++ ds) : ∃ m, cs = Nat.toDigits 10 m := by
  induction n using Nat.base_induction 10 (by decide) generalizing ds with
  | single d hd =>
    rw [Nat.toDigits_of_lt_base hd, eq_comm, List.append_eq_singleton_iff] at h
    obtain ⟨rfl, _⟩ | ⟨rfl, _⟩ := h
    · exact absurd rfl hc
    · exact ⟨d, (Nat.toDigits_of_lt_base hd).symm⟩
  | digit m d hd hm ih =>
    rcases List.eq_nil_or_concat ds with rfl | ⟨ds, c, rfl⟩
    · exact ⟨10 * m + d, by rw [h, List.append_nil]⟩
    · rw [← Nat.toDigits_append_toDigits (by decide) hm hd, Nat.toDigits_of_lt_base hd,
        List.concat_eq_append, ← List.append_assoc] at h
      exact ih (List.append_inj_left' h rfl)

/-- The number `r` is written as `n` with `m?` behind it. -/
def Joins (r n : Nat) : Option Nat → Prop
  | none => r = n
  | some m => 0 < n ∧ r = n * 10 ^ (Nat.toDigits 10 m).length + m

theorem toDigits_eq_append_iff {r n : Nat} {m? : Option Nat} :
    Nat.toDigits 10 r = Nat.toDigits 10 n ++ m?.elim [] (Nat.toDigits 10) ↔ Joins r n m? := by
  cases m? with
  | none => simp only [Option.elim_none, List.append_nil, toDigits_inj, Joins]
  | some m =>
    simp only [Option.elim_some, Joins]
    constructor
    · intro h
      have hv := congrArg (fun ds => Nat.ofDigitChars 10 ds 0) h
      simp only [Nat.ofDigitChars_ten_toDigits, Nat.ofDigitChars_append] at hv
      rw [Nat.ofDigitChars_eq_ofDigitChars_zero, Nat.ofDigitChars_ten_toDigits] at hv
      refine ⟨Nat.pos_of_ne_zero ?_, by rw [hv, Nat.mul_comm]⟩
      -- a leading zero would make the text longer than that of the same number
      rintro rfl
      rw [Nat.mul_zero, Nat.zero_add] at hv
      have hlen := congrArg List.length h
      rw [hv, List.length_append, Nat.toDigits_zero, List.length_singleton] at hlen
      omega
    · rintro ⟨hn, rfl⟩
      rw [toDigits_append hn]

end Text

/-! ### Names -/

namespace Family

/-- The number written at position `i`, if there is one. -/
def written? (f : Family) (i : Nat) : Option Nat :=
  let round := i / f.candidates.length
  if f.skipZero && round == 0 then none else some round

theorem toList_numberAt (f : Family) (i : Nat) :
    (f.numberAt i).toList = (f.written? i).elim [] (Nat.toDigits 10) := by
  simp only [numberAt, written?]
  split <;> simp

theorem round_eq_of_written?_eq {f : Family} {i j : Nat} (h : f.written? i = f.written? j) :
    i / f.candidates.length = j / f.candidates.length := by
  simp only [written?] at h
  split at h <;> split at h
  next hi hj =>
    simp only [Bool.and_eq_true, beq_iff_eq] at hi hj
    rw [hi.2, hj.2]
  next => cases h
  next => cases h
  next => exact Option.some_inj.mp h

/-- The candidate of `g` is that of `f` and a number that the number of `f` begins with; the
rest of it is the number of `g`. -/
def Reaches (f : Family) (i : Nat) (g : Family) (j : Nat) : Prop :=
  ∃ n r, g.candidateAt j = f.candidateAt i ++ toString n ∧ f.written? i = some r ∧
    Text.Joins r n (g.written? j)

/-- The name of `f` at `i` and that of `g` at `j` are composed in the same way, or one family
reaches the other. -/
def Meets (f : Family) (i : Nat) (g : Family) (j : Nat) : Prop :=
  f.candidateAt i = g.candidateAt j ∧ f.written? i = g.written? j ∨
    f.Reaches i g j ∨ g.Reaches j f i

theorem elim_toDigits_inj {m? n? : Option Nat} :
    m?.elim [] (Nat.toDigits 10) = n?.elim [] (Nat.toDigits 10) ↔ m? = n? := by
  cases m? <;> cases n? <;> simp [Text.toDigits_inj]

theorem exists_append_iff {f g : Family} {i j : Nat} :
    (∃ cs, (g.candidateAt j).toList = (f.candidateAt i).toList ++ cs ∧
      (f.numberAt i).toList = cs ++ (g.numberAt j).toList) ↔
    f.candidateAt i = g.candidateAt j ∧ f.written? i = g.written? j ∨ f.Reaches i g j := by
  simp only [toList_numberAt]
  constructor
  · rintro ⟨cs, hc, hn⟩
    by_cases hne : cs = []
    · subst hne
      rw [List.append_nil, String.toList_inj] at hc
      rw [List.nil_append, elim_toDigits_inj] at hn
      exact .inl ⟨hc.symm, hn⟩
    · cases hr : f.written? i with
      | none =>
        rw [hr, Option.elim_none, eq_comm, List.append_eq_nil_iff] at hn
        exact absurd hn.1 hne
      | some r =>
        rw [hr, Option.elim_some] at hn
        obtain ⟨n, rfl⟩ := Text.exists_toDigits_of_append hne hn
        refine .inr ⟨n, r, ?_, hr, Text.toDigits_eq_append_iff.mp hn⟩
        rw [← String.toList_inj, hc, String.toList_append, Nat.toString_eq_repr, Nat.toList_repr]
  · rintro (⟨hc, hn⟩ | ⟨n, r, hc, hr, hj⟩)
    · exact ⟨[], by rw [hc, List.append_nil], by rw [hn, List.nil_append]⟩
    · refine ⟨Nat.toDigits 10 n, ?_, ?_⟩
      · rw [hc, String.toList_append, Nat.toString_eq_repr, Nat.toList_repr]
      · rw [hr, Option.elim_some, Text.toDigits_eq_append_iff.mpr hj]

theorem nameAt_eq_iff {f g : Family} {i j : Nat} : f.nameAt i = g.nameAt j ↔ f.Meets i g j := by
  have hsplit : f.nameAt i = g.nameAt j ↔ (f.candidateAt i).toList ++ (f.numberAt i).toList =
      (g.candidateAt j).toList ++ (g.numberAt j).toList := by
    rw [← String.toList_inj]
    simp only [nameAt, String.toList_append]
  rw [hsplit, List.append_eq_append_iff, exists_append_iff, exists_append_iff, Meets]
  constructor
  · rintro ((h | h) | (⟨hc, hn⟩ | h))
    · exact .inl h
    · exact .inr (.inl h)
    · exact .inl ⟨hc.symm, hn.symm⟩
    · exact .inr (.inr h)
  · rintro (h | h | h)
    · exact .inl (.inl h)
    · exact .inl (.inr h)
    · exact .inr (.inr h)

end Family

end LocalNames
