import LocalNames.Text.Lowercase
import Mathlib.Tactic.SplitIfs

/-! Lowercase forms are final: no character of one has another lowercase form, so that taking
the lowercase form twice changes nothing the second time. For the table this is checked run
against run, by the range of the forms and, where two ranges meet, by their parity. -/

namespace LocalNames.Text

/-! ### The table -/

namespace CaseRun

/-- Whether the other run leaves all forms of this one as they are. -/
def settledBy (run other : CaseRun) : Bool :=
  (run.target + (run.last - run.first)).blt other.first || other.last.blt run.target ||
    (run.first.beq run.last || run.stride.beq 2) && other.stride.beq 2 &&
      !(run.target % 2).beq (other.first % 2)

theorem not_contains_of_settledBy {run other : CaseRun} (h : run.settledBy other = true) {n : Nat}
    (hn : run.first ≤ n) (hc : run.contains n = true)
    (ho : other.first ≤ run.target + (n - run.first)) :
    other.contains (run.target + (n - run.first)) = false := by
  simp only [contains, Bool.and_eq_true, decide_eq_true_eq, beq_iff_eq] at hc
  obtain ⟨hl, hs⟩ := hc
  simp only [settledBy, Bool.or_eq_true, Bool.and_eq_true, Nat.blt_eq, Nat.beq_eq,
    Bool.not_eq_true', ← Bool.not_eq_true] at h
  rw [← Bool.not_eq_true]
  simp only [contains, Bool.and_eq_true, decide_eq_true_eq, beq_iff_eq, not_and]
  intro hle hm
  rcases h with (hlt | hlt) | ⟨⟨hr, ht⟩, hp⟩
  · omega
  · omega
  · -- the offsets in both runs are even, so the parities of their starts decide
    have he : (n - run.first) % 2 = 0 := by
      rcases hr with hr | hr
      · omega
      · rwa [hr] at hs
    rw [ht] at hm
    omega

end CaseRun

theorem lowercaseRuns_settled :
    (lowercaseRuns.all fun run => lowercaseRuns.all run.settledBy) = true := by
  decide +kernel

/-- The dotted `İ`, whose form is not in the table, is no form either. -/
theorem lowercaseRuns_avoid : (lowercaseRuns.all fun run =>
    (run.target + (run.last - run.first)).blt 0x130 || (0x130).blt run.target) = true := by
  decide +kernel

theorem lowercaseIn_cases (n : Nat) (runs : List CaseRun) :
    lowercaseIn n runs = n ∨ ∃ run ∈ runs, run.first ≤ n ∧ run.contains n = true ∧
      lowercaseIn n runs = run.target + (n - run.first) := by
  induction runs with
  | nil => exact .inl rfl
  | cons run rest ih =>
    simp only [lowercaseIn]
    split_ifs with hb hc
    · exact .inl rfl
    · exact .inr ⟨run, List.mem_cons_self, by omega, hc, rfl⟩
    · exact ih.imp_right fun ⟨r, hr, h⟩ => ⟨r, List.mem_cons_of_mem _ hr, h⟩

theorem lowercaseIn_of_not_contains {n : Nat} {runs : List CaseRun}
    (h : ∀ run ∈ runs, run.first ≤ n → run.contains n = false) : lowercaseIn n runs = n := by
  rcases lowercaseIn_cases n runs with hn | ⟨run, hr, hf, hc, _⟩
  · exact hn
  · rw [h run hr hf] at hc
    cases hc

theorem lowercaseIn_lowercaseIn (n : Nat) :
    lowercaseIn (lowercaseIn n lowercaseRuns) lowercaseRuns = lowercaseIn n lowercaseRuns := by
  rcases lowercaseIn_cases n lowercaseRuns with hn | ⟨run, hr, hf, hc, hn⟩
  · rw [hn, hn]
  · rw [hn]
    apply lowercaseIn_of_not_contains
    intro other ho
    have hs := List.all_eq_true.mp (List.all_eq_true.mp lowercaseRuns_settled run hr) other ho
    exact CaseRun.not_contains_of_settledBy hs hf hc

theorem eq_of_lowercaseIn_eq_dotted {n : Nat} (h : lowercaseIn n lowercaseRuns = 0x130) :
    n = 0x130 := by
  rcases lowercaseIn_cases n lowercaseRuns with hn | ⟨run, hr, hf, hc, hn⟩
  · rw [← hn, h]
  · have ha := List.all_eq_true.mp lowercaseRuns_avoid run hr
    simp only [Bool.or_eq_true, Nat.blt_eq] at ha
    simp only [CaseRun.contains, Bool.and_eq_true, decide_eq_true_eq] at hc
    omega

/-! ### Characters and texts -/

/-- A character that stands in lowercase forms as it is. -/
def Settled (c : Char) : Prop :=
  c ≠ 'Σ' ∧ lowercaseChar c = [c]

theorem lowercaseChar_of_ne {c : Char} (h : c ≠ 'İ') :
    lowercaseChar c = [Char.ofNat (lowercaseIn c.toNat lowercaseRuns)] :=
  if_neg h

/-- What stands in the lowercase form of a character. The last case is that of a number that no
character has. -/
theorem mem_lowercaseChar_cases {c d : Char} (hd : d ∈ lowercaseChar c) :
    (d = 'i' ∨ d = '\u0307') ∨ (c ≠ 'İ' ∧ d.toNat = lowercaseIn c.toNat lowercaseRuns) ∨
      d = '\x00' := by
  by_cases hi : c = 'İ'
  · subst hi
    exact .inl (by simpa [lowercaseChar] using hd)
  · rw [lowercaseChar_of_ne hi, List.mem_singleton] at hd
    by_cases hv : (lowercaseIn c.toNat lowercaseRuns).isValidChar
    · refine .inr (.inl ⟨hi, ?_⟩)
      rw [hd, Char.ofNat, dif_pos hv]
      rfl
    · refine .inr (.inr ?_)
      rw [hd, Char.ofNat, dif_neg hv]
      rfl

theorem settled_of_mem_lowercaseChar {c d : Char} (hd : d ∈ lowercaseChar c) : Settled d := by
  rcases mem_lowercaseChar_cases hd with hd | ⟨hi, hn⟩ | rfl
  · rcases hd with rfl | rfl <;> exact ⟨by decide, by decide +kernel⟩
  · have hne : d ≠ 'İ' := by
      rintro rfl
      exact hi (Char.toNat_inj.mp (eq_of_lowercaseIn_eq_dotted hn.symm))
    refine ⟨?_, ?_⟩
    · rintro rfl
      have hf := lowercaseIn_lowercaseIn c.toNat
      rw [← hn] at hf
      revert hf
      decide +kernel
    · rw [lowercaseChar_of_ne hne, hn, lowercaseIn_lowercaseIn, ← hn, Char.ofNat_toNat]
  · exact ⟨by decide, by decide +kernel⟩

theorem settled_lowercaseFrom (letter : Bool) (cs : List Char) :
    ∀ d ∈ lowercaseFrom letter cs, Settled d := by
  induction cs generalizing letter with
  | nil => simp [lowercaseFrom]
  | cons c cs ih =>
    intro d hd
    simp only [lowercaseFrom, List.mem_append] at hd
    rcases hd with hd | hd
    · split_ifs at hd with hs he
      · obtain rfl := List.mem_singleton.mp hd
        exact ⟨by decide, by decide +kernel⟩
      · obtain rfl := List.mem_singleton.mp hd
        exact ⟨by decide, by decide +kernel⟩
      · exact settled_of_mem_lowercaseChar hd
    · exact ih _ d hd

theorem lowercaseFrom_of_settled (letter : Bool) {cs : List Char} (h : ∀ c ∈ cs, Settled c) :
    lowercaseFrom letter cs = cs := by
  induction cs generalizing letter with
  | nil => rfl
  | cons c cs ih =>
    obtain ⟨hs, hc⟩ := h c List.mem_cons_self
    rw [lowercaseFrom, ih _ fun d hd => h d (List.mem_cons_of_mem _ hd)]
    simp only [if_neg hs, hc, List.singleton_append]

/-- Lowercase forms are their own. -/
@[simp]
theorem lowercase_lowercase (s : String) : lowercase (lowercase s) = lowercase s := by
  simp only [lowercase, String.toList_ofList]
  rw [lowercaseFrom_of_settled _ (settled_lowercaseFrom _ _)]

end LocalNames.Text
