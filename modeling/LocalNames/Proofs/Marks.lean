import LocalNames.Proofs.Lowercase
import LocalNames.Shape

/-! Lowercase forms keep the marks of a type: its dots, brackets and opened arguments stand where
they stood, and no letter becomes one. So the lowercase form of a key is a key, and what stands
before its first bracket is the lowercase form of what stood there. -/

namespace LocalNames

namespace Text

/-- A character that divides the parts of a type. -/
def IsMark (c : Char) : Prop := c = '.' ∨ c = '<' ∨ c = '[' ∨ c = ']'

/-! ### One character -/

theorem lowercaseRuns_letters : (lowercaseRuns.all fun run => Nat.ble 0x61 run.target) = true := by
  decide +kernel

/-- A code point that is not its own lowercase form has a letter for one. -/
theorem lowercaseIn_eq_or_le (n : Nat) :
    lowercaseIn n lowercaseRuns = n ∨ 0x61 ≤ lowercaseIn n lowercaseRuns := by
  rcases lowercaseIn_cases n lowercaseRuns with h | ⟨run, hr, _, _, h⟩
  · exact .inl h
  · have hrun := Nat.le_of_ble_eq_true (List.all_eq_true.mp lowercaseRuns_letters run hr)
    exact .inr (by omega)

theorem lowercaseChar_ne_nil (c : Char) : lowercaseChar c ≠ [] := by
  unfold lowercaseChar
  split_ifs <;> simp

theorem IsMark.toNat_lt {c : Char} (h : IsMark c) : 0 < c.toNat ∧ c.toNat < 0x61 := by
  rcases h with rfl | rfl | rfl | rfl <;> decide

theorem IsMark.lowercaseChar_eq {c : Char} (h : IsMark c) : lowercaseChar c = [c] := by
  rcases h with rfl | rfl | rfl | rfl <;> decide +kernel

/-- No other character becomes a mark. -/
theorem eq_of_mark_mem_lowercaseChar {c m : Char} (hm : IsMark m) (h : m ∈ lowercaseChar c) :
    c = m := by
  obtain ⟨hpos, hlt⟩ := hm.toNat_lt
  rcases mem_lowercaseChar_cases h with hd | ⟨_, hn⟩ | rfl
  · rcases hd with rfl | rfl <;> exact absurd hlt (by decide)
  · rcases lowercaseIn_eq_or_le c.toNat with heq | hle
    · exact Char.toNat_inj.mp (by rw [hn, heq])
    · omega
  · exact absurd hpos (by decide)

/-! ### Texts -/

theorem lowercaseFrom_mark (letter : Bool) {c : Char} (h : IsMark c) (cs : List Char) :
    lowercaseFrom letter (c :: cs) = c :: lowercaseFrom (letterAfter letter c) cs := by
  have hs : c ≠ 'Σ' := by
    rintro rfl
    exact absurd h.toNat_lt.2 (by decide)
  rw [lowercaseFrom]
  simp only [if_neg hs, h.lowercaseChar_eq, List.singleton_append]

theorem lowercaseFrom_not_mark (letter : Bool) {c : Char} (h : ¬IsMark c) (cs : List Char) :
    ∃ d form, (∀ x ∈ d :: form, ¬IsMark x) ∧ lowercaseFrom letter (c :: cs) =
      d :: form ++ lowercaseFrom (letterAfter letter c) cs := by
  rw [lowercaseFrom]
  split_ifs with hs hf
  · exact ⟨'ς', [], by simp [IsMark], rfl⟩
  · exact ⟨'σ', [], by simp [IsMark], rfl⟩
  · obtain ⟨d, form, hform⟩ := List.exists_cons_of_ne_nil (lowercaseChar_ne_nil c)
    refine ⟨d, form, fun x hx hmark => ?_, by rw [hform]⟩
    rw [← hform] at hx
    exact h (eq_of_mark_mem_lowercaseChar hmark hx ▸ hmark)

theorem mark_mem_lowercaseFrom {letter : Bool} {m : Char} (hm : IsMark m) {cs : List Char} :
    m ∈ lowercaseFrom letter cs ↔ m ∈ cs := by
  induction cs generalizing letter with
  | nil => simp [lowercaseFrom]
  | cons c cs ih =>
    by_cases hc : IsMark c
    · rw [lowercaseFrom_mark letter hc, List.mem_cons, List.mem_cons, ih]
    · obtain ⟨d, form, hform, heq⟩ := lowercaseFrom_not_mark letter hc cs
      have hne : m ≠ c := fun he => hc (he ▸ hm)
      have hnot : m ∉ d :: form := fun hmem => hform m hmem hm
      rw [heq, List.mem_append, or_iff_right hnot, ih, List.mem_cons, or_iff_right hne]

theorem marks_prefix_of_lowercaseFrom {letter : Bool} {ms cs : List Char}
    (hms : ∀ m ∈ ms, IsMark m) (h : ms <+: lowercaseFrom letter cs) : ms <+: cs := by
  induction cs generalizing letter ms with
  | nil => exact h
  | cons c cs ih =>
    cases ms with
    | nil => exact List.nil_prefix
    | cons m ms =>
      obtain ⟨hm, hms⟩ := List.forall_mem_cons.mp hms
      by_cases hc : IsMark c
      · rw [lowercaseFrom_mark letter hc, List.cons_prefix_cons] at h
        exact List.cons_prefix_cons.mpr ⟨h.1, ih hms h.2⟩
      · obtain ⟨d, form, hform, heq⟩ := lowercaseFrom_not_mark letter hc cs
        rw [heq, List.cons_append, List.cons_prefix_cons] at h
        exact absurd (h.1 ▸ hm) (hform d List.mem_cons_self)

/-- Marks that follow each other in a lowercase form did so before. -/
theorem marks_infix_of_lowercaseFrom {letter : Bool} {m : Char} {ms cs : List Char}
    (hms : ∀ x ∈ m :: ms, IsMark x) (h : m :: ms <:+: lowercaseFrom letter cs) :
    m :: ms <:+: cs := by
  induction cs generalizing letter with
  | nil => exact h
  | cons c cs ih =>
    by_cases hc : IsMark c
    · have hfront : m :: ms <+: lowercaseFrom letter (c :: cs) → m :: ms <+: c :: cs :=
        marks_prefix_of_lowercaseFrom hms
      rw [lowercaseFrom_mark letter hc] at h hfront
      rcases List.infix_cons_iff.mp h with h | h
      · exact (hfront h).isInfix
      · exact (ih h).trans (List.suffix_cons c cs).isInfix
    · obtain ⟨d, form, hform, heq⟩ := lowercaseFrom_not_mark letter hc cs
      rw [heq] at h
      -- no character of the form is a mark, so the marks stand behind it
      have hbehind : ∀ form : List Char, (∀ x ∈ form, ¬IsMark x) →
          m :: ms <:+: form ++ lowercaseFrom (letterAfter letter c) cs →
          m :: ms <:+: lowercaseFrom (letterAfter letter c) cs := by
        intro form hform h
        induction form with
        | nil => exact h
        | cons x form ihform =>
          obtain ⟨hx, hform⟩ := List.forall_mem_cons.mp hform
          rcases List.infix_cons_iff.mp h with h | h
          · have he := (List.cons_prefix_cons.mp h).1
            exact absurd (he ▸ hms m List.mem_cons_self) hx
          · exact ihform hform h
      exact (ih (hbehind _ hform h)).trans (List.suffix_cons c cs).isInfix

/-- A bracket ends a word, so that it hides what stands behind it from a sigma before it. -/
theorem meetsLetter_takeWhile (cs : List Char) :
    meetsLetter (cs.takeWhile (· != '[')) = meetsLetter cs := by
  have hbracket : caseIgnorable.contains '[' = false ∧ casedLetters.contains '[' = false := by
    decide +kernel
  induction cs with
  | nil => rfl
  | cons c cs ih =>
    by_cases hc : c = '['
    · subst hc
      simp [meetsLetter, hbracket]
    · rw [List.takeWhile_cons_of_pos (by simpa using hc)]
      unfold meetsLetter at ih ⊢
      rw [List.find?_cons, List.find?_cons]
      cases caseIgnorable.contains c with
      | true => exact ih
      | false => rfl

/-- The lowercase form up to its first bracket is the lowercase form of the text up to there. -/
theorem takeWhile_lowercaseFrom (letter : Bool) (cs : List Char) :
    (lowercaseFrom letter cs).takeWhile (· != '[') =
      lowercaseFrom letter (cs.takeWhile (· != '[')) := by
  have hbracket : IsMark '[' := .inr (.inr (.inl rfl))
  induction cs generalizing letter with
  | nil => rfl
  | cons c cs ih =>
    by_cases hc : c = '['
    · subst hc
      rw [lowercaseFrom_mark letter hbracket]
      simp [lowercaseFrom]
    · rw [List.takeWhile_cons_of_pos (by simpa using hc), lowercaseFrom, lowercaseFrom,
        meetsLetter_takeWhile, ← ih, List.takeWhile_append_of_pos]
      intro d hd
      rw [bne_iff_ne]
      rintro rfl
      split_ifs at hd
      · simp at hd
      · simp at hd
      · exact hc (eq_of_mark_mem_lowercaseChar hbracket hd)

end Text

/-! ### Keys -/

open Text (lowercase IsMark)

theorem toList_lowercase (s : String) : (lowercase s).toList = Text.lowercaseFrom false s.toList :=
  String.toList_ofList

theorem mark_mem_lowercase {m : Char} (hm : IsMark m) (s : String) :
    m ∈ (lowercase s).toList ↔ m ∈ s.toList := by
  rw [toList_lowercase, Text.mark_mem_lowercaseFrom hm]

/-- The lowercase form of a key is a key. -/
theorem isKey_lowercase {s : String} (h : IsKey s.toList) : IsKey (lowercase s).toList := by
  obtain ⟨hopen, hdot, harrays⟩ := h
  refine ⟨?_, ?_, fun hi => harrays ?_⟩
  · rwa [mark_mem_lowercase (.inr (.inl rfl))]
  · rwa [mark_mem_lowercase (.inl rfl)]
  · rw [toList_lowercase] at hi
    exact Text.marks_infix_of_lowercaseFrom (by simp [IsMark]) hi

namespace Shape

/-- Without dots the name of a family is the whole lowercase form. -/
theorem baseOf_eq {name : String} (h : '.' ∉ name.toList) : baseOf name = lowercase name := by
  have hall : (lowercase name).toList.filter (· != '.') = (lowercase name).toList := by
    rw [List.filter_eq_self]
    intro c hc
    rw [bne_iff_ne]
    rintro rfl
    exact h ((mark_mem_lowercase (.inl rfl) name).mp hc)
  rw [baseOf, hall, String.ofList_toList]

end Shape

/-- The name of a family that is founded under a key. -/
def foundedName (key : String) : String :=
  if '[' ∈ key.toList then "a" ++ String.ofList (key.toList.takeWhile (· != '[')) else key

/-- A family is named after the key that it is founded under. -/
theorem TypeKey.familyName?_eq {key : TypeKey} {name : String}
    (h : key.shape.familyName? = some name) : name = foundedName (lowercase key.text) := by
  have hdot : '.' ∉ key.text.toList := key.isKey.2.1
  have hbracket := mark_mem_lowercase (m := '[') (.inr (.inr (.inl rfl))) key.text
  unfold foundedName
  simp only [TypeKey.shape, Shape.ofText] at h
  split_ifs at h with harray hupper
  · obtain rfl := Option.some_inj.mp h
    rw [if_pos (hbracket.mpr harray), Shape.baseOf_eq, toList_lowercase,
      Text.takeWhile_lowercaseFrom, lowercase, String.toList_ofList]
    rw [String.toList_ofList]
    exact fun hm => hdot (List.takeWhile_subset _ hm)
  · obtain rfl := Option.some_inj.mp h
    rw [if_neg (mt hbracket.mp harray), Shape.baseOf_eq hdot]
  · cases h

end LocalNames
