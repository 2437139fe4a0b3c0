/-! Written types are reduced to keys: type arguments, qualifiers, the varargs ending and nested
array markers are dropped. A text is a key exactly when none of them is left in it, and then
reducing it changes nothing. -/

namespace LocalNames

/-! ### Array markers -/

/-- One marker for every two that follow each other, from left to right. What has been put in is
not looked at again. -/
def replaceNested : List Char → List Char
  | '[' :: ']' :: '[' :: ']' :: rest => '[' :: ']' :: replaceNested rest
  | c :: rest => c :: replaceNested rest
  | [] => []

/-- Whether some markers follow each other. -/
def hasNested : List Char → Bool
  | '[' :: ']' :: '[' :: ']' :: _ => true
  | _ :: rest => hasNested rest
  | [] => false

theorem hasNested_iff {cs : List Char} : hasNested cs = true ↔ ['[', ']', '[', ']'] <:+: cs := by
  fun_induction hasNested cs with
  | case1 rest => simpa using ⟨[], rest, rfl⟩
  | case2 c rest hne ih =>
    rw [ih, List.infix_cons_iff, or_iff_right]
    rintro ⟨more, hmore⟩
    obtain ⟨rfl, rfl⟩ := List.cons.inj hmore
    exact hne more rfl rfl
  | case3 => simp

theorem mem_of_mem_replaceNested {c : Char} {cs : List Char} (h : c ∈ replaceNested cs) :
    c ∈ cs := by
  fun_induction replaceNested cs with
  | case1 rest ih => grind
  | case2 d rest _ ih => grind
  | case3 => exact h

theorem length_replaceNested_le (cs : List Char) : (replaceNested cs).length ≤ cs.length := by
  fun_induction replaceNested cs with
  | case1 rest ih => simp only [List.length_cons]; omega
  | case2 c rest _ ih => simp only [List.length_cons]; omega
  | case3 => exact Nat.le_refl _

/-- Where markers follow each other, replacing them shortens the text. -/
theorem length_replaceNested_lt {cs : List Char} (h : ['[', ']', '[', ']'] <:+: cs) :
    (replaceNested cs).length < cs.length := by
  fun_induction replaceNested cs with
  | case1 rest _ =>
    have := length_replaceNested_le rest
    simp only [List.length_cons]
    omega
  | case2 c rest hne ih =>
    rcases List.infix_cons_iff.mp h with ⟨more, hmore⟩ | h
    · obtain ⟨rfl, rfl⟩ := List.cons.inj hmore
      exact absurd rfl (hne more rfl)
    · simpa using ih h
  | case3 => simp at h

/-- Rounds of replacement, until no markers follow each other or `rounds` have been made. -/
def collapseFor (rounds : Nat) (cs : List Char) : List Char :=
  match rounds with
  | 0 => cs
  | rounds + 1 => if hasNested cs then collapseFor rounds (replaceNested cs) else cs

/-- Replaces markers that follow each other until there are none. A round that replaces some
shortens the text, so there are no more rounds than characters. -/
def collapseArrays (cs : List Char) : List Char := collapseFor cs.length cs

/-- More rounds than there are characters change nothing. -/
theorem collapseFor_of_length_le {rounds : Nat} {cs : List Char} (h : cs.length ≤ rounds) :
    collapseFor rounds cs = collapseArrays cs := by
  suffices hsame : ∀ (rounds more : Nat) (cs : List Char), cs.length ≤ rounds →
      cs.length ≤ more → collapseFor rounds cs = collapseFor more cs from
    hsame _ _ cs h (Nat.le_refl _)
  intro rounds
  induction rounds with
  | zero =>
    intro more cs hrounds _
    obtain rfl := List.eq_nil_of_length_eq_zero (Nat.le_zero.mp hrounds)
    cases more <;> rfl
  | succ rounds ih =>
    intro more cs hrounds hmore
    cases more with
    | zero =>
      obtain rfl := List.eq_nil_of_length_eq_zero (Nat.le_zero.mp hmore)
      rfl
    | succ more =>
      rw [collapseFor, collapseFor]
      split
      · next hnested =>
        have := length_replaceNested_lt (hasNested_iff.mp hnested)
        exact ih more _ (by omega) (by omega)
      · rfl

/-- The bound on the rounds is never what ends them. -/
theorem collapseArrays_of_nested {cs : List Char} (h : ['[', ']', '[', ']'] <:+: cs) :
    collapseArrays cs = collapseArrays (replaceNested cs) := by
  have hlt := length_replaceNested_lt h
  obtain ⟨rounds, hrounds⟩ : ∃ rounds, cs.length = rounds + 1 :=
    Nat.exists_eq_add_one.mpr (by omega)
  rw [collapseArrays, hrounds, collapseFor, if_pos (hasNested_iff.mpr h), collapseFor_of_length_le (by omega)]

theorem collapseArrays_eq_self {cs : List Char} (h : ¬['[', ']', '[', ']'] <:+: cs) :
    collapseArrays cs = cs := by
  rw [collapseArrays]
  cases cs.length with
  | zero => rfl
  | succ rounds => rw [collapseFor, if_neg (mt hasNested_iff.mp h)]

/-- What a round keeps, and what holds when no markers follow each other, is what all rounds lead
to. -/
theorem collapseArrays_induction {P : List Char → Prop}
    (hround : ∀ cs, ['[', ']', '[', ']'] <:+: cs → P (replaceNested cs) → P cs)
    (hend : ∀ cs, ¬['[', ']', '[', ']'] <:+: cs → P cs) (cs : List Char) : P cs := by
  induction hn : cs.length using Nat.strongRecOn generalizing cs with
  | ind n ih =>
    by_cases h : ['[', ']', '[', ']'] <:+: cs
    · exact hround cs h (ih _ (hn ▸ length_replaceNested_lt h) _ rfl)
    · exact hend cs h

theorem mem_of_mem_collapseArrays {c : Char} {cs : List Char} (h : c ∈ collapseArrays cs) :
    c ∈ cs := by
  induction cs using collapseArrays_induction with
  | hround cs hnested ih =>
    rw [collapseArrays_of_nested hnested] at h
    exact mem_of_mem_replaceNested (ih h)
  | hend cs hnested => rwa [collapseArrays_eq_self hnested] at h

theorem not_infix_collapseArrays (cs : List Char) :
    ¬['[', ']', '[', ']'] <:+: collapseArrays cs := by
  induction cs using collapseArrays_induction with
  | hround cs hnested ih => rwa [collapseArrays_of_nested hnested]
  | hend cs hnested => rwa [collapseArrays_eq_self hnested]

/-! ### Reduction -/

theorem takeWhile_eq_self {p : Char → Bool} {cs : List Char} (h : ∀ c ∈ cs, p c = true) :
    cs.takeWhile p = cs := by
  induction cs with
  | nil => rfl
  | cons c cs ih => simp_all

/-- The last part of a qualified name. -/
def unqualified (cs : List Char) : List Char :=
  (cs.reverse.takeWhile (· != '.')).reverse

theorem mem_of_mem_unqualified {c : Char} {cs : List Char} (h : c ∈ unqualified cs) :
    c ∈ cs ∧ c ≠ '.' := by
  simp only [unqualified, List.mem_reverse] at h
  exact ⟨List.mem_reverse.mp (List.takeWhile_subset _ h),
    by simpa using List.all_eq_true.mp List.all_takeWhile c h⟩

theorem unqualified_eq_self {cs : List Char} (h : '.' ∉ cs) : unqualified cs = cs := by
  rw [unqualified, takeWhile_eq_self (by grind), List.reverse_reverse]

/-- A type without arguments; `...` at its end stands for an array marker. -/
def reduceType (cs : List Char) : List Char :=
  if ['.', '.', '.'] <:+ cs then
    collapseArrays (unqualified (cs.take (cs.length - 3)) ++ ['[', ']'])
  else collapseArrays (unqualified cs)

/-- All of the text before type arguments open. -/
def withoutArguments (raw : List Char) : List Char :=
  raw.takeWhile (· != '<')

/-- No type argument opens, nothing is qualified, and no two array markers follow each other. -/
def IsKey (cs : List Char) : Prop :=
  '<' ∉ cs ∧ '.' ∉ cs ∧ ¬['[', ']', '[', ']'] <:+: cs

instance (cs : List Char) : Decidable (IsKey cs) :=
  inferInstanceAs (Decidable (_ ∧ _ ∧ _))

theorem isKey_collapseArrays {cs : List Char} (ho : '<' ∉ cs) (hd : '.' ∉ cs) :
    IsKey (collapseArrays cs) :=
  ⟨fun h => ho (mem_of_mem_collapseArrays h), fun h => hd (mem_of_mem_collapseArrays h),
    not_infix_collapseArrays cs⟩

theorem isKey_reduceType {cs : List Char} (h : '<' ∉ cs) : IsKey (reduceType cs) := by
  unfold reduceType
  split
  · apply isKey_collapseArrays <;> simp only [List.mem_append, not_or]
    · exact ⟨fun hm => h (List.take_subset _ _ (mem_of_mem_unqualified hm).1), by decide⟩
    · exact ⟨fun hm => (mem_of_mem_unqualified hm).2 rfl, by decide⟩
  · exact isKey_collapseArrays (fun hm => h (mem_of_mem_unqualified hm).1)
      fun hm => (mem_of_mem_unqualified hm).2 rfl

theorem not_mem_withoutArguments (raw : List Char) : '<' ∉ withoutArguments raw :=
  fun h => absurd (List.all_eq_true.mp List.all_takeWhile _ h) (by decide)

theorem withoutArguments_eq_self {raw : List Char} (h : '<' ∉ raw) : withoutArguments raw = raw :=
  takeWhile_eq_self (by grind)

theorem reduceType_eq_self {cs : List Char} (h : IsKey cs) : reduceType cs = cs := by
  rw [reduceType, if_neg, unqualified_eq_self h.2.1, collapseArrays_eq_self h.2.2]
  exact fun hs => h.2.1 (hs.subset (by decide))

/-! ### Keys -/

/-- What families are looked up by. -/
structure TypeKey where
  text : String
  isKey : IsKey text.toList
  deriving DecidableEq

namespace TypeKey

@[ext]
theorem ext {a b : TypeKey} (h : a.text = b.text) : a = b := by
  cases a; cases b; cases h; rfl

/-- The key of a type as it is written in a program. -/
def ofType (raw : String) : TypeKey where
  text := String.ofList (reduceType (withoutArguments raw.toList))
  isKey := by
    rw [String.toList_ofList]
    exact isKey_reduceType (not_mem_withoutArguments _)

@[simp]
theorem ofType_text (key : TypeKey) : ofType key.text = key := by
  apply ext
  simp only [ofType, withoutArguments_eq_self key.isKey.1, reduceType_eq_self key.isKey]
  exact String.ofList_toList

/-- The type that a method's receiver carries in place of its own. -/
def isReceiver (key : TypeKey) : Bool :=
  key.text == "this"

end TypeKey

end LocalNames
