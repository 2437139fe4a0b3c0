import LocalNames.TypeKey
import Mathlib.Data.List.Basic
import Mathlib.Logic.Function.Iterate
import Mathlib.Tactic.SplitIfs

/-! What is left of a written type. Of each run of array markers one is left; a round of
replacement halves the runs, so a few rounds lead there. -/

namespace LocalNames

/-! ### Runs of markers -/

/-- Some array markers in a row. -/
def markers (n : Nat) : List Char := (List.replicate n ['[', ']']).flatten

theorem markers_succ (n : Nat) : markers (n + 1) = '[' :: ']' :: markers n := rfl

/-- A text cut at its array markers: texts without a marker with the number of markers behind each,
and the text behind the last marker. -/
structure MarkerRuns where
  runs : List (List Char × Nat)
  last : List Char

namespace MarkerRuns

def text (m : MarkerRuns) : List Char :=
  m.runs.flatMap (fun (before, n) => before ++ markers n) ++ m.last

/-- The text with one marker for each run. -/
def collapsed (m : MarkerRuns) : List Char :=
  m.runs.flatMap (fun (before, _) => before ++ markers 1) ++ m.last

/-- All markers of the text are in runs, and something stands between two runs. -/
structure Maximal (m : MarkerRuns) : Prop where
  pos : ∀ run ∈ m.runs, 0 < run.2
  before : ∀ run ∈ m.runs, ¬['[', ']'] <:+: run.1
  apart : ∀ run ∈ m.runs.tail, run.1 ≠ []
  last : ¬['[', ']'] <:+: m.last

/-! ### One round -/

/-- The runs that a round of replacement leaves. -/
def halve (m : MarkerRuns) : MarkerRuns where
  runs := m.runs.map fun (before, n) => (before, (n + 1) / 2)
  last := m.last

end MarkerRuns

theorem replaceNested_cons {c : Char} {cs : List Char} (h : ¬['[', ']', '[', ']'] <+: c :: cs) :
    replaceNested (c :: cs) = c :: replaceNested cs := by
  rw [replaceNested]
  rintro rest rfl rfl
  exact h ⟨rest, rfl⟩

/-- No marker begins in a text without one and goes on behind it. -/
theorem not_marker_prefix {before rest : List Char} (hne : before ≠ [])
    (h : ¬['[', ']'] <:+: before) (hrest : rest.head? ≠ some ']') :
    ¬['[', ']'] <+: before ++ rest := by
  match before with
  | [] => exact absurd rfl hne
  | [c] =>
    rw [List.singleton_append, List.cons_prefix_cons]
    rintro ⟨_, more, rfl⟩
    exact hrest rfl
  | c :: d :: before =>
    simp only [List.cons_append, List.cons_prefix_cons]
    rintro ⟨rfl, rfl, _⟩
    exact h ⟨[], before, rfl⟩

/-- A text without a marker stays. -/
theorem replaceNested_append {before rest : List Char} (h : ¬['[', ']'] <:+: before)
    (hrest : rest.head? ≠ some ']') :
    replaceNested (before ++ rest) = before ++ replaceNested rest := by
  induction before with
  | nil => rfl
  | cons c before ih =>
    have hmarker : ¬['[', ']', '[', ']'] <+: c :: (before ++ rest) := fun hp =>
      not_marker_prefix (List.cons_ne_nil c before) h hrest
        ((List.prefix_append ['[', ']'] ['[', ']']).trans hp)
    rw [List.cons_append, replaceNested_cons hmarker, List.cons_append,
      ih fun hi => h (List.infix_cons_iff.mpr (.inr hi))]

/-- Of a whole run every second marker stays. -/
theorem replaceNested_markers (n : Nat) {rest : List Char} (h : ¬['[', ']'] <+: rest) :
    replaceNested (markers n ++ rest) = markers ((n + 1) / 2) ++ replaceNested rest := by
  match n with
  | 0 => rfl
  | 1 =>
    have hfirst : ¬['[', ']', '[', ']'] <+: '[' :: ']' :: rest := by
      simpa [List.cons_prefix_cons] using h
    have hsecond : ¬['[', ']', '[', ']'] <+: ']' :: rest := by
      simp [List.cons_prefix_cons]
    show replaceNested ('[' :: ']' :: rest) = '[' :: ']' :: replaceNested rest
    rw [replaceNested_cons hfirst, replaceNested_cons hsecond]
  | n + 2 =>
    have hhalf : (n + 2 + 1) / 2 = (n + 1) / 2 + 1 := by omega
    rw [hhalf, markers_succ, markers_succ, markers_succ]
    simp only [List.cons_append, replaceNested, replaceNested_markers n h]

/-- The rounds come to an end: as long as markers follow each other there is one more, and after
finitely many there is none. -/
theorem exists_rounds (cs : List Char) : ∃ n, replaceNested^[n] cs = collapseArrays cs ∧
    ∀ k < n, ['[', ']', '[', ']'] <:+: replaceNested^[k] cs := by
  induction cs using collapseArrays_induction with
  | hround cs hnested ih =>
    obtain ⟨n, hend, hbefore⟩ := ih
    refine ⟨n + 1, by rw [Function.iterate_succ_apply, hend, collapseArrays_of_nested hnested], ?_⟩
    intro k hk
    cases k with
    | zero => exact hnested
    | succ k => exact hbefore k (Nat.lt_of_succ_lt_succ hk)
  | hend cs hsingle => exact ⟨0, (collapseArrays_eq_self hsingle).symm, by simp⟩

namespace MarkerRuns

variable {m : MarkerRuns}

theorem text_cons (before : List Char) (n : Nat) (runs : List (List Char × Nat))
    (last : List Char) :
    text ⟨(before, n) :: runs, last⟩ = before ++ (markers n ++ text ⟨runs, last⟩) := by
  simp only [text, List.flatMap_cons, List.append_assoc]

theorem collapsed_halve (m : MarkerRuns) : m.halve.collapsed = m.collapsed := by
  simp only [collapsed, halve, List.flatMap_map]

theorem Maximal.halve (h : m.Maximal) : m.halve.Maximal where
  pos run hrun := by
    obtain ⟨⟨before, n⟩, hmem, rfl⟩ := List.mem_map.mp hrun
    have hpos : 0 < n := h.pos _ hmem
    show 0 < (n + 1) / 2
    omega
  before run hrun := by
    obtain ⟨whole, hmem, rfl⟩ := List.mem_map.mp hrun
    exact h.before whole hmem
  apart run hrun := by
    rw [MarkerRuns.halve, ← List.map_tail] at hrun
    obtain ⟨whole, hmem, rfl⟩ := List.mem_map.mp hrun
    exact h.apart whole hmem
  last := h.last

/-- The text behind the first run is cut at its runs, too. -/
theorem Maximal.tail {run : List Char × Nat} {runs : List (List Char × Nat)} {last : List Char}
    (h : Maximal ⟨run :: runs, last⟩) : Maximal ⟨runs, last⟩ where
  pos _ hrun := h.pos _ (List.mem_cons_of_mem _ hrun)
  before _ hrun := h.before _ (List.mem_cons_of_mem _ hrun)
  apart _ hrun := h.apart _ (List.mem_of_mem_tail hrun)
  last := h.last

/-- No marker stands where a run is over. -/
theorem Maximal.not_marker_prefix {run : List Char × Nat} {runs : List (List Char × Nat)}
    {last : List Char} (h : Maximal ⟨run :: runs, last⟩) :
    ¬['[', ']'] <+: text ⟨runs, last⟩ := by
  match runs with
  | [] => exact fun hp => h.last hp.isInfix
  | (before, n) :: runs =>
    have hmem : (before, n) ∈ (before, n) :: runs := List.mem_cons_self
    obtain ⟨n, rfl⟩ := Nat.exists_eq_add_one.mpr (h.tail.pos _ hmem)
    rw [text_cons]
    refine LocalNames.not_marker_prefix (h.apart _ hmem) (h.tail.before _ hmem) ?_
    simp [markers_succ]

/-- A round of replacement halves every run. -/
theorem Maximal.replaceNested_text (h : m.Maximal) :
    replaceNested m.text = m.halve.text := by
  obtain ⟨runs, last⟩ := m
  induction runs with
  | nil =>
    have hlast : replaceNested (last ++ []) = last ++ replaceNested [] :=
      replaceNested_append h.last (by simp)
    rwa [List.append_nil, replaceNested, List.append_nil] at hlast
  | cons run runs ih =>
    obtain ⟨before, n⟩ := run
    have hmem : (before, n) ∈ (before, n) :: runs := List.mem_cons_self
    have hpos := h.pos _ hmem
    obtain ⟨k, rfl⟩ := Nat.exists_eq_add_one.mpr hpos
    rw [text_cons, replaceNested_append (h.before _ hmem) (by simp [markers_succ]),
      replaceNested_markers _ h.not_marker_prefix, ih h.tail]
    exact (text_cons ..).symm

/-- A run of at least two markers holds two that follow each other. -/
theorem infix_text {before : List Char} {n : Nat} (h : (before, n + 2) ∈ m.runs) :
    ['[', ']', '[', ']'] <:+: m.text := by
  obtain ⟨first, rest, hruns⟩ := List.append_of_mem h
  refine ⟨first.flatMap (fun (before, n) => before ++ markers n) ++ before,
    markers n ++ text ⟨rest, m.last⟩, ?_⟩
  simp [text, hruns, markers_succ, List.append_assoc]

/-- Where no markers follow each other, every run is a single one. -/
theorem Maximal.collapsed_eq_text (h : m.Maximal) (hsingle : ¬['[', ']', '[', ']'] <:+: m.text) :
    m.collapsed = m.text := by
  have hone : ∀ run ∈ m.runs, run.2 = 1 := by
    rintro ⟨before, n⟩ hrun
    match n, h.pos _ hrun, hrun with
    | 1, _, _ => rfl
    | n + 2, _, hrun => exact absurd (infix_text hrun) hsingle
  simp only [collapsed, text, List.append_cancel_right_eq]
  exact List.flatMap_congr fun run hrun => by rw [hone run hrun]

/-! ### All rounds -/

/-- All rounds together leave one marker of each run. -/
theorem Maximal.collapseArrays_text (h : m.Maximal) : collapseArrays m.text = m.collapsed := by
  generalize hcs : m.text = cs
  induction cs using collapseArrays_induction generalizing m with
  | hround cs hnested ih =>
    subst hcs
    rw [collapseArrays_of_nested hnested, ih h.halve h.replaceNested_text.symm, collapsed_halve]
  | hend cs hsingle =>
    subst hcs
    rw [collapseArrays_eq_self hsingle, h.collapsed_eq_text hsingle]

/-! ### Cutting a text -/

/-- The text cut at its markers. -/
def ofText : List Char → MarkerRuns
  | '[' :: ']' :: rest =>
    match ofText rest with
    | ⟨([], n) :: runs, last⟩ => ⟨([], n + 1) :: runs, last⟩
    | ⟨runs, last⟩ => ⟨([], 1) :: runs, last⟩
  | c :: rest =>
    match ofText rest with
    | ⟨(before, n) :: runs, last⟩ => ⟨(c :: before, n) :: runs, last⟩
    | ⟨[], last⟩ => ⟨[], c :: last⟩
  | [] => ⟨[], []⟩

theorem text_ofText (cs : List Char) : (ofText cs).text = cs := by
  fun_induction ofText cs with
  | case1 rest n runs last heq ih =>
    rw [heq] at ih
    rw [← ih]
    rfl
  | case2 rest runs last hne heq ih =>
    rw [heq] at ih
    rw [← ih]
    rfl
  | case3 c rest hne before n runs last heq ih =>
    rw [heq] at ih
    rw [← ih]
    rfl
  | case4 c rest hne last heq ih =>
    rw [heq] at ih
    rw [← ih]
    rfl
  | case5 => rfl

/-- One more run in front, when something stands before each of the others. -/
theorem Maximal.cons {run : List Char × Nat} {runs : List (List Char × Nat)} {last : List Char}
    (h : Maximal ⟨runs, last⟩) (hpos : 0 < run.2) (hbefore : ¬['[', ']'] <:+: run.1)
    (hapart : ∀ run ∈ runs, run.1 ≠ []) : Maximal ⟨run :: runs, last⟩ where
  pos := List.forall_mem_cons.mpr ⟨hpos, h.pos⟩
  before := List.forall_mem_cons.mpr ⟨hbefore, h.before⟩
  apart := hapart
  last := h.last

theorem maximal_ofText (cs : List Char) : (ofText cs).Maximal := by
  -- a character that begins no marker begins none in front of a part of the text, either
  have hcons : ∀ {c : Char} {before rest : List Char}, ¬['[', ']'] <:+: before →
      (∀ more, c = '[' → before ++ rest = ']' :: more → False) → ¬['[', ']'] <:+: c :: before := by
    intro c before rest hbefore hne hi
    rcases List.infix_cons_iff.mp hi with ⟨more, hmore⟩ | hi
    · obtain ⟨rfl, rfl⟩ := List.cons.inj hmore
      exact hne _ rfl rfl
    · exact hbefore hi
  fun_induction ofText cs with
  | case1 rest n runs last heq ih =>
    rw [heq] at ih
    exact ih.tail.cons n.succ_pos (by simp) ih.apart
  | case2 rest runs last hne heq ih =>
    rw [heq] at ih
    refine ih.cons Nat.one_pos (by simp) fun run hrun => ?_
    match runs, hne, ih with
    | (before, n) :: runs, hne, ih =>
      rcases List.mem_cons.mp hrun with rfl | hrun
      · rintro rfl
        exact hne n runs rfl
      · exact ih.apart run hrun
  | case3 c rest hne before n runs last heq ih =>
    have htext := text_ofText rest
    rw [heq] at ih htext
    rw [← htext, text_cons] at hne
    have hmem : (before, n) ∈ (before, n) :: runs := List.mem_cons_self
    exact ih.tail.cons (ih.pos (before, n) hmem) (hcons (ih.before _ hmem) hne) ih.apart
  | case4 c rest hne last heq ih =>
    have htext : last ++ [] = rest := by
      rw [← text_ofText rest, heq, List.append_nil]
      rfl
    rw [heq] at ih
    rw [← htext] at hne
    exact ⟨by simp, by simp, by simp, hcons ih.last hne⟩
  | case5 => exact ⟨by simp, by simp, by simp, by simp⟩

end MarkerRuns

/-! ### Parts of a written type -/

/-- A type as it is written: a qualified name, `...` or not, and what follows from the first type
argument on. -/
structure WrittenType where
  qualifier : List Char
  name : List Char
  varargs : Bool
  arguments : List Char

namespace WrittenType

def text (w : WrittenType) : List Char :=
  w.qualifier ++ w.name ++ (if w.varargs then ['.', '.', '.'] else []) ++ w.arguments

/-- The arguments begin where the first one opens, the qualifier ends with the last dot, and three
dots at the end are never a part of the name. -/
structure Proper (w : WrittenType) : Prop where
  arguments : w.arguments = [] ∨ w.arguments.head? = some '<'
  front : '<' ∉ w.qualifier ++ w.name
  qualifier : w.qualifier = [] ∨ w.qualifier.getLast? = some '.'
  name : '.' ∉ w.name
  varargs : w.varargs = false → ¬['.', '.', '.'] <:+ w.qualifier ++ w.name

/-- The name, with a marker for `...`. -/
def element (w : WrittenType) : List Char :=
  w.name ++ if w.varargs then markers 1 else []

end WrittenType

theorem withoutArguments_append {front arguments : List Char} (hfront : '<' ∉ front)
    (h : arguments = [] ∨ arguments.head? = some '<') :
    withoutArguments (front ++ arguments) = front := by
  rw [withoutArguments, List.takeWhile_append_of_pos (by grind)]
  rcases h with rfl | h
  · simp
  · obtain ⟨rest, rfl⟩ := List.head?_eq_some_iff.mp h
    simp

theorem unqualified_append {qualifier name : List Char} (hname : '.' ∉ name)
    (h : qualifier = [] ∨ qualifier.getLast? = some '.') :
    unqualified (qualifier ++ name) = name := by
  rw [unqualified, List.reverse_append, List.takeWhile_append_of_pos (by grind)]
  rcases h with rfl | h
  · simp
  · obtain ⟨rest, rfl⟩ := List.getLast?_eq_some_iff.mp h
    simp

/-- The last dot of a text cuts it in two. -/
theorem exists_qualifier (cs : List Char) : ∃ qualifier name, qualifier ++ name = cs ∧
    '.' ∉ name ∧ (qualifier = [] ∨ qualifier.getLast? = some '.') := by
  by_cases hdot : '.' ∈ cs
  · obtain ⟨after, before, hcs, hafter⟩ :=
      List.eq_append_cons_of_mem (List.mem_reverse.mpr hdot)
    refine ⟨before.reverse ++ ['.'], after.reverse, ?_, by simpa using hafter, .inr (by simp)⟩
    rw [← List.reverse_reverse cs, hcs]
    simp
  · exact ⟨[], cs, rfl, hdot, .inl rfl⟩

namespace WrittenType

theorem exists_proper (cs : List Char) : ∃ w : WrittenType, w.Proper ∧ w.text = cs := by
  have harguments := List.head?_dropWhile_not (· != '<') cs
  have hsplit : withoutArguments cs ++ cs.dropWhile (· != '<') = cs :=
    List.takeWhile_append_dropWhile
  have hopens : cs.dropWhile (· != '<') = [] ∨ (cs.dropWhile (· != '<')).head? = some '<' := by
    cases h : (cs.dropWhile (· != '<')).head? with
    | none => exact .inl (List.head?_eq_none_iff.mp h)
    | some c =>
      rw [h] at harguments
      exact .inr (by simpa using harguments)
  have hno := not_mem_withoutArguments cs
  by_cases hdots : ['.', '.', '.'] <:+ withoutArguments cs
  · obtain ⟨stem, hstem⟩ := hdots
    obtain ⟨qualifier, name, rfl, hname, hqualifier⟩ := exists_qualifier stem
    rw [← hstem] at hno hsplit
    exact ⟨⟨qualifier, name, true, cs.dropWhile (· != '<')⟩,
      ⟨hopens, fun h => hno (List.mem_append_left _ h), hqualifier, hname, by simp⟩, hsplit⟩
  · obtain ⟨qualifier, name, hstem, hname, hqualifier⟩ := exists_qualifier (withoutArguments cs)
    rw [← hstem] at hno hsplit hdots
    refine ⟨⟨qualifier, name, false, cs.dropWhile (· != '<')⟩,
      ⟨hopens, hno, hqualifier, hname, fun _ => hdots⟩, ?_⟩
    rw [text, if_neg Bool.false_ne_true, List.append_nil]
    exact hsplit

/-- A written type is reduced to its name, with one marker for each run. -/
theorem Proper.reduceType_text {w : WrittenType} (h : w.Proper) :
    reduceType (withoutArguments w.text) = collapseArrays w.element := by
  obtain ⟨qualifier, name, varargs, arguments⟩ := w
  have hunqualified := unqualified_append h.name h.qualifier
  cases varargs with
  | true =>
    have hfront : '<' ∉ qualifier ++ name ++ ['.', '.', '.'] := by
      simpa using h.front
    have hlength : (qualifier ++ name ++ ['.', '.', '.']).take
        ((qualifier ++ name ++ ['.', '.', '.']).length - 3) = qualifier ++ name :=
      List.take_left' (by simp only [List.length_append, List.length_cons, List.length_nil]; omega)
    show reduceType (withoutArguments (qualifier ++ name ++ ['.', '.', '.'] ++ arguments)) = _
    rw [withoutArguments_append hfront h.arguments, reduceType,
      if_pos (List.suffix_append _ _), hlength, hunqualified]
    rfl
  | false =>
    have htext : (⟨qualifier, name, false, arguments⟩ : WrittenType).text =
        qualifier ++ name ++ arguments := by
      simp [text]
    rw [htext, withoutArguments_append h.front h.arguments, reduceType, if_neg (h.varargs rfl),
      hunqualified]
    simp [element]

end WrittenType

/-! ### Keys as normal forms -/

namespace TypeKey

theorem toList_text_ofType (raw : String) :
    (ofType raw).text.toList = reduceType (withoutArguments raw.toList) :=
  String.toList_ofList

/-- A text is its own key exactly when nothing is left in it to be reduced. -/
theorem text_ofType_eq_self_iff (s : String) : (ofType s).text = s ↔ IsKey s.toList := by
  constructor
  · intro h
    have hkey := (ofType s).isKey
    rwa [h] at hkey
  · intro h
    exact congrArg text (ofType_text ⟨s, h⟩)

/-- The key of a written type is its name without a qualifier and without arguments, where a
marker stands for `...` and one marker for each run of markers; finitely many rounds of replacement
lead there, each of which is made because markers still follow each other. Nothing is left in a key
that would be reduced, and a text in which there is nothing of the kind is its own key. -/
theorem ofType_normal_form (raw : String) :
    (∃ w m, WrittenType.Proper w ∧ w.text = raw.toList ∧ MarkerRuns.Maximal m ∧
      m.text = w.element ∧ (ofType raw).text.toList = m.collapsed ∧
      ∃ n, replaceNested^[n] w.element = m.collapsed ∧
        ∀ k < n, ['[', ']', '[', ']'] <:+: replaceNested^[k] w.element) ∧
    IsKey (ofType raw).text.toList ∧ (∀ s, (ofType s).text = s ↔ IsKey s.toList) ∧
    ofType (ofType raw).text = ofType raw := by
  obtain ⟨w, hw, htext⟩ := WrittenType.exists_proper raw.toList
  have hruns := (MarkerRuns.maximal_ofText w.element).collapseArrays_text
  rw [MarkerRuns.text_ofText] at hruns
  refine ⟨⟨w, .ofText w.element, hw, htext, MarkerRuns.maximal_ofText _, MarkerRuns.text_ofText _,
    ?_, ?_⟩, (ofType raw).isKey, text_ofType_eq_self_iff, ofType_text _⟩
  · rw [toList_text_ofType, ← htext, hw.reduceType_text, hruns]
  · rw [← hruns]
    exact exists_rounds w.element

/-- Brackets that stray beside a run are no part of it. -/
example : (ofType "p.Foo[[][][]][]...").text = "Foo[[]][]" := by
  decide +kernel

end TypeKey

end LocalNames
