import LocalNames.Listing.Token
import LocalNames.Text.Blank
import Mathlib.Data.List.TakeWhile
import Mathlib.Tactic.SplitIfs

/-! The words of a text and where they stand: they are the runs of characters between blanks, each
a slice of the text. -/

namespace LocalNames

namespace Text

/-! ### Sizes and slices -/

/-- The size of a text in bytes. -/
def size : List Char → Nat
  | [] => 0
  | c :: cs => c.utf8Size + size cs

@[simp]
theorem size_nil : size [] = 0 := rfl

@[simp]
theorem size_cons (c : Char) (cs : List Char) : size (c :: cs) = c.utf8Size + size cs := rfl

@[simp]
theorem size_append (cs ds : List Char) : size (cs ++ ds) = size cs + size ds := by
  induction cs with
  | nil => rw [List.nil_append, size_nil, Nat.zero_add]
  | cons c cs ih => rw [List.cons_append, size_cons, size_cons, ih, Nat.add_assoc]

@[simp]
theorem utf8Size_lineFeed : '\n'.utf8Size = 1 := rfl

theorem size_pos {cs : List Char} (h : cs ≠ []) : 0 < size cs := by
  obtain ⟨c, cs, rfl⟩ := List.exists_cons_of_ne_nil h
  exact Nat.add_pos_left c.utf8Size_pos _

theorem size_toList (s : String) : size s.toList = s.utf8ByteSize := by
  obtain ⟨cs, rfl⟩ : ∃ cs, s = String.ofList cs := ⟨s.toList, String.ofList_toList.symm⟩
  rw [String.toList_ofList]
  induction cs with
  | nil => rfl
  | cons c cs ih =>
    rw [String.ofList_cons, String.utf8ByteSize_append, size_cons, ih,
      String.utf8ByteSize_singleton]

end Text

namespace Span

open Text

theorem sliceFrom_append {s : Span} {place : Nat} {pre : List Char} (cs : List Char)
    (hpre : place + size pre ≤ s.start) (hs : s.start ≤ s.stop) :
    s.sliceFrom place (pre ++ cs) = s.sliceFrom (place + size pre) cs := by
  induction pre generalizing place with
  | nil => rfl
  | cons c pre ih =>
    have hc := c.utf8Size_pos
    rw [size_cons] at hpre
    rw [List.cons_append, sliceFrom, if_neg (by omega), if_pos (by omega), ih (by omega), size_cons,
      Nat.add_assoc]

theorem sliceFrom_of_start_le {s : Span} {place : Nat} {cs : List Char} (rest : List Char)
    (hs : s.start ≤ place) (hstop : s.stop = place + size cs) :
    s.sliceFrom place (cs ++ rest) = cs := by
  induction cs generalizing place with
  | nil =>
    cases rest with
    | nil => rfl
    | cons c rest =>
      have hc := c.utf8Size_pos
      rw [size_nil] at hstop
      rw [List.nil_append, sliceFrom, if_pos (by omega)]
  | cons c cs ih =>
    rw [size_cons] at hstop
    rw [List.cons_append, sliceFrom, if_neg (by omega), if_neg (by omega), ih (by omega) (by omega)]

/-- A span that is measured on the text itself cuts out what it was measured on. -/
theorem slice_append (pre cs post : List Char) :
    (⟨size pre, size pre + size cs⟩ : Span).slice (pre ++ cs ++ post) = String.ofList cs := by
  rw [slice, List.append_assoc, sliceFrom_append _ (by simp) (by simp), Nat.zero_add,
    sliceFrom_of_start_le post (Nat.le_refl _) rfl]

end Span

/-! ### Words -/

namespace Text

/-- Whether a word opens a comment. -/
def opensComment (word : List Char) : Bool := ['/', '/'].isPrefixOf word

/-- The words of a text that begins at `place`, each from blank to blank. -/
def wordsFrom (place : Nat) : List Char → List Word
  | [] => []
  | c :: cs =>
    if isBlank c then wordsFrom (place + c.utf8Size) cs
    else
      let word := c :: cs.takeWhile (!isBlank ·)
      ⟨String.ofList word, ⟨place, place + size word⟩⟩ ::
        wordsFrom (place + size word) (cs.dropWhile (!isBlank ·))
termination_by cs => cs.length
decreasing_by
  · exact Nat.lt_succ_self _
  · exact Nat.lt_succ_of_le (List.dropWhile_sublist _).length_le

/-- The characters of a word. -/
structure IsRun (cs : List Char) : Prop where
  ne_nil : cs ≠ []
  not_blank : ∀ c ∈ cs, isBlank c = false

/-- A text that no word goes on into. -/
def StartsBlank (cs : List Char) : Prop := ∀ c ∈ cs.head?, isBlank c = true

theorem isRun_cons {c : Char} (cs : List Char) (h : isBlank c = false) :
    IsRun (c :: cs.takeWhile (!isBlank ·)) where
  ne_nil := List.cons_ne_nil _ _
  not_blank := by
    rintro d (_ | ⟨_, hd⟩)
    · exact h
    · simpa using List.mem_takeWhile_imp hd

theorem startsBlank_dropWhile (cs : List Char) : StartsBlank (cs.dropWhile (!isBlank ·)) := by
  intro c hc
  have h := List.head?_dropWhile_not (!isBlank ·) cs
  rw [hc] at h
  simpa using h

/-- Texts are made of blanks and words. -/
@[elab_as_elim]
theorem byWords {motive : List Char → Prop} (nil : motive [])
    (blank : ∀ c cs, isBlank c = true → motive cs → motive (c :: cs))
    (word : ∀ w rest, IsRun w → StartsBlank rest → motive rest → motive (w ++ rest))
    (cs : List Char) : motive cs := by
  fun_induction wordsFrom 0 cs with
  | case1 => exact nil
  | case2 _ c cs hb ih => exact blank c cs hb ih
  | case3 _ c cs hb w ih =>
    have hrun := isRun_cons cs (by simpa using hb)
    have := word _ _ hrun (startsBlank_dropWhile cs) ih
    rwa [List.cons_append, List.takeWhile_append_dropWhile] at this

@[simp]
theorem wordsFrom_nil (place : Nat) : wordsFrom place [] = [] := by
  rw [wordsFrom]

theorem wordsFrom_blank (place : Nat) {c : Char} (cs : List Char) (h : isBlank c = true) :
    wordsFrom place (c :: cs) = wordsFrom (place + c.utf8Size) cs := by
  rw [wordsFrom, if_pos h]

/-- A word is taken up to the blank behind it. -/
theorem takeWhile_append_of_startsBlank {cs rest : List Char} (hcs : ∀ c ∈ cs, isBlank c = false)
    (hrest : StartsBlank rest) : (cs ++ rest).takeWhile (!isBlank ·) = cs := by
  rw [List.takeWhile_append_of_pos fun d hd => by simp [hcs d hd]]
  cases rest with
  | nil => simp
  | cons d rest => simp [hrest d rfl]

theorem dropWhile_append_of_startsBlank {cs rest : List Char} (hcs : ∀ c ∈ cs, isBlank c = false)
    (hrest : StartsBlank rest) : (cs ++ rest).dropWhile (!isBlank ·) = rest := by
  rw [List.dropWhile_append_of_pos fun d hd => by simp [hcs d hd]]
  cases rest with
  | nil => simp
  | cons d rest => simp [hrest d rfl]

theorem wordsFrom_append (place : Nat) {w rest : List Char} (hw : IsRun w)
    (hrest : StartsBlank rest) : wordsFrom place (w ++ rest) =
      ⟨String.ofList w, ⟨place, place + size w⟩⟩ :: wordsFrom (place + size w) rest := by
  obtain ⟨c, cs, rfl⟩ := List.exists_cons_of_ne_nil hw.ne_nil
  obtain ⟨hc, hcs⟩ := List.forall_mem_cons.mp hw.not_blank
  rw [List.cons_append, wordsFrom, if_neg (by simp [hc]),
    takeWhile_append_of_startsBlank hcs hrest, dropWhile_append_of_startsBlank hcs hrest]

theorem wordsFrom_of_isRun (place : Nat) {w : List Char} (hw : IsRun w) :
    wordsFrom place w = [⟨String.ofList w, ⟨place, place + size w⟩⟩] := by
  have hnil : StartsBlank [] := by rintro _ ⟨⟩
  simpa using wordsFrom_append place hw hnil

/-- The words of a text, wherever it begins. -/
def words (cs : List Char) : List String := (wordsFrom 0 cs).map (·.value)

theorem map_value_wordsFrom (place : Nat) (cs : List Char) :
    (wordsFrom place cs).map (·.value) = words cs := by
  suffices h : ∀ p q, (wordsFrom p cs).map (·.value) = (wordsFrom q cs).map (·.value) from h place 0
  induction cs using byWords with
  | nil => simp
  | blank c cs hc ih =>
    intro p q
    rw [wordsFrom_blank _ _ hc, wordsFrom_blank _ _ hc, ih]
  | word w rest hw hrest ih =>
    intro p q
    rw [wordsFrom_append _ hw hrest, wordsFrom_append _ hw hrest, List.map_cons, List.map_cons,
      ih _ (q + size w)]

@[simp]
theorem words_nil : words [] = [] := by
  simp [words]

theorem words_blank {c : Char} (cs : List Char) (h : isBlank c = true) :
    words (c :: cs) = words cs := by
  rw [words, wordsFrom_blank _ _ h, map_value_wordsFrom]

theorem words_of_isRun {w : List Char} (hw : IsRun w) : words w = [String.ofList w] := by
  rw [words, wordsFrom_of_isRun _ hw, List.map_singleton]

theorem words_append {w rest : List Char} (hw : IsRun w) (hrest : StartsBlank rest) :
    words (w ++ rest) = String.ofList w :: words rest := by
  rw [words, wordsFrom_append _ hw hrest, List.map_cons, map_value_wordsFrom]

/-- A word is the slice at its span. -/
theorem exists_of_mem_wordsFrom {place : Nat} {cs : List Char} {w : Word}
    (h : w ∈ wordsFrom place cs) : ∃ pre post, cs = pre ++ w.value.toList ++ post ∧
      IsRun w.value.toList ∧
      w.span = ⟨place + size pre, place + size pre + size w.value.toList⟩ := by
  induction cs using byWords generalizing place with
  | nil => simp at h
  | blank c cs hc ih =>
    rw [wordsFrom_blank _ _ hc] at h
    obtain ⟨pre, post, rfl, hw, hspan⟩ := ih h
    exact ⟨c :: pre, post, rfl, hw, by rw [hspan, size_cons, Nat.add_assoc]⟩
  | word x rest hx hrest ih =>
    rw [wordsFrom_append _ hx hrest] at h
    rcases List.mem_cons.mp h with rfl | h
    · exact ⟨[], rest, by simp, by simpa using hx, by simp⟩
    · obtain ⟨pre, post, rfl, hw, hspan⟩ := ih h
      exact ⟨x ++ pre, post, by simp, hw, by rw [hspan, size_append, Nat.add_assoc]⟩

/-! ### Phrases -/

/-- A text that begins and ends with words. -/
structure IsPhrase (cs : List Char) : Prop where
  head : ∃ c, cs.head? = some c ∧ isBlank c = false
  last : ∃ c, cs.getLast? = some c ∧ isBlank c = false

theorem IsPhrase.of_isRun {w : List Char} (h : IsRun w) : IsPhrase w where
  head := ⟨w.head h.ne_nil, List.head?_eq_some_head _, h.not_blank _ (List.head_mem _)⟩
  last := ⟨w.getLast h.ne_nil, List.getLast?_eq_some_getLast _, h.not_blank _ (List.getLast_mem _)⟩

theorem start_of_head {place : Nat} {cs : List Char} {first : Word} {more : List Word}
    (h : wordsFrom place cs = first :: more) (hc : ∃ c, cs.head? = some c ∧ isBlank c = false) :
    first.span.start = place := by
  obtain ⟨c, hc, hb⟩ := hc
  cases cs with
  | nil => cases hc
  | cons d cs =>
    obtain rfl := Option.some_inj.mp hc
    rw [wordsFrom, if_neg (by simp [hb])] at h
    exact congrArg (·.span.start) (List.cons.inj h).1.symm

theorem stop_of_last (place : Nat) {cs : List Char}
    (hc : ∃ c, cs.getLast? = some c ∧ isBlank c = false) :
    (wordsFrom place cs).getLast?.map (·.span.stop) = some (place + size cs) := by
  obtain ⟨c, hc, hb⟩ := hc
  induction cs using byWords generalizing place with
  | nil => cases hc
  | blank d cs hd ih =>
    cases cs with
    | nil =>
      obtain rfl : d = c := by simpa using hc
      simp [hd] at hb
    | cons e cs => rw [wordsFrom_blank _ _ hd, size_cons, ← Nat.add_assoc, ih _ hc]
  | word x rest hx hrest ih =>
    rw [wordsFrom_append _ hx hrest, List.getLast?_cons]
    cases rest with
    | nil => simp
    | cons e rest =>
      obtain ⟨last, hlast, hstop⟩ := Option.map_eq_some_iff.mp <|
        ih (place + size x) (by simpa [List.getLast?_append] using hc)
      simp [hlast, hstop, Nat.add_assoc]

theorem exists_cons_of_isPhrase (place : Nat) {cs : List Char} (h : IsPhrase cs) :
    ∃ first more, wordsFrom place cs = first :: more := by
  have hstop := stop_of_last place h.last
  apply List.exists_cons_of_ne_nil
  intro hnil
  simp [hnil] at hstop

/-- The words of a phrase reach from its beginning to its end. -/
theorem through_of_isPhrase {place : Nat} {cs : List Char} (h : IsPhrase cs) {first : Word}
    {more : List Word} (hwords : wordsFrom place cs = first :: more) :
    first.span.through ((first :: more).getLast (List.cons_ne_nil _ _)).span =
      ⟨place, place + size cs⟩ := by
  have hstop := stop_of_last place h.last
  rw [hwords, List.getLast?_eq_some_getLast (List.cons_ne_nil _ _), Option.map_some,
    Option.some_inj] at hstop
  rw [Span.through, start_of_head hwords h.head, hstop]

/-- The text up to the end of one of its words. -/
theorem exists_cut_after {place : Nat} {cs : List Char} {before after : List Word} {w : Word}
    (h : wordsFrom place cs = before ++ w :: after) :
    ∃ pre post, cs = pre ++ post ∧ wordsFrom place pre = before ++ [w] ∧
      ∃ c, pre.getLast? = some c ∧ isBlank c = false := by
  induction cs using byWords generalizing place before with
  | nil => simp at h
  | blank c cs hc ih =>
    rw [wordsFrom_blank _ _ hc] at h
    obtain ⟨pre, post, rfl, hpre, d, hd, hb⟩ := ih h
    exact ⟨c :: pre, post, rfl, by rw [wordsFrom_blank _ _ hc, hpre], d,
      by rw [List.getLast?_cons, hd]; rfl, hb⟩
  | word x rest hx hrest ih =>
    rw [wordsFrom_append _ hx hrest] at h
    cases before with
    | nil =>
      obtain ⟨rfl, rfl⟩ := List.cons.inj h
      exact ⟨x, rest, rfl, wordsFrom_of_isRun place hx, (IsPhrase.of_isRun hx).last⟩
    | cons v before =>
      rw [List.cons_append] at h
      obtain ⟨rfl, hbefore⟩ := List.cons.inj h
      obtain ⟨pre, post, rfl, hpre, d, hd, hb⟩ := ih hbefore
      have hblank : StartsBlank pre := by
        intro c hc
        exact hrest c (by rw [List.head?_append, hc]; rfl)
      refine ⟨x ++ pre, post, by simp, ?_, d, by rw [List.getLast?_append, hd]; rfl, hb⟩
      rw [wordsFrom_append _ hx hblank, hpre, List.cons_append]

/-- The text from the beginning of one of its words on. -/
theorem exists_cut_before {place : Nat} {cs : List Char} {before after : List Word} {w : Word}
    (h : wordsFrom place cs = before ++ w :: after) :
    ∃ pre post, cs = pre ++ post ∧ wordsFrom (place + size pre) post = w :: after ∧
      ∃ c, post.head? = some c ∧ isBlank c = false := by
  induction cs using byWords generalizing place before with
  | nil => simp at h
  | blank c cs hc ih =>
    rw [wordsFrom_blank _ _ hc] at h
    obtain ⟨pre, post, rfl, hpost, hhead⟩ := ih h
    exact ⟨c :: pre, post, rfl, by rw [size_cons, ← Nat.add_assoc, hpost], hhead⟩
  | word x rest hx hrest ih =>
    cases before with
    | nil =>
      obtain ⟨c, hc, hb⟩ := (IsPhrase.of_isRun hx).head
      exact ⟨[], x ++ rest, rfl, h, c, by rw [List.head?_append, hc]; rfl, hb⟩
    | cons v before =>
      rw [wordsFrom_append _ hx hrest, List.cons_append] at h
      obtain ⟨rfl, hbefore⟩ := List.cons.inj h
      obtain ⟨pre, post, rfl, hpost, hhead⟩ := ih hbefore
      exact ⟨x ++ pre, post, by simp, by rw [size_append, ← Nat.add_assoc, hpost], hhead⟩

/-- Words that follow each other are those of a phrase. -/
theorem exists_phrase {place : Nat} {cs : List Char} {before more after : List Word} {first : Word}
    (h : wordsFrom place cs = before ++ first :: more ++ after) :
    ∃ pre phrase post, cs = pre ++ phrase ++ post ∧ IsPhrase phrase ∧
      wordsFrom (place + size pre) phrase = first :: more := by
  obtain ⟨init, last, hlast⟩ : ∃ init last, first :: more = init ++ [last] :=
    ⟨_, _, (List.dropLast_concat_getLast (List.cons_ne_nil _ _)).symm⟩
  rw [hlast, ← List.append_assoc, List.append_assoc, List.singleton_append] at h
  obtain ⟨text, post, rfl, htext, c, hc, hb⟩ := exists_cut_after h
  rw [List.append_assoc, ← hlast] at htext
  obtain ⟨pre, phrase, rfl, hphrase, hhead⟩ := exists_cut_before htext
  have hne : phrase ≠ [] := by
    rintro rfl
    simp at hphrase
  have hlast : phrase.getLast? = some c := by
    rw [List.getLast?_append, List.getLast?_eq_some_getLast hne, Option.some_or] at hc
    rw [List.getLast?_eq_some_getLast hne, hc]
  exact ⟨pre, phrase, post, rfl, ⟨hhead, c, hlast, hb⟩, hphrase⟩

/-- Two characters tell whether a word opens a comment. -/
theorem opensComment_cons (c : Char) (cs : List Char) :
    opensComment (c :: cs.takeWhile (!isBlank ·)) = true ↔ c = '/' ∧ cs.head? = some '/' := by
  cases cs with
  | nil => simp [opensComment]
  | cons d cs =>
    cases hb : isBlank d with
    | true =>
      have hd : d ≠ '/' := by
        rintro rfl
        cases hb
      simp [opensComment, hb, hd]
    | false =>
      rw [List.takeWhile_cons_of_pos (by simp [hb])]
      simp only [opensComment, List.isPrefixOf, Bool.and_true, Bool.and_eq_true, beq_iff_eq,
        List.head?_cons, Option.some_inj]
      exact and_congr eq_comm eq_comm

end Text

end LocalNames
