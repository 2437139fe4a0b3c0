import LocalNames.Proofs.ErrorPlaces
import Mathlib.Data.List.Nodup

/-! The tokens of a source leave nothing out. They stand in it one behind the other, every line feed
is one of them, and what lies between them is blanks and comments. -/

namespace LocalNames

open Text

/-- The text that stands at the span, with what is before and behind it. -/
structure Span.Cuts (s : Span) (source before text after : List Char) : Prop where
  source_eq : source = before ++ text ++ after
  span_eq : s = ⟨size before, size before + size text⟩

/-- What tokens leave out between two places. -/
def gapsBetween (start stop : Nat) : List (Spanned Token) → List Span
  | [] => [⟨start, stop⟩]
  | t :: ts => ⟨start, t.span.start⟩ :: gapsBetween t.span.stop stop ts

/-- The tokens are all that stands in the source, apart from blanks and comments. -/
structure Covers (source : String) (tokens : List (Spanned Token)) : Prop where
  nonempty : ∀ t ∈ tokens, t.span.start < t.span.stop
  ordered : tokens.Pairwise fun t u => t.span.stop ≤ u.span.start
  /-- Each line feed is one token. By `token`, nothing else is a line break. -/
  lineFeed : ∀ before after, source.toList = before ++ '\n' :: after →
    tokens.count ⟨.lineBreak, ⟨size before, size before + 1⟩⟩ = 1
  token : ∀ t ∈ tokens, ∃ before text after, t.span.Cuts source.toList before text after ∧
    t.span.Shows source (String.ofList text) ∧ t.value.Stands before text after
  gap : ∀ g ∈ gapsBetween 0 source.utf8ByteSize tokens, ∃ before gap after,
    g.Cuts source.toList before gap after ∧ IsGap before gap after

/-- Two beginnings of a text are the same if they are of one size. -/
theorem append_inj_of_size {us us' vs vs' : List Char} (h : us ++ vs = us' ++ vs')
    (hsize : size us = size us') : us = us' ∧ vs = vs' := by
  induction us generalizing us' with
  | nil =>
    cases us' with
    | nil => exact ⟨rfl, h⟩
    | cons c us' => exact absurd hsize (Nat.ne_of_lt (size_pos (List.cons_ne_nil c us')))
  | cons c us ih =>
    cases us' with
    | nil => exact absurd hsize (Nat.ne_of_gt (size_pos (List.cons_ne_nil c us)))
    | cons d us' =>
      obtain ⟨rfl, htail⟩ := List.cons.inj h
      obtain ⟨rfl, hrest⟩ := ih htail (Nat.add_left_cancel hsize)
      exact ⟨rfl, hrest⟩

/-- A line feed behind a text without any is in what follows that text. -/
theorem exists_append_of_not_mem {us vs pre post : List Char} (hus : '\n' ∉ us)
    (h : us ++ vs = pre ++ '\n' :: post) :
    ∃ more, pre = us ++ more ∧ vs = more ++ '\n' :: post := by
  rcases List.append_eq_append_iff.mp h with ⟨more, hpre, hvs⟩ | ⟨more, hpre, hvs⟩
  · exact ⟨more, hpre, hvs⟩
  · cases more with
    | nil => exact ⟨[], by simpa using hpre.symm, by simpa using hvs.symm⟩
    | cons c more =>
      obtain ⟨rfl, _⟩ := List.cons.inj hvs
      exact absurd (by simp [hpre]) hus

namespace Lexer.Lexed

variable {before cs : List Char} {ts : List (Spanned Token)}

/-- Each token stands in the text, behind what is before all of them. -/
theorem exists_of_mem (h : Lexed before cs ts) {t : Spanned Token} (ht : t ∈ ts) :
    ∃ pre text post, t.span.Cuts (before ++ cs) pre text post ∧ t.value.Stands pre text post ∧
      size before ≤ size pre := by
  induction h with
  | nil _ => cases ht
  | @cons before gap text rest _ _ _ hstands _ ih =>
    rcases List.mem_cons.mp ht with rfl | ht
    · exact ⟨before ++ gap, text, rest, ⟨by simp, by simp [Nat.add_assoc]⟩, hstands, by simp⟩
    · obtain ⟨pre, word, post, ⟨hsource, hspan⟩, hword, hle⟩ := ih ht
      refine ⟨pre, word, post, ⟨by simpa using hsource, hspan⟩, hword, Nat.le_trans ?_ hle⟩
      simp only [size_append]
      omega

theorem start_lt_stop (h : Lexed before cs ts) {t : Spanned Token} (ht : t ∈ ts) :
    t.span.start < t.span.stop := by
  obtain ⟨pre, text, _, ⟨_, hspan⟩, hstands, _⟩ := h.exists_of_mem ht
  rw [hspan]
  exact Nat.lt_add_of_pos_right (size_pos hstands.ne_nil)

theorem pairwise (h : Lexed before cs ts) :
    ts.Pairwise fun t u => t.span.stop ≤ u.span.start := by
  induction h with
  | nil _ => exact .nil
  | cons _ _ hlexed ih =>
    refine .cons (fun u hu => ?_) ih
    obtain ⟨pre, _, _, ⟨_, hspan⟩, _, hle⟩ := hlexed.exists_of_mem hu
    rw [hspan]
    exact hle

theorem nodup (h : Lexed before cs ts) : ts.Nodup :=
  h.pairwise.imp_of_mem fun ht _ hle heq => by
    subst heq
    exact Nat.not_lt_of_le hle (h.start_lt_stop ht)

/-- No line feed is in a gap or in a word, so it is a token. -/
theorem mem_of_lineFeed (h : Lexed before cs ts) {pre post : List Char}
    (hcs : cs = pre ++ '\n' :: post) :
    ⟨.lineBreak, ⟨size (before ++ pre), size (before ++ pre) + 1⟩⟩ ∈ ts := by
  induction h generalizing pre with
  | nil hgap => exact absurd (by simp [hcs]) hgap.lineFeed
  | @cons before gap text rest t ts hgap hstands _ ih =>
    obtain ⟨more, rfl, htext⟩ := exists_append_of_not_mem hgap.lineFeed hcs
    rcases hstands.eq_lineBreak_or with ⟨rfl, rfl⟩ | ⟨rfl, hwhole⟩
    · cases more with
      | nil => simp [Nat.add_assoc]
      | cons c more =>
        obtain ⟨rfl, hrest⟩ := List.cons.inj htext
        exact List.mem_cons_of_mem _ (by simpa using ih hrest)
    · obtain ⟨more, rfl, hrest⟩ := exists_append_of_not_mem hwhole.isRun.lineFeed htext
      exact List.mem_cons_of_mem _ (by simpa using ih hrest)

/-- What is left out is a gap. -/
theorem exists_of_mem_gapsBetween (h : Lexed before cs ts) {g : Span}
    (hg : g ∈ gapsBetween (size before) (size (before ++ cs)) ts) :
    ∃ pre gap post, g.Cuts (before ++ cs) pre gap post ∧ IsGap pre gap post := by
  induction h with
  | @nil before gap hgap =>
    obtain rfl := List.mem_singleton.mp hg
    exact ⟨before, gap, [], ⟨by simp, by simp⟩, hgap⟩
  | @cons before gap text rest _ _ hgap _ _ ih =>
    rcases List.mem_cons.mp hg with rfl | hg
    · exact ⟨before, gap, text ++ rest, ⟨by simp, by simp⟩, hgap⟩
    · obtain ⟨pre, other, post, ⟨hsource, hspan⟩, hother⟩ := ih (by simpa using hg)
      exact ⟨pre, other, post, ⟨by simpa using hsource, hspan⟩, hother⟩

/-- Tokens with nothing but gaps between them are those that are read. -/
theorem of_cuts
    (htoken : ∀ t ∈ ts, ∃ pre text post, t.span.Cuts (before ++ cs) pre text post ∧
      t.value.Stands pre text post)
    (hgap : ∀ g ∈ gapsBetween (size before) (size (before ++ cs)) ts, ∃ pre gap post,
      g.Cuts (before ++ cs) pre gap post ∧ IsGap pre gap post) : Lexed before cs ts := by
  -- Every text begins where the one before it ends, so it is known by its span.
  induction ts generalizing before cs with
  | nil =>
    obtain ⟨pre, gap, post, ⟨hsource, hspan⟩, hisGap⟩ := hgap _ (List.mem_singleton_self _)
    obtain ⟨hstart, hstop⟩ := Span.mk.inj hspan
    obtain ⟨rfl, rfl⟩ := append_inj_of_size (hsource.trans (List.append_assoc _ _ _)) hstart
    cases post with
    | nil =>
      rw [List.append_nil]
      exact .nil hisGap
    | cons c post =>
      have := size_pos (List.cons_ne_nil c post)
      simp only [size_append] at hstop
      omega
  | cons t ts ih =>
    obtain ⟨pre, gap, post, ⟨hsource, hspan⟩, hisGap⟩ := hgap _ List.mem_cons_self
    obtain ⟨hstart, hstop⟩ := Span.mk.inj hspan
    obtain ⟨rfl, rfl⟩ := append_inj_of_size (hsource.trans (List.append_assoc _ _ _)) hstart
    obtain ⟨pre, text, rest, ⟨hsource, ht⟩, hstands⟩ := htoken t List.mem_cons_self
    obtain ⟨rfl, rfl⟩ : before ++ gap = pre ∧ post = text ++ rest :=
      append_inj_of_size (by simpa using hsource) (by rw [size_append, ← hstop, ht])
    obtain ⟨value, span⟩ := t
    obtain rfl : span = ⟨size (before ++ gap), size (before ++ gap ++ text)⟩ := by
      rw [size_append _ text]
      exact ht
    refine .cons hisGap hstands (ih (fun u hu => ?_) fun g hg => ?_)
    · simpa using htoken u (List.mem_cons_of_mem _ hu)
    · simpa using hgap g (List.mem_cons_of_mem _ (by simpa using hg))

end Lexer.Lexed

theorem Lexer.Lexed.covers {source : String} {tokens : List (Spanned Token)}
    (h : Lexed [] source.toList tokens) : Covers source tokens where
  nonempty _ ht := h.start_lt_stop ht
  ordered := h.pairwise
  lineFeed _ _ hsource := List.nodup_iff_count_eq_one.mp h.nodup _ (h.mem_of_lineFeed hsource)
  token t ht := by
    obtain ⟨before, text, after, hcuts, hstands, _⟩ := h.exists_of_mem ht
    have hshows := Span.shows_of_append hcuts.source_eq
    exact ⟨before, text, after, hcuts, hcuts.span_eq ▸ hshows, hstands⟩
  gap g hg := by
    rw [← size_toList] at hg
    exact h.exists_of_mem_gapsBetween hg

theorem Covers.lexed {source : String} {tokens : List (Spanned Token)}
    (h : Covers source tokens) : Lexer.Lexed [] source.toList tokens := by
  refine .of_cuts (fun t ht => ?_) fun g hg => h.gap g ?_
  · obtain ⟨before, text, after, hcuts, _, hstands⟩ := h.token t ht
    exact ⟨before, text, after, hcuts, hstands⟩
  · rwa [List.nil_append, size_toList] at hg

/-- Every source is read to its end. What is read leaves nothing out, and no other tokens do so. -/
theorem tokens_cover_source (source : String) : (∃ tokens, readTokens source = .ok tokens) ∧
    ∀ tokens, readTokens source = .ok tokens ↔ Covers source tokens := by
  obtain ⟨read, hread, hlexed⟩ := exists_readTokens source
  refine ⟨⟨read, hread⟩, fun tokens => ?_⟩
  rw [hread, Except.ok.injEq]
  constructor
  · rintro rfl
    exact hlexed.covers
  · intro hcovers
    rw [SourceLine.tokens_of_lexed hcovers.lexed, SourceLine.tokens_of_lexed hlexed]

example : readTokens "var ä//b 0 // é\n//\nint" = .ok [⟨.keyword .var, ⟨0, 3⟩⟩,
    ⟨.word "ä//b", ⟨4, 9⟩⟩, ⟨.word "0", ⟨10, 11⟩⟩, ⟨.lineBreak, ⟨17, 18⟩⟩,
    ⟨.lineBreak, ⟨20, 21⟩⟩, ⟨.word "int", ⟨21, 24⟩⟩] := by
  decide +kernel

end LocalNames
