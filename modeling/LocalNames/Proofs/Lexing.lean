import LocalNames.Listing.Lexer
import LocalNames.Proofs.Words

/-! What the lexer makes of a source. From a place between words on there are blanks and perhaps a
comment, and then a token or the end, so reading never stops before the end. -/

namespace LocalNames

/-! ### What stands in a source -/

namespace Text

/-- A text that no word goes on from. -/
def EndsBlank (cs : List Char) : Prop := ∀ c ∈ cs.getLast?, isBlank c = true

/-- No word goes on from one text into the next. -/
def Apart (before after : List Char) : Prop := EndsBlank before ∨ StartsBlank after

/-- Blanks within a line. -/
def IsSpace (cs : List Char) : Prop := ∀ c ∈ cs, isBlank c = true ∧ c ≠ '\n'

/-- What may stand between tokens: blanks within a line and, where a word could start, a comment
up to the end of the line. -/
inductive IsGap (before : List Char) : List Char → List Char → Prop
  | space {space after : List Char} : IsSpace space → IsGap before space after
  | comment {space body after : List Char} : IsSpace space → EndsBlank (before ++ space) →
      '\n' ∉ body → (∀ c ∈ after.head?, c = '\n') →
      IsGap before (space ++ '/' :: '/' :: body) after

/-- A run of characters from blank to blank that opens no comment. -/
structure IsWhole (before run after : List Char) : Prop where
  isRun : IsRun run
  endsBlank : EndsBlank before
  startsBlank : StartsBlank after
  opens : opensComment run = false

end Text

/-- Which token the text between two others is. -/
inductive Token.Stands (before text after : List Char) : Token → Prop
  | lineBreak : text = ['\n'] → Stands before text after .lineBreak
  | keyword (k : Keyword) : Text.IsWhole before text after → text = k.text.toList →
      Stands before text after (.keyword k)
  | word (s : String) : Text.IsWhole before text after → text = s.toList →
      (∀ k : Keyword, k.text ≠ s) → Stands before text after (.word s)

namespace Lexer

open Text

/-- The tokens of a text that stands behind another. A gap is in front of each, and behind the
last. -/
inductive Lexed : List Char → List Char → List (Spanned Token) → Prop
  | nil {before gap : List Char} : IsGap before gap [] → Lexed before gap []
  | cons {before gap text rest : List Char} {t : Token} {ts : List (Spanned Token)} :
      IsGap before gap (text ++ rest) → t.Stands (before ++ gap) text rest →
      Lexed (before ++ gap ++ text) rest ts →
      Lexed before (gap ++ (text ++ rest))
        (⟨t, ⟨size (before ++ gap), size (before ++ gap ++ text)⟩⟩ :: ts)

end Lexer

namespace Text

variable {before after cs : List Char}

theorem EndsBlank.nil : EndsBlank [] := by
  rintro _ ⟨⟩

theorem EndsBlank.concat {c : Char} (h : isBlank c = true) (cs : List Char) :
    EndsBlank (cs ++ [c]) := by
  intro d hd
  rw [List.getLast?_concat, Option.mem_some_iff] at hd
  exact hd ▸ h

theorem IsSpace.nil : IsSpace [] := by
  rintro _ ⟨⟩

theorem IsGap.nil : IsGap before [] after := .space .nil

theorem IsGap.cons {c : Char} {gap : List Char} (hb : isBlank c = true) (hc : c ≠ '\n')
    (h : IsGap (before ++ [c]) gap after) : IsGap before (c :: gap) after := by
  cases h with
  | space hspace => exact .space (List.forall_mem_cons.mpr ⟨⟨hb, hc⟩, hspace⟩)
  | comment hspace hends hbody hafter =>
    rw [List.append_assoc, List.singleton_append] at hends
    exact .comment (List.forall_mem_cons.mpr ⟨⟨hb, hc⟩, hspace⟩) hends hbody hafter

theorem IsSpace.lineFeed (h : IsSpace cs) : '\n' ∉ cs := fun hm => (h _ hm).2 rfl

theorem IsGap.lineFeed {gap : List Char} (h : IsGap before gap after) : '\n' ∉ gap := by
  cases h with
  | space hspace => exact hspace.lineFeed
  | comment hspace _ hbody _ => simp [hspace.lineFeed, hbody]

theorem IsRun.lineFeed (h : IsRun cs) : '\n' ∉ cs := fun hm => by
  cases (h.not_blank _ hm).symm.trans isBlank_lineFeed

end Text

theorem Token.stands_ofText {before run after : List Char} (h : Text.IsWhole before run after) :
    (ofText (String.ofList run)).Stands before run after := by
  unfold ofText
  split
  · next k hk => exact .keyword k h (by rw [Keyword.text_of_ofText? hk, String.toList_ofList])
  · next hk =>
    refine .word _ h String.toList_ofList.symm fun k hword => ?_
    rw [← hword, Keyword.ofText?_text] at hk
    cases hk

namespace Token.Stands

variable {before text after : List Char} {t : Token}

/-- A token is a line feed, or it is what becomes of a run. -/
theorem eq_lineBreak_or (h : t.Stands before text after) : (t = .lineBreak ∧ text = ['\n']) ∨
    (t = .ofText (String.ofList text) ∧ Text.IsWhole before text after) := by
  cases h with
  | lineBreak htext => exact .inl ⟨rfl, htext⟩
  | keyword k hwhole htext =>
    refine .inr ⟨?_, hwhole⟩
    rw [htext, String.ofList_toList, ofText, Keyword.ofText?_text]
  | word s hwhole htext hword =>
    refine .inr ⟨?_, hwhole⟩
    rw [htext, String.ofList_toList, ofText]
    split
    · next k hk => exact absurd (Keyword.text_of_ofText? hk) (hword k)
    · rfl

theorem ne_nil (h : t.Stands before text after) : text ≠ [] := by
  rcases h.eq_lineBreak_or with ⟨_, rfl⟩ | ⟨_, hwhole⟩
  · exact List.cons_ne_nil _ _
  · exact hwhole.isRun.ne_nil

theorem apart (h : t.Stands before text after) : Text.Apart (before ++ text) after := by
  rcases h.eq_lineBreak_or with ⟨_, rfl⟩ | ⟨_, hwhole⟩
  · exact .inl (.concat Text.isBlank_lineFeed before)
  · exact .inr hwhole.startsBlank

end Token.Stands

namespace Lexer

open Text Item

/-! ### Items -/

theorem many_char (kind : Char → Bool) (place : Nat) (cs : List Char) :
    (char kind).many ⟨place, cs⟩ =
      (cs.takeWhile kind, ⟨place + size (cs.takeWhile kind), cs.dropWhile kind⟩) := by
  induction cs generalizing place with
  | nil => exact many_of_none rfl
  | cons c cs ih =>
    cases hc : kind c with
    | true =>
      have hread : (char kind).read ⟨place, c :: cs⟩ = some (c, ⟨place + c.utf8Size, cs⟩) :=
        if_pos hc
      rw [many_of_some hread, ih, List.takeWhile_cons_of_pos hc, List.dropWhile_cons_of_pos hc,
        size_cons, Nat.add_assoc]
    | false =>
      have hread : (char kind).read ⟨place, c :: cs⟩ = none := if_neg (by simp [hc])
      rw [many_of_none hread, List.takeWhile_cons_of_neg (by simp [hc]),
        List.dropWhile_cons_of_neg (by simp [hc])]
      rfl

theorem read_blank_space (place : Nat) {c : Char} (cs : List Char) (hb : isBlank c = true)
    (hc : c ≠ '\n') : blank.read ⟨place, c :: cs⟩ = some ((), ⟨place + c.utf8Size, cs⟩) := by
  simp [blank, hb, hc]

theorem read_blank_comment (place : Nat) (cs : List Char) :
    blank.read ⟨place, '/' :: '/' :: cs⟩ =
      some ((), ⟨place + size ('/' :: '/' :: cs.takeWhile (· != '\n')),
        cs.dropWhile (· != '\n')⟩) := by
  have hslash : isBlank '/' = false := rfl
  simp [blank, comment, many_char, hslash, Nat.add_assoc]

/-- Where neither a blank nor a comment goes on, there is a token or the end. -/
inductive Front (before : List Char) : List Char → Prop
  | nil : Front before []
  | lineFeed (cs : List Char) : Front before ('\n' :: cs)
  | word {run : List Char} (cs : List Char) : IsWhole before run cs → Front before (run ++ cs)

theorem read_blank_none {cs : List Char} (place : Nat)
    (hb : ∀ c ∈ cs.head?, isBlank c = true → c = '\n') (hs : ∀ rest, cs ≠ '/' :: '/' :: rest) :
    blank.read ⟨place, cs⟩ = none := by
  match cs with
  | [] => rfl
  | [c] =>
    have hc := hb c rfl
    simpa [blank, comment] using hc
  | c :: d :: cs =>
    have hc := hb c rfl
    have hd : c = '/' → d ≠ '/' := by
      rintro rfl rfl
      exact hs cs rfl
    simpa [blank, comment] using ⟨hc, hd⟩

theorem read_blank_front {before cs : List Char} (h : Front before cs) (place : Nat) :
    blank.read ⟨place, cs⟩ = none := by
  cases h with
  | nil => rfl
  | lineFeed cs => exact read_blank_none place (by simp) (by simp)
  | @word run cs hrun =>
    obtain ⟨c, run, rfl⟩ := List.exists_cons_of_ne_nil hrun.isRun.ne_nil
    have hc := hrun.isRun.not_blank c List.mem_cons_self
    refine read_blank_none place (by simp [hc]) fun rest hrest => ?_
    have hopens := hrun.opens
    cases run with
    | nil =>
      obtain ⟨rfl, rfl⟩ := List.cons.inj hrest
      cases hrun.startsBlank '/' rfl
    | cons d run =>
      simp only [List.cons_append, List.cons.injEq] at hrest
      simp [opensComment, hrest.1, hrest.2.1] at hopens

theorem front_of_head {before cs : List Char} (h : ∀ c ∈ cs.head?, c = '\n') :
    Front before cs := by
  cases cs with
  | nil => exact .nil
  | cons c cs => exact h c rfl ▸ .lineFeed cs

theorem front_of_run {before : List Char} {c : Char} {cs : List Char} (hbefore : EndsBlank before)
    (hc : isBlank c = false) (hopens : opensComment (c :: cs.takeWhile (!isBlank ·)) = false) :
    Front before (c :: cs) := by
  have hwhole : IsWhole before (c :: cs.takeWhile (!isBlank ·)) (cs.dropWhile (!isBlank ·)) :=
    ⟨isRun_cons cs hc, hbefore, startsBlank_dropWhile cs, hopens⟩
  have hfront := Front.word _ hwhole
  rwa [List.cons_append, List.takeWhile_append_dropWhile] at hfront

/-! ### Gaps -/

/-- All blanks and comments behind `before` are passed, and `rest` is left. -/
structure Passes (before cs gap rest : List Char) : Prop where
  text_eq : cs = gap ++ rest
  many_eq : ∀ place, (blank.many ⟨place, cs⟩).2 = ⟨place + size gap, rest⟩
  isGap : IsGap before gap rest
  front : Front (before ++ gap) rest

namespace Passes

variable {before cs gap rest : List Char}

theorem of_front (h : Front before cs) : Passes before cs [] cs where
  text_eq := rfl
  many_eq place := by
    rw [many_of_none (read_blank_front h place)]
    rfl
  isGap := .nil
  front := by rwa [List.append_nil]

theorem cons {c : Char} (hb : isBlank c = true) (hc : c ≠ '\n')
    (h : Passes (before ++ [c]) cs gap rest) : Passes before (c :: cs) (c :: gap) rest where
  text_eq := congrArg (c :: ·) h.text_eq
  many_eq place := by
    rw [many_of_some (read_blank_space place cs hb hc), h.many_eq, size_cons, Nat.add_assoc]
  isGap := h.isGap.cons hb hc
  front := by simpa using h.front

/-- A comment is passed up to the end of its line, where nothing else is. -/
theorem comment (h : EndsBlank before) (cs : List Char) :
    Passes before ('/' :: '/' :: cs) ('/' :: '/' :: cs.takeWhile (· != '\n'))
      (cs.dropWhile (· != '\n')) := by
  have hend : ∀ d ∈ (cs.dropWhile (· != '\n')).head?, d = '\n' := by
    intro d hd
    have := List.head?_dropWhile_not (· != '\n') cs
    rw [hd] at this
    simpa using this
  have hbody : '\n' ∉ cs.takeWhile (· != '\n') := fun hm => by
    simpa using List.mem_takeWhile_imp hm
  have hfront : Front (before ++ '/' :: '/' :: cs.takeWhile (· != '\n'))
      (cs.dropWhile (· != '\n')) := front_of_head hend
  have hgap : IsGap before ([] ++ '/' :: '/' :: cs.takeWhile (· != '\n'))
      (cs.dropWhile (· != '\n')) := .comment .nil (by rwa [List.append_nil]) hbody hend
  refine ⟨by simp, fun place => ?_, hgap, hfront⟩
  rw [many_of_some (read_blank_comment place cs), many_of_none (read_blank_front hfront _)]

end Passes

/-- From any place between words on, there is a gap and then a token or the end. -/
theorem exists_passes {before cs : List Char} (h : Apart before cs) :
    ∃ gap rest, Passes before cs gap rest := by
  induction cs generalizing before with
  | nil => exact ⟨[], [], .of_front .nil⟩
  | cons c cs ih =>
    by_cases hc : c = '\n'
    · exact ⟨[], c :: cs, .of_front (hc ▸ .lineFeed cs)⟩
    cases hb : isBlank c with
    | true =>
      obtain ⟨gap, rest, hpasses⟩ := ih (.inl (.concat hb before))
      exact ⟨c :: gap, rest, hpasses.cons hb hc⟩
    | false =>
      -- A word could start here, and so could a comment.
      have hbefore : EndsBlank before := h.resolve_right fun hstarts => by
        simp [hstarts c rfl] at hb
      cases hopens : opensComment (c :: cs.takeWhile (!isBlank ·)) with
      | false => exact ⟨[], c :: cs, .of_front (front_of_run hbefore hb hopens)⟩
      | true =>
        obtain ⟨rfl, hhead⟩ := (opensComment_cons c cs).mp hopens
        obtain ⟨body, rfl⟩ := List.head?_eq_some_iff.mp hhead
        exact ⟨_, _, .comment hbefore body⟩

/-! ### Runs -/

theorem read_token_nil (place : Nat) : token.read ⟨place, []⟩ = none := by
  rw [token, read_padded, many_of_none (read_blank_front (@Front.nil []) place)]
  rfl

theorem read_token_lineFeed (place : Nat) (cs : List Char) : token.read ⟨place, '\n' :: cs⟩ =
    some (⟨.lineBreak, ⟨place, place + 1⟩⟩, (blank.many ⟨place + 1, cs⟩).2) := by
  rw [token, read_padded, many_of_none (read_blank_front (@Front.lineFeed [] cs) place)]
  simp [lineBreak]

theorem read_token_word {before run cs : List Char} (h : IsWhole before run cs) (place : Nat) :
    token.read ⟨place, run ++ cs⟩ =
      some (⟨.ofText (String.ofList run), ⟨place, place + size run⟩⟩,
        (blank.many ⟨place + size run, cs⟩).2) := by
  rw [token, read_padded, many_of_none (read_blank_front (.word cs h) place)]
  obtain ⟨c, run, rfl⟩ := List.exists_cons_of_ne_nil h.isRun.ne_nil
  obtain ⟨hc, hrun⟩ := List.forall_mem_cons.mp h.isRun.not_blank
  have hlf : c ≠ '\n' := by
    rintro rfl
    cases hc
  simp [lineBreak, word, hc, hlf, many_char, takeWhile_append_of_startsBlank hrun h.startsBlank,
    dropWhile_append_of_startsBlank hrun h.startsBlank, Nat.add_assoc]

/-- Where a token stands it is read, with everything up to the next one. -/
theorem Front.read {before cs : List Char} (h : Front before cs) : cs = [] ∨
    ∃ text rest t, cs = text ++ rest ∧ t.Stands before text rest ∧
      ∀ place, token.read ⟨place, cs⟩ =
        some (⟨t, ⟨place, place + size text⟩⟩, (blank.many ⟨place + size text, rest⟩).2) := by
  cases h with
  | nil => exact .inl rfl
  | lineFeed cs =>
    exact .inr ⟨['\n'], cs, .lineBreak, rfl, .lineBreak rfl, fun p => read_token_lineFeed p cs⟩
  | word cs hrun =>
    exact .inr ⟨_, cs, _, rfl, Token.stands_ofText hrun, read_token_word hrun⟩

/-- From any place between words on, all that is left is read. -/
theorem exists_lexed (before cs : List Char) (h : Apart before cs) :
    ∃ ts, token.many (blank.many ⟨size before, cs⟩).2 = (ts, ⟨size (before ++ cs), []⟩) ∧
      Lexed before cs ts := by
  -- The text behind the first token is shorter, and no word of `before` goes on into it.
  induction hn : cs.length using Nat.strongRecOn generalizing before cs with | ind n ih => ?_
  obtain ⟨gap, front, rfl, hmany, hgap, hfront⟩ := exists_passes h
  rw [hmany, ← size_append]
  rcases hfront.read with rfl | ⟨text, rest, t, rfl, hstands, hread⟩
  · rw [List.append_nil]
    exact ⟨[], many_of_none (read_token_nil _), .nil hgap⟩
  · have hshorter : rest.length < n := by
      have := List.length_pos_iff.mpr hstands.ne_nil
      simp only [List.length_append] at hn
      omega
    obtain ⟨ts, hts, hlexed⟩ := ih rest.length hshorter (before ++ gap ++ text) rest
      hstands.apart rfl
    have hread := hread (size (before ++ gap))
    rw [← size_append] at hread
    refine ⟨_, ?_, .cons hgap hstands hlexed⟩
    rw [many_of_some hread, hts]
    simp only [List.append_assoc]

end Lexer

/-- Nothing in a source stops the reading of its tokens. -/
theorem exists_readTokens (source : String) :
    ∃ tokens, readTokens source = .ok tokens ∧ Lexer.Lexed [] source.toList tokens := by
  obtain ⟨tokens, hmany, hlexed⟩ := Lexer.exists_lexed [] source.toList (.inl .nil)
  rw [Text.size_nil] at hmany
  exact ⟨tokens, by rw [readTokens, hmany], hlexed⟩

end LocalNames
