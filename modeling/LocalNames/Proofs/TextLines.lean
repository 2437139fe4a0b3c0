import LocalNames.Proofs.Lexing

/-! Sources line by line. A source is cut at its line feeds, and a line into its words; a word
that starts with `//` hides the rest of its line. Words and line feeds are all the tokens. -/

namespace LocalNames

/-- A word as a token. -/
def Token.ofWord (w : Word) : Spanned Token := ⟨.ofText w.value, w.span⟩

/-! ### Lines -/

/-- A line of a source: where it begins, its characters, and what ends it. -/
structure SourceLine where
  place : Nat
  chars : List Char
  stop : Span

namespace SourceLine

/-- The lines of a text that begins at `place`, given piece by piece. A line feed ends each but
the last, which ends with the text. -/
def ofPieces (place : Nat) : List (List Char) → List SourceLine
  | [] => []
  | [last] => [⟨place, last, .marker (place + Text.size last)⟩]
  | line :: next :: more =>
    ⟨place, line, ⟨place + Text.size line, place + Text.size line + 1⟩⟩ ::
      ofPieces (place + Text.size line + 1) (next :: more)

theorem map_chars_ofPieces (place : Nat) (pieces : List (List Char)) :
    (ofPieces place pieces).map (·.chars) = pieces := by
  fun_induction ofPieces place pieces with
  | case1 => rfl
  | case2 => rfl
  | case3 place line next more ih => rw [List.map_cons, ih]

/-- The lines of a source, from line feed to line feed. -/
def ofSource (source : String) : List SourceLine := ofPieces 0 (source.toList.splitOn '\n')

/-- A line is a stretch of the text, and it is ended by the line feed behind it, if there is one. -/
theorem exists_of_mem_ofPieces {place : Nat} {pieces : List (List Char)} {l : SourceLine}
    (h : l ∈ ofPieces place pieces) : ∃ pre post,
      ['\n'].intercalate pieces = pre ++ l.chars ++ post ∧ l.chars ∈ pieces ∧
        l.place = place + Text.size pre ∧ (∀ c ∈ post.head?, c = '\n') ∧
        l.stop = ⟨l.place + Text.size l.chars,
          l.place + Text.size l.chars + Text.size (post.take 1)⟩ := by
  fun_induction ofPieces place pieces with
  | case1 => cases h
  | case2 place last =>
    obtain rfl := List.mem_singleton.mp h
    exact ⟨[], [], by simp, List.mem_singleton_self _, by simp, by simp, rfl⟩
  | case3 place line next more ih =>
    rw [List.intercalate_cons_cons]
    rcases List.mem_cons.mp h with rfl | h
    · refine ⟨[], '\n' :: ['\n'].intercalate (next :: more), by simp, List.mem_cons_self, by simp,
        ?_, rfl⟩
      rintro c ⟨⟩
      rfl
    · obtain ⟨pre, post, htext, hmem, hplace, hstop⟩ := ih h
      refine ⟨line ++ ['\n'] ++ pre, post, by simp [htext], List.mem_cons_of_mem _ hmem, ?_, hstop⟩
      rw [hplace, Text.size_append, Text.size_append, Text.size_cons, Text.size_nil,
        Text.utf8Size_lineFeed]
      omega

theorem pairwise_ofPieces (place : Nat) (pieces : List (List Char)) :
    (ofPieces place pieces).Pairwise fun l k => l.stop.start < k.place := by
  fun_induction ofPieces place pieces with
  | case1 => exact .nil
  | case2 => exact List.pairwise_singleton _ _
  | case3 place line next more ih =>
    refine .cons (fun k hk => ?_) ih
    obtain ⟨pre, _, _, _, hplace, _⟩ := exists_of_mem_ofPieces hk
    show place + Text.size line < k.place
    omega

/-- The words of a line up to the first that opens a comment. -/
def words (l : SourceLine) : List Word :=
  (Text.wordsFrom l.place l.chars).takeWhile (!Text.opensComment ·.value.toList)

/-- Words of a line that follow each other stand in a stretch of the line. -/
theorem exists_phrase {l : SourceLine} {before more after : List Word} {first : Word}
    (h : l.words = before ++ first :: more ++ after) : ∃ pre phrase post,
      l.chars = pre ++ phrase ++ post ∧ Text.IsPhrase phrase ∧
        Text.wordsFrom (l.place + Text.size pre) phrase = first :: more := by
  have hwords : Text.wordsFrom l.place l.chars = before ++ first :: more ++ (after ++
      (Text.wordsFrom l.place l.chars).dropWhile (!Text.opensComment ·.value.toList)) := by
    rw [← List.append_assoc, ← h, words, List.takeWhile_append_dropWhile]
  exact Text.exists_phrase hwords

/-- The tokens of lines: the words of each, and the line feeds between them. -/
def tokens : List SourceLine → List (Spanned Token)
  | [] => []
  | [last] => last.words.map Token.ofWord
  | l :: next :: more => l.words.map Token.ofWord ++ ⟨.lineBreak, l.stop⟩ :: tokens (next :: more)

/-- The last line ends with the text. -/
theorem stop_getLast_ofPieces (place : Nat) (pieces : List (List Char)) :
    ∀ l ∈ (ofPieces place pieces).getLast?,
      l.stop = .marker (place + Text.size (['\n'].intercalate pieces)) := by
  fun_induction ofPieces place pieces with
  | case1 => simp
  | case2 place last =>
    rw [List.getLast?_singleton, List.intercalate_singleton]
    rintro l ⟨⟩
    rfl
  | case3 place line next more ih =>
    have hsize : place + Text.size (['\n'].intercalate (line :: next :: more)) =
        place + Text.size line + 1 + Text.size (['\n'].intercalate (next :: more)) := by
      simp only [List.intercalate_cons_cons, Text.size_append, Text.size_cons, Text.size_nil,
        Text.utf8Size_lineFeed]
      omega
    have hlast : ∀ l : SourceLine,
        (l :: ofPieces (place + Text.size line + 1) (next :: more)).getLast? =
          (ofPieces (place + Text.size line + 1) (next :: more)).getLast? := by
      intro l
      cases more <;> rfl
    rw [hlast, hsize]
    exact ih

end SourceLine

theorem Token.ofWord_ne_lineBreak (w : Word) : (ofWord w).value ≠ .lineBreak := by
  show ofText w.value ≠ .lineBreak
  unfold ofText
  split <;> exact Token.noConfusion

theorem not_mem_of_mem_splitOn {sep : Char} {cs piece : List Char} (h : piece ∈ cs.splitOn sep) :
    sep ∉ piece := by
  induction cs generalizing piece with
  | nil =>
    rw [List.splitOn_nil, List.mem_singleton] at h
    simp [h]
  | cons c cs ih =>
    rw [List.splitOn_cons_eq_if_modifyHead] at h
    obtain ⟨first, more, he⟩ := List.exists_cons_of_ne_nil (List.splitOn_ne_nil sep cs)
    rw [he] at h ih
    obtain ⟨hfirst, hmore⟩ := List.forall_mem_cons.mp fun p (hp : p ∈ first :: more) => ih hp
    split_ifs at h with hc
    · rcases List.mem_cons.mp h with rfl | h
      · exact List.not_mem_nil
      · exact ih h
    · rw [List.modifyHead_cons] at h
      rcases List.mem_cons.mp h with rfl | h
      · rw [List.mem_cons, not_or]
        exact ⟨fun he => hc (by simp [he]), hfirst⟩
      · exact hmore _ h

theorem SourceLine.exists_of_mem {source : String} {l : SourceLine} (h : l ∈ ofSource source) :
    ∃ pre post, source.toList = pre ++ l.chars ++ post ∧ '\n' ∉ l.chars ∧
      l.place = Text.size pre ∧ l.stop.start = l.place + Text.size l.chars := by
  obtain ⟨pre, post, htext, hmem, hplace, _, hstop⟩ := exists_of_mem_ofPieces h
  rw [List.intercalate_splitOn] at htext
  exact ⟨pre, post, htext, not_mem_of_mem_splitOn hmem, by rw [hplace, Nat.zero_add], by rw [hstop]⟩

theorem SourceLine.le_of_mem_words {source : String} {l : SourceLine} (h : l ∈ ofSource source)
    {w : Word} (hw : w ∈ l.words) : l.place ≤ w.span.start ∧ w.span.start ≤ l.stop.start := by
  obtain ⟨_, _, _, _, _, hstop⟩ := exists_of_mem h
  obtain ⟨pre, post, hchars, _, hspan⟩ :=
    Text.exists_of_mem_wordsFrom ((List.takeWhile_sublist _).subset hw)
  rw [hstop, hspan, hchars]
  simp only [Text.size_append]
  omega

theorem SourceLine.stop_getLast (source : String) :
    ∀ l ∈ (ofSource source).getLast?, l.stop = .marker source.utf8ByteSize := by
  have h := stop_getLast_ofPieces 0 (source.toList.splitOn '\n')
  rwa [List.intercalate_splitOn, Nat.zero_add, Text.size_toList] at h

/-- Every line ends before the next one begins. -/
theorem SourceLine.pairwise_ofSource (source : String) :
    (ofSource source).Pairwise fun l k => l.stop.start < k.place :=
  pairwise_ofPieces 0 _

/-! ### Tokens -/

namespace Text

theorem wordsFrom_space (place : Nat) {space : List Char} (cs : List Char) (h : IsSpace space) :
    wordsFrom place (space ++ cs) = wordsFrom (place + size space) cs := by
  induction space generalizing place with
  | nil => rfl
  | cons c space ih =>
    obtain ⟨⟨hc, _⟩, hspace⟩ := List.forall_mem_cons.mp h
    rw [List.cons_append, wordsFrom_blank _ _ hc, ih _ hspace, size_cons, Nat.add_assoc]

/-- Between tokens there are no words but those that a comment hides. -/
theorem IsGap.words_eq_nil {before gap after : List Char} (h : IsGap before gap after)
    (place : Nat) : (wordsFrom place gap).takeWhile (!opensComment ·.value.toList) = [] := by
  cases h with
  | space hspace =>
    rw [← List.append_nil gap, wordsFrom_space _ _ hspace, wordsFrom_nil, List.takeWhile_nil]
  | @comment _ body _ hspace _ _ _ =>
    have hopens := (opensComment_cons '/' ('/' :: body)).mpr ⟨rfl, rfl⟩
    rw [wordsFrom_space _ _ hspace, wordsFrom, if_neg (by decide)]
    exact List.takeWhile_cons_of_neg (by simp [hopens])

/-- In front of a word there are blanks only. -/
theorem IsGap.isSpace {before gap run after : List Char} (h : IsGap before gap (run ++ after))
    (hrun : IsRun run) : IsSpace gap := by
  cases h with
  | space hspace => exact hspace
  | comment _ _ _ hafter =>
    obtain ⟨c, run, rfl⟩ := List.exists_cons_of_ne_nil hrun.ne_nil
    exact absurd (hafter c rfl ▸ List.mem_cons_self) hrun.lineFeed

end Text

theorem splitOn_append {sep : Char} {cs : List Char} (h : sep ∉ cs) (ds : List Char) :
    (cs ++ ds).splitOn sep = (ds.splitOn sep).modifyHead (cs ++ ·) := by
  obtain ⟨first, more, hsplit⟩ := List.exists_cons_of_ne_nil (List.splitOn_ne_nil sep ds)
  rw [hsplit, List.modifyHead_cons]
  induction cs with
  | nil => exact hsplit
  | cons c cs ih =>
    obtain ⟨hc, hcs⟩ := List.ne_and_not_mem_of_not_mem_cons h
    rw [List.cons_append, List.splitOn_cons_eq_if_modifyHead, ih hcs, if_neg (by simp [hc.symm])]
    rfl

theorem startsBlank_of_splitOn {cs first : List Char} {more : List (List Char)}
    (h : Text.StartsBlank cs) (hsplit : cs.splitOn '\n' = first :: more) :
    Text.StartsBlank first := by
  have hcs : ['\n'].intercalate (first :: more) = cs := hsplit ▸ List.intercalate_splitOn '\n'
  obtain ⟨rest, hrest⟩ : ∃ rest, cs = first ++ rest := by
    cases more with
    | nil => exact ⟨[], by rw [← hcs, List.intercalate_singleton, List.append_nil]⟩
    | cons next more => exact ⟨_, by rw [← hcs, List.intercalate_cons_cons, List.append_assoc]⟩
  intro c hc
  exact h c (by rw [hrest, List.head?_append, hc]; rfl)

namespace SourceLine

open Text

theorem tokens_ofPieces_cons (place : Nat) (line next : List Char) (more : List (List Char)) :
    tokens (ofPieces place (line :: next :: more)) =
      ((wordsFrom place line).takeWhile (!opensComment ·.value.toList)).map Token.ofWord ++
        ⟨.lineBreak, ⟨place + size line, place + size line + 1⟩⟩ ::
          tokens (ofPieces (place + size line + 1) (next :: more)) := by
  cases more <;> rfl

/-- The first line may go on behind a word. -/
theorem tokens_ofPieces_word (place : Nat) {gap run first : List Char} (more : List (List Char))
    (hgap : IsSpace gap) (hrun : IsRun run) (hopens : opensComment run = false)
    (hfirst : StartsBlank first) :
    tokens (ofPieces place ((gap ++ (run ++ first)) :: more)) =
      Token.ofWord ⟨String.ofList run, ⟨place + size gap, place + size gap + size run⟩⟩ ::
        tokens (ofPieces (place + size gap + size run) (first :: more)) := by
  have hwords : wordsFrom place (gap ++ (run ++ first)) =
      ⟨String.ofList run, ⟨place + size gap, place + size gap + size run⟩⟩ ::
        wordsFrom (place + size gap + size run) first := by
    rw [wordsFrom_space _ _ hgap, wordsFrom_append _ hrun hfirst]
  cases more with
  | nil => simp [ofPieces, tokens, words, hwords, hopens]
  | cons next more =>
    simp [tokens_ofPieces_cons, hwords, hopens, Nat.add_assoc]

/-- What the lexer finds in a text is what stands in its lines. -/
theorem tokens_of_lexed {before cs : List Char} {ts : List (Spanned Token)}
    (h : Lexer.Lexed before cs ts) :
    ts = tokens (ofPieces (size before) (cs.splitOn '\n')) := by
  induction h with
  | @nil before gap hgap =>
    rw [List.splitOn_eq_singleton hgap.lineFeed]
    simp [ofPieces, tokens, words, hgap.words_eq_nil]
  | @cons before gap text rest t ts hgap hstands hlexed ih =>
    obtain ⟨first, more, hsplit⟩ := List.exists_cons_of_ne_nil (List.splitOn_ne_nil '\n' rest)
    rw [hsplit] at ih
    rcases hstands.eq_lineBreak_or with ⟨rfl, rfl⟩ | ⟨rfl, hwhole⟩
    · rw [List.singleton_append, List.splitOn_append_cons_self_of_not_mem hgap.lineFeed, hsplit,
        tokens_ofPieces_cons, hgap.words_eq_nil, ih]
      simp [Nat.add_assoc]
    · have hspace := hgap.isSpace hwhole.isRun
      have hline : (gap ++ (text ++ rest)).splitOn '\n' = (gap ++ (text ++ first)) :: more := by
        rw [splitOn_append hspace.lineFeed, splitOn_append hwhole.isRun.lineFeed, hsplit]
        rfl
      rw [hline, tokens_ofPieces_word _ _ hspace hwhole.isRun hwhole.opens
        (startsBlank_of_splitOn hwhole.startsBlank hsplit), ih]
      simp [Token.ofWord, Nat.add_assoc]

end SourceLine

/-- The tokens of a source are those of its lines. -/
theorem readTokens_eq (source : String) :
    readTokens source = .ok (SourceLine.tokens (SourceLine.ofSource source)) := by
  obtain ⟨tokens, hread, hlexed⟩ := exists_readTokens source
  rw [hread, SourceLine.tokens_of_lexed hlexed]
  rfl

end LocalNames
