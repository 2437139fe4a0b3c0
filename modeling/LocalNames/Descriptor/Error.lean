import LocalNames.Text.Quoted

/-! Why a text is no method descriptor. -/

namespace LocalNames

/-- What could stand at a place instead: a character, or the end of the descriptor. -/
inductive Expectation
  | char (c : Char)
  | ending
  deriving DecidableEq

def Expectation.text : Expectation → String
  | char c => "'" ++ c.toString ++ "'"
  | ending => "end of descriptor"

namespace Expectation

/-- The order of the texts. -/
def rank : Expectation → Nat
  | char c => c.toNat
  | ending => 0x110000

theorem rank_lt_ending (c : Char) : (char c).rank < ending.rank := by
  have hc := c.valid
  simp only [UInt32.isValidChar, Nat.isValidChar] at hc
  show c.val.toNat < 0x110000
  omega

theorem rank_inj {e f : Expectation} : e.rank = f.rank ↔ e = f := by
  refine ⟨fun h => ?_, fun h => h ▸ rfl⟩
  cases e with
  | char c =>
    cases f with
    | char d => exact congrArg char (Char.toNat_inj.mp h)
    | ending => exact absurd h (Nat.ne_of_lt (rank_lt_ending c))
  | ending =>
    cases f with
    | char d => exact absurd h (Nat.ne_of_gt (rank_lt_ending d))
    | ending => rfl

theorem text_lt_text {e f : Expectation} (h : e.rank < f.rank) : e.text < f.text := by
  rw [String.lt_iff]
  cases e with
  | char c =>
    cases f with
    | char d =>
      have hcd : c < d := h
      simpa [text] using List.Lex.rel hcd
    | ending =>
      simp only [text, String.toList_append]
      exact .rel (by decide)
  | ending =>
    cases f with
    | char d => exact absurd h (Nat.lt_asymm (rank_lt_ending d))
    | ending => exact absurd h (Nat.lt_irrefl _)

/-- Adds an expectation to others that are listed in the order of their texts. -/
def insert (e : Expectation) : List Expectation → List Expectation
  | [] => [e]
  | f :: fs =>
    if e = f then f :: fs
    else if e.rank < f.rank then e :: f :: fs
    else f :: insert e fs

theorem mem_insert {e f : Expectation} {fs : List Expectation} :
    e ∈ insert f fs ↔ e = f ∨ e ∈ fs := by
  induction fs with
  | nil => exact List.mem_cons
  | cons g gs ih =>
    rw [insert]
    split
    · next he => simp [he]
    · split
      · rw [List.mem_cons]
      · rw [List.mem_cons, ih, List.mem_cons]
        exact or_left_comm

theorem pairwise_insert (e : Expectation) {fs : List Expectation}
    (h : fs.Pairwise (·.rank < ·.rank)) : (insert e fs).Pairwise (·.rank < ·.rank) := by
  induction fs with
  | nil => exact List.pairwise_singleton _ _
  | cons f fs ih =>
    obtain ⟨hf, hfs⟩ := List.pairwise_cons.mp h
    rw [insert]
    split
    · exact h
    · next hne =>
      have hrank := mt rank_inj.mp hne
      split
      · next hlt =>
        refine List.pairwise_cons.mpr ⟨List.forall_mem_cons.mpr ⟨hlt, fun g hg => ?_⟩, h⟩
        exact Nat.lt_trans hlt (hf g hg)
      · refine List.pairwise_cons.mpr ⟨fun g hg => ?_, ih hfs⟩
        obtain rfl | hg := mem_insert.mp hg
        · omega
        · exact hf g hg

end Expectation

inductive DescriptorError
  /-- The character at `offset`, counted in characters, has no place there. -/
  | unexpectedChar (descriptor : String) (expected : List Expectation) (found : Char)
      (offset : Nat)
  | unexpectedEnd (descriptor : String) (expected : List Expectation)
  deriving DecidableEq

namespace DescriptorError

def message : DescriptorError → String
  | unexpectedChar descriptor _ found offset =>
    "Unexpected " ++ Text.quotedChar found ++ " at offset " ++ toString offset ++
      " in method descriptor " ++ Text.quoted descriptor
  | unexpectedEnd descriptor _ =>
    "Method descriptor " ++ Text.quoted descriptor ++ " ends unexpectedly"

def expected : DescriptorError → List Expectation
  | unexpectedChar _ expected _ _ => expected
  | unexpectedEnd _ expected => expected

def help (e : DescriptorError) : String :=
  "Expected one of: " ++ ", ".intercalate (e.expected.map (·.text))

end DescriptorError

end LocalNames
