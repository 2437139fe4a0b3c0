/-! Unsigned decimal numbers that fit 32 bits. -/

namespace LocalNames.Text

/-- The number written by ASCII digits, of which there is at least one. -/
def decimal? (cs : List Char) : Option Nat :=
  if cs.isEmpty then none
  else if cs.all Char.isDigit then some (Nat.ofDigitChars 10 cs 0)
  else none

def withoutPlus : List Char → List Char
  | '+' :: cs => cs
  | cs => cs

/-- The number written by a word; one plus sign may stand in front. -/
def word32? (word : String) : Option UInt32 :=
  (decimal? (withoutPlus word.toList)).bind fun n =>
    if h : n < UInt32.size then some (.ofNatLT n h) else none

theorem decimal?_toDigits (n : Nat) : decimal? (Nat.toDigits 10 n) = some n := by
  have hd : (Nat.toDigits 10 n).all Char.isDigit = true :=
    List.all_eq_true.mpr fun _ h => Nat.isDigit_of_mem_toDigits (by decide) (by decide) h
  rw [decimal?, if_neg (by simp [Nat.toDigits_ne_nil]), if_pos hd, Nat.ofDigitChars_ten_toDigits]

theorem withoutPlus_toDigits (n : Nat) : withoutPlus (Nat.toDigits 10 n) = Nat.toDigits 10 n := by
  have hp : '+' ∉ Nat.toDigits 10 n := fun h =>
    absurd (Nat.isDigit_of_mem_toDigits (by decide) (by decide) h) (by decide)
  unfold withoutPlus
  split
  · next cs he => exact absurd (by simp [he]) hp
  · rfl

/-- Numbers are read back as they are written. -/
@[simp]
theorem word32?_toString (n : UInt32) : word32? (toString n) = some n := by
  have hs : (toString n).toList = Nat.toDigits 10 n.toNat := Nat.toList_repr
  simp [word32?, hs, withoutPlus_toDigits, decimal?_toDigits, n.toNat_lt_size]

end LocalNames.Text
