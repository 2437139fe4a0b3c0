/-! Identities of local variables. One slot may hold several variables in turn, which its
versions tell apart; names are handed out by slot first and by version second. -/

namespace LocalNames

structure VarId where
  slot : UInt32
  version : UInt32
  deriving DecidableEq

namespace VarId

instance : Ord VarId where
  compare := compareLex (compareOn slot) (compareOn version)

instance : Std.TransOrd VarId :=
  inferInstanceAs (Std.TransCmp (compareLex (compareOn slot) (compareOn version)))

theorem compare_eq (a b : VarId) :
    compare a b = (compare a.slot b.slot).then (compare a.version b.version) := rfl

instance : Std.LawfulEqOrd VarId where
  eq_of_compare {a b} h := by
    rw [compare_eq, Ordering.then_eq_eq] at h
    cases a; cases b
    rw [mk.injEq]
    exact ⟨Std.LawfulEqOrd.eq_of_compare h.1, Std.LawfulEqOrd.eq_of_compare h.2⟩

def text (v : VarId) : String :=
  toString v.slot ++ "_" ++ toString v.version

end VarId

end LocalNames
