/-!
# Classes of characters

A class of characters is written as the ranges of code points it consists of.  The properties of
the Unicode standard, version 17, that this library needs are such tables (`Text.Blank`,
`Text.Alphanumeric`, `Text.Graphic`); here is what it means to belong to one:

    mem_iff : cls.has c = true ↔ ∃ r ∈ cls.ranges, r.1 ≤ c.toNat ∧ c.toNat ≤ r.2.
-/

namespace HostLisp.Text

/-- A class of characters: inclusive ranges of code points. -/
structure CharClass where
  ranges : List (Nat × Nat)

namespace CharClass

/-- `c` lies in one of the ranges. -/
def has (cls : CharClass) (c : Char) : Bool :=
  cls.ranges.any fun r => decide (r.1 ≤ c.toNat) && decide (c.toNat ≤ r.2)

theorem mem_iff {cls : CharClass} {c : Char} :
    cls.has c = true ↔ ∃ r ∈ cls.ranges, r.1 ≤ c.toNat ∧ c.toNat ≤ r.2 := by
  simp [has]

end CharClass

end HostLisp.Text
