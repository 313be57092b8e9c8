/-!
# Decimal digits

Numbers are written as lists of ASCII digits, most significant first, and read back by folding.
Reading undoes writing:

    value_digits : value (digits n) = n.

`digits` never writes a leading zero (apart from the number zero itself), while `value` accepts any
number of them.
-/

namespace HostLisp.Decimal

/-- The digit for `d`, for `d < 10`. -/
def digitChar (d : Nat) : Char := Char.ofNat (48 + d)

/-- The number a digit stands for. -/
def digitValue (c : Char) : Nat := c.toNat - 48

/-- The decimal digits of `n`, most significant first. -/
def digits (n : Nat) : List Char :=
  if n < 10 then [digitChar n] else digits (n / 10) ++ [digitChar (n % 10)]
termination_by n
decreasing_by omega

/-- The number a run of digits stands for. -/
def value (cs : List Char) : Nat := cs.foldl (fun n c => 10 * n + digitValue c) 0

/-- The decimal text of an integer: a minus sign for negative ones, no plus sign. -/
def signed (n : Int) : List Char :=
  if n < 0 then '-' :: digits n.natAbs else digits n.natAbs

/-- `n` in at least `width` digits, padded with zeros in front. -/
def padded (width n : Nat) : List Char :=
  let ds := digits n
  List.replicate (width - ds.length) '0' ++ ds

/-! ### Writing and reading back -/

theorem digitValue_digitChar {d : Nat} (h : d < 10) : digitValue (digitChar d) = d := by
  have : ∀ d : Fin 10, digitValue (digitChar d.val) = d.val := by decide
  exact this ⟨d, h⟩

theorem isDigit_digitChar {d : Nat} (h : d < 10) : (digitChar d).isDigit = true := by
  have : ∀ d : Fin 10, (digitChar d.val).isDigit = true := by decide
  exact this ⟨d, h⟩

theorem value_append_singleton (cs : List Char) (c : Char) :
    value (cs ++ [c]) = 10 * value cs + digitValue c := by
  simp [value]

theorem value_digits (n : Nat) : value (digits n) = n := by
  induction n using Nat.strongRecOn with
  | ind n ih =>
    rw [digits]
    split
    · next h => simp [value, digitValue_digitChar h]
    · next h =>
      rw [value_append_singleton, ih (n / 10) (by omega),
        digitValue_digitChar (Nat.mod_lt _ (by omega))]
      omega

theorem digits_ne_nil (n : Nat) : digits n ≠ [] := by
  rw [digits]; split <;> simp

theorem isDigit_of_mem_digits {n : Nat} {c : Char} (h : c ∈ digits n) : c.isDigit = true := by
  induction n using Nat.strongRecOn with
  | ind n ih =>
    rw [digits] at h
    split at h
    · next hn => rw [List.mem_singleton.1 h]; exact isDigit_digitChar hn
    · next hn =>
      rcases List.mem_append.1 h with h | h
      · exact ih (n / 10) (by omega) h
      · rw [List.mem_singleton.1 h]; exact isDigit_digitChar (Nat.mod_lt _ (by omega))

end HostLisp.Decimal
