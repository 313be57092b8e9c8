import HostLisp.Proofs.Duration.Amount

/-!
# Long fractions

The digits of a fraction that are not looked at are lost if what they stand for, together with what
the digits in front of them leave of a nanosecond, makes up a whole one: the carry,

    nanos_eq : c.nanos = c.shownNanos + c.carry

Units up to the second divide the number that eighteen digits count up to, and have no carry.  A
minute and an hour do not divide it, and there a carry of one is possible.  A duration is short of
its text by the carries of its components.
-/

namespace HostLisp.Duration

/-- A quotient by `p * q`, with what counts in units of `q` divided first. -/
theorem div_mul_split {p q : Nat} (hp : 0 < p) (hq : 0 < q) (d t u : Nat) :
    (d * q + t) * u / (p * q) = d * u / p + (d * u % p * q + t * u) / (p * q) := by
  have hdiv := Nat.div_add_mod (d * u) p
  calc (d * q + t) * u / (p * q)
    _ = (d * u * q + t * u) / (p * q) := by
      congr 1
      grind
    _ = (d * u % p * q + t * u + d * u / p * (p * q)) / (p * q) := by
      congr 1
      grind
    _ = d * u / p + (d * u % p * q + t * u) / (p * q) := by
      rw [Nat.add_mul_div_right _ _ (Nat.mul_pos hp hq), Nat.add_comm]

namespace Component

variable {c : Component} {w : List Char}

/-- The digits of the fraction that are not looked at. -/
def tail (c : Component) : List Char := c.fraction.drop fractionDigits

/-- What is left of a nanosecond by the digits that are looked at and the other digits make up so
many whole ones. -/
def carry (c : Component) : Nat :=
  (Decimal.value c.shown.fraction * c.unit % Nat.pow 10 c.shown.fraction.length *
      Nat.pow 10 c.tail.length + Decimal.value c.tail * c.unit) /
    (Nat.pow 10 c.shown.fraction.length * Nat.pow 10 c.tail.length)

theorem nanos_eq (c : Component) : c.nanos = c.shownNanos + c.carry := by
  have hsplit : c.fraction = c.shown.fraction ++ c.tail := (List.take_append_drop _ _).symm
  have hvalue : Decimal.value c.fraction =
      Decimal.value c.shown.fraction * Nat.pow 10 c.tail.length + Decimal.value c.tail := by
    rw [hsplit, Decimal.value_append]
  have hpow : Nat.pow 10 c.fraction.length =
      Nat.pow 10 c.shown.fraction.length * Nat.pow 10 c.tail.length := by
    rw [hsplit, List.length_append]
    exact Nat.pow_add 10 _ _
  have hpos (n : Nat) : 0 < Nat.pow 10 n := Nat.pow_pos (by decide)
  unfold nanos
  rw [hvalue, hpow, div_mul_split (hpos _) (hpos _), ← Nat.add_assoc]
  rfl

/-- Without digits that are not looked at nothing is lost. -/
theorem carry_of_short (h : c.fraction.length ≤ fractionDigits) : c.carry = 0 := by
  have htail : c.tail = [] := List.drop_eq_nil_of_le h
  have hpos : 0 < Nat.pow 10 c.shown.fraction.length := Nat.pow_pos (by decide)
  unfold carry
  rw [htail]
  show (_ % Nat.pow 10 c.shown.fraction.length * 1 + 0 * c.unit) /
    (Nat.pow 10 c.shown.fraction.length * 1) = 0
  rw [Nat.zero_mul, Nat.add_zero, Nat.mul_one, Nat.mul_one]
  exact Nat.div_eq_of_lt (Nat.mod_lt _ hpos)

/-- The carry of a long fraction, with the number that eighteen digits count up to. -/
theorem carry_of_long (h : fractionDigits < c.fraction.length) :
    c.carry = (Decimal.value c.shown.fraction * c.unit % 1_000_000_000_000_000_000 *
      Nat.pow 10 c.tail.length + Decimal.value c.tail * c.unit) /
        (1_000_000_000_000_000_000 * Nat.pow 10 c.tail.length) := by
  have hlen : c.shown.fraction.length = 18 := List.length_take_of_le (Nat.le_of_lt h)
  unfold carry
  rw [hlen]

theorem Written.value_tail_lt (h : c.Written w) :
    Decimal.value c.tail < Nat.pow 10 c.tail.length :=
  Decimal.value_lt fun d hd => h.isDigits.2 d (List.mem_of_mem_drop hd)

theorem Written.carry_le_one (h : c.Written w) : c.carry ≤ 1 := by
  obtain hlong | hshort := Nat.lt_or_ge fractionDigits c.fraction.length
  · obtain ⟨u, hu⟩ := h.unit
    have htail := h.value_tail_lt
    have hunit : c.unit ≤ 1_000_000_000_000_000_000 := Nat.le_trans (unit_range hu).2 (by decide)
    have hrest := Nat.mod_lt (Decimal.value c.shown.fraction * c.unit)
      (show 0 < 1_000_000_000_000_000_000 by decide)
    rw [carry_of_long hlong]
    generalize Nat.pow 10 c.tail.length = q at *
    have h₁ := Nat.mul_le_mul_right q (Nat.le_of_lt hrest)
    have h₂ := Nat.mul_lt_mul_of_lt_of_le htail hunit (by decide)
    refine Nat.lt_succ_iff.1 (Nat.div_lt_of_lt_mul ?_)
    omega
  · rw [carry_of_short hshort]
    exact Nat.zero_le 1

/-- A unit that divides the number that eighteen digits count up to has no carry: what they leave of
a nanosecond has room for one more of them. -/
theorem Written.carry_of_dvd (h : c.Written w) (hdvd : c.unit ∣ 1_000_000_000_000_000_000) :
    c.carry = 0 := by
  obtain hlong | hshort := Nat.lt_or_ge fractionDigits c.fraction.length
  · obtain ⟨u, hu⟩ := h.unit
    obtain ⟨m, hm⟩ := hdvd
    have htail := h.value_tail_lt
    have hpos := (unit_range hu).1
    rw [carry_of_long hlong, hm, Nat.mul_comm c.unit m, Nat.mul_mod_mul_right]
    generalize Nat.pow 10 c.tail.length = q at *
    generalize Decimal.value c.shown.fraction = d
    have hroom : d % m + 1 ≤ m := Nat.mod_lt _ (Nat.pos_of_ne_zero fun h => by simp [h] at hm)
    refine Nat.div_eq_of_lt ?_
    calc d % m * c.unit * q + Decimal.value c.tail * c.unit
      _ < d % m * c.unit * q + q * c.unit :=
        Nat.add_lt_add_left (Nat.mul_lt_mul_of_pos_right htail hpos) _
      _ = (d % m + 1) * (c.unit * q) := by grind
      _ ≤ m * (c.unit * q) := Nat.mul_le_mul_right _ hroom
      _ = m * c.unit * q := (Nat.mul_assoc _ _ _).symm
  · exact carry_of_short hshort

theorem unit_cases {u : List Char} {n : Nat} (hu : (u, n) ∈ units) :
    n ∣ 1_000_000_000_000_000_000 ∨ n = 60 * 1_000_000_000 ∨ n = 3600 * 1_000_000_000 := by
  have hall : ∀ p ∈ units, p.2 ∣ 1_000_000_000_000_000_000 ∨ p.2 = 60 * 1_000_000_000 ∨
      p.2 = 3600 * 1_000_000_000 := by decide
  exact hall _ hu

end Component

theorem total_nanos (parts : List Component) :
    total Component.nanos parts =
      total Component.shownNanos parts + total Component.carry parts := by
  induction parts with
  | nil => rfl
  | cons c parts ih =>
    rw [total, total, total, ih, c.nanos_eq]
    omega

theorem total_eq_zero_iff {f : Component → Nat} {parts : List Component} :
    total f parts = 0 ↔ ∀ c ∈ parts, f c = 0 := by
  induction parts with
  | nil => exact ⟨nofun, fun _ => rfl⟩
  | cons c parts ih => rw [total, Nat.add_eq_zero_iff, ih, List.forall_mem_cons]

/-- What is read is the sum that the text says less the carries of its components: at most one each,
and none but those of minutes and hours with more than eighteen digits behind the point. -/
theorem read_carry {text : String} {d : Duration} (h : read text = .ok d) :
    (∃ negative parts, Spells negative parts text.toList) ∧
      ∀ negative parts, Spells negative parts text.toList →
        total Component.nanos parts = d.nanos + total Component.carry parts ∧
        (d.nanos = total Component.nanos parts ↔ ∀ c ∈ parts, c.carry = 0) ∧
        ∀ c ∈ parts, c.carry ≤ 1 ∧
          (c.carry ≠ 0 → 18 < c.fraction.length ∧
            (c.unit = 60 * 1_000_000_000 ∨ c.unit = 3600 * 1_000_000_000)) := by
  obtain ⟨negative, parts, hspells, hnanos, -⟩ := read_eq_ok_iff.1 h
  refine ⟨⟨negative, parts, hspells⟩, fun negative' parts' hspells' => ?_⟩
  obtain rfl : parts' = parts := hspells'.unique hspells
  have htotal : total Component.nanos parts' =
      d.nanos + total Component.carry parts' := by
    rw [hnanos]
    exact total_nanos parts'
  refine ⟨htotal, ?_, fun c hc => ?_⟩
  · rw [htotal, ← total_eq_zero_iff]
    omega
  · obtain ⟨before, r, -, hrow⟩ := hspells.exists_row
    obtain ⟨w, hw⟩ := hrow.written c hc
    obtain ⟨u, hu⟩ := hw.unit
    refine ⟨hw.carry_le_one, fun hcarry => ⟨?_, ?_⟩⟩
    · exact Nat.lt_of_not_le fun hshort => hcarry (Component.carry_of_short hshort)
    · exact (Component.unit_cases hu).resolve_left fun hdvd => hcarry (hw.carry_of_dvd hdvd)

/-- An hour and a minute with nineteen digits each lose a nanosecond each. -/
theorem read_carry_twice :
    ∃ d parts, read ".0000000000002777778h0.0000000000166666667m1.5s" = .ok d ∧
      d.nanos = 1_500_000_000 ∧ total Component.carry parts = 2 ∧
      total Component.nanos parts = d.nanos + total Component.carry parts := by
  have hour : (['h'], 3600 * 1_000_000_000) ∈ units := by decide
  have minute : (['m'], 60 * 1_000_000_000) ∈ units := by decide
  have second : (['s'], 1_000_000_000) ∈ units := by decide
  have hrow : Row [⟨[], "0000000000002777778".toList, 3600 * 1_000_000_000⟩,
      ⟨['0'], "0000000000166666667".toList, 60 * 1_000_000_000⟩, ⟨['1'], ['5'], 1_000_000_000⟩]
      ".0000000000002777778h0.0000000000166666667m1.5s".toList :=
    .cons (.point (by simp [IsDigits]) (by simp [IsDigits]) hour)
      (.cons (.point (by simp [IsDigits]) (by simp [IsDigits]) minute)
        (.cons (.point (by simp [IsDigits]) (by simp [IsDigits]) second) .nil))
  have hspells := Spells.unsigned (.row (by simp) (by simp [Component.HasDigits]) hrow)
  have hread : read ".0000000000002777778h0.0000000000166666667m1.5s" =
      .ok ⟨1_500_000_000, by decide⟩ :=
    read_eq_ok_iff.2 ⟨false, _, hspells, by decide, by decide, by decide⟩
  exact ⟨_, _, hread, rfl, by decide, ((read_carry hread).2 false _ hspells).1⟩

/-- By all its digits this fraction of a minute is one nanosecond and a bit; none is read. -/
theorem read_carry_minute :
    read "0.0000000000166666667m" = .ok ⟨0, by decide⟩ ∧
      Spells false [⟨['0'], "0000000000166666667".toList, 60 * 1_000_000_000⟩]
        "0.0000000000166666667m".toList ∧
      total Component.nanos [⟨['0'], "0000000000166666667".toList, 60 * 1_000_000_000⟩] = 1 := by
  have minute : (['m'], 60 * 1_000_000_000) ∈ units := by decide
  have hrow : Row [⟨['0'], "0000000000166666667".toList, 60 * 1_000_000_000⟩]
      "0.0000000000166666667m".toList :=
    .cons (.point (by simp [IsDigits]) (by simp [IsDigits]) minute) .nil
  have hspells := Spells.unsigned (.row (by simp) (by simp [Component.HasDigits]) hrow)
  exact ⟨read_eq_ok_iff.2 ⟨false, _, hspells, by decide, by decide, by decide⟩, hspells, by decide⟩

end HostLisp.Duration
