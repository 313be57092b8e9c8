import HostLisp.Proofs.Duration.Grammar

/-!
# The amount of a duration

A component means its whole units and its fraction of one, rounded down to whole nanoseconds.  The
reader calculates that with numbers of 128 bits from the first eighteen digits of each fraction.
What it does not check always fits, and what it checks fits if the sum does, so every text that the
grammar allows is read as the sum of its components, up to what 64 bits can hold:

    read_eq_ok_iff : read text = .ok d ↔ ∃ negative parts, Spells negative parts text.toList ∧
      d.nanos = total Component.shownNanos parts ∧ d.nanos < UInt64.size ∧
      (negative = true → d.nanos = 0)

Where no fraction has more than eighteen digits, that is the sum as the text says it.
-/

namespace HostLisp

namespace Decimal

/-! ### Values of digits -/

theorem foldl_value (n : Nat) (cs : List Char) :
    cs.foldl (fun n c => 10 * n + digitValue c) n = n * Nat.pow 10 cs.length + value cs := by
  induction cs generalizing n with
  | nil => simp [value]
  | cons c cs ih =>
    have hpow : Nat.pow 10 (c :: cs).length = Nat.pow 10 cs.length * 10 := rfl
    rw [value, List.foldl_cons, List.foldl_cons, ih, ih (10 * 0 + digitValue c), hpow]
    grind

theorem value_append (as bs : List Char) :
    value (as ++ bs) = value as * Nat.pow 10 bs.length + value bs := by
  unfold value
  rw [List.foldl_append]
  exact foldl_value _ bs

theorem value_lt {cs : List Char} (h : ∀ c ∈ cs, c.isDigit = true) :
    value cs < Nat.pow 10 cs.length := by
  induction cs with
  | nil => exact Nat.one_pos
  | cons c cs ih =>
    obtain ⟨hc, hcs⟩ := List.forall_mem_cons.1 h
    have hdigit : digitValue c ≤ 9 := by
      have hrange : 48 ≤ c.toNat ∧ c.toNat ≤ 57 := by
        simpa [Char.isDigit, UInt32.le_iff_toNat_le] using hc
      unfold digitValue
      omega
    have hvalue : value (c :: cs) = digitValue c * Nat.pow 10 cs.length + value cs := by
      have hone : value [c] = digitValue c := by simp [value]
      rw [← hone, ← value_append, List.singleton_append]
    have hpow : Nat.pow 10 (c :: cs).length = Nat.pow 10 cs.length * 10 := rfl
    have hlt := ih hcs
    have hle := Nat.mul_le_mul_right (Nat.pow 10 cs.length) hdigit
    omega

end Decimal

namespace Duration

/-! ### The amount -/

namespace Component

/-- The whole units and the fraction of one, rounded down. -/
def nanos (c : Component) : Nat :=
  Decimal.value c.whole * c.unit +
    Decimal.value c.fraction * c.unit / Nat.pow 10 c.fraction.length

/-- The component with the digits of its fraction that are looked at. -/
def shown (c : Component) : Component := { c with fraction := c.fraction.take fractionDigits }

/-- What is read of the component. -/
def shownNanos (c : Component) : Nat := c.shown.nanos

end Component

/-- A number for each of the components, added up. -/
def total (f : Component → Nat) : List Component → Nat
  | [] => 0
  | c :: cs => f c + total f cs

variable {c : Component} {parts : List Component} {cs w : List Char} {n t : Nat} {fault : Fault}

theorem total_congr {f g : Component → Nat} (h : ∀ c ∈ parts, f c = g c) :
    total f parts = total g parts := by
  induction parts with
  | nil => rfl
  | cons c parts ih =>
    obtain ⟨hc, hparts⟩ := List.forall_mem_cons.1 h
    rw [total, total, hc, ih hparts]

/-! ### Arithmetic on 128 bits -/

theorem checked_of_lt (h : n < Nat.pow 2 128) : checked n = .ok n := if_pos h

theorem checked_bind {α : Type} (n : Nat) (f : Nat → Except Fault α) :
    (checked n >>= f) = if n < Nat.pow 2 128 then f n else .error .refused := by
  unfold checked
  split <;> rfl

theorem unchecked_of_lt (h : n < Nat.pow 2 128) : unchecked n = .ok n := if_pos h

theorem quotient_of_pos {d : Nat} (h : 0 < d) : quotient n d = .ok (n / d) :=
  if_neg (Nat.ne_of_gt h)

theorem unit_range {u : List Char} (hu : (u, n) ∈ units) :
    0 < n ∧ n ≤ 3600 * 1_000_000_000 := by
  have hall : ∀ p ∈ units, 0 < p.2 ∧ p.2 ≤ 3600 * 1_000_000_000 := by simp [units]
  exact hall _ hu

/-- Eighteen digits times an hour are less than 128 bits can hold. -/
theorem fractionNanos_eq {fs : List Char} {unit : Nat} (hfs : IsDigits fs)
    (hunit : unit ≤ 3600 * 1_000_000_000) :
    fractionNanos fs unit = .ok (Decimal.value (fs.take fractionDigits) * unit /
      Nat.pow 10 (fs.take fractionDigits).length) := by
  unfold fractionNanos
  generalize hds : fs.take fractionDigits = ds
  have hdigits : IsDigits ds := hds ▸ fun c hc => hfs c (List.mem_of_mem_take hc)
  have hlen : ds.length ≤ 18 := hds ▸ List.length_take_le _ _
  dsimp only
  split
  · next hempty =>
    obtain rfl := List.isEmpty_iff.1 hempty
    simp [Decimal.value]
  · have hvalue := Decimal.value_lt hdigits
    have hpow : Nat.pow 10 ds.length ≤ 1_000_000_000_000_000_000 :=
      Nat.pow_le_pow_right (by decide) hlen
    have hscaled : Decimal.value ds * unit ≤ 1_000_000_000_000_000_000 * (3600 * 1_000_000_000) :=
      Nat.mul_le_mul (by omega) hunit
    have hwide : 1_000_000_000_000_000_000 * (3600 * 1_000_000_000) < Nat.pow 2 128 := by decide
    rw [checked_of_lt (by omega)]
    show (unchecked (Decimal.value ds * unit) >>= _) = _
    rw [unchecked_of_lt (Nat.lt_of_le_of_lt hscaled hwide)]
    show (unchecked (Nat.pow 10 ds.length) >>= _) = _
    rw [unchecked_of_lt (by omega)]
    exact quotient_of_pos (Nat.pow_pos (by decide))

/-! ### Sums -/

namespace Component

theorem hasDigits_iff : c.HasDigits ↔ (c.whole.isEmpty && c.fraction.isEmpty) = false := by
  unfold HasDigits
  cases c.whole <;> cases c.fraction <;> simp

/-- A sum is refused as soon as a part of it does not fit, and then the whole does not. -/
theorem Written.addTo_eq (h : c.Written w) (hc : c.HasDigits) (t : Nat) :
    c.addTo t = checked (t + c.shownNanos) := by
  obtain ⟨u, hu⟩ := h.unit
  obtain ⟨hpos, hle⟩ := unit_range hu
  have hwhole := Nat.le_mul_of_pos_right (Decimal.value c.whole) hpos
  unfold addTo
  rw [hasDigits_iff.1 hc, fractionNanos_eq h.isDigits.2 hle]
  unfold shownNanos shown nanos
  generalize Decimal.value (c.fraction.take fractionDigits) * c.unit /
    Nat.pow 10 (c.fraction.take fractionDigits).length = part
  show (checked (Decimal.value c.whole) >>= fun whole => checked (whole * c.unit) >>= fun nanos =>
    checked (nanos + part) >>= fun nanos => checked (t + nanos)) = _
  simp only [checked_bind]
  generalize Decimal.value c.whole * c.unit = amount at *
  by_cases hfit : t + (amount + part) < Nat.pow 2 128
  · rw [if_pos (by omega), if_pos (by omega), if_pos (by omega)]
  · have hrefused : checked (t + (amount + part)) = .error .refused := if_neg hfit
    simp only [hrefused, ite_self]

theorem addTo_of_not_hasDigits (hc : ¬ c.HasDigits) (t : Nat) : c.addTo t = .error .refused := by
  have hempty : (c.whole.isEmpty && c.fraction.isEmpty) = true := by
    rwa [hasDigits_iff, Bool.not_eq_false] at hc
  unfold addTo
  rw [hempty]
  rfl

end Component

/-- The sum of a row is the amount of its components, unless one of them has no digits or the sum
does not fit.  The induction is on the row, the sum so far is arbitrary. -/
theorem Row.sum_eq (h : Row parts cs) (ht : t < Nat.pow 2 128) :
    (∀ c ∈ parts, c.HasDigits) ∧ sum t parts = checked (t + total Component.shownNanos parts) ∨
      (∃ c ∈ parts, ¬ c.HasDigits) ∧ sum t parts = .error .refused := by
  induction h generalizing t with
  | nil => exact .inl ⟨nofun, (checked_of_lt ht).symm⟩
  | @cons c parts w r hw hr ih =>
    have hsum : sum t (c :: parts) = (c.addTo t >>= fun t => sum t parts) := rfl
    by_cases hc : c.HasDigits
    · rw [hsum, hw.addTo_eq hc, checked_bind, total, ← Nat.add_assoc]
      by_cases hfit : t + c.shownNanos < Nat.pow 2 128
      · rw [if_pos hfit]
        obtain ⟨hall, heq⟩ | ⟨⟨c', hc', hnot⟩, heq⟩ := ih hfit
        · exact .inl ⟨List.forall_mem_cons.2 ⟨hc, hall⟩, heq⟩
        · exact .inr ⟨⟨c', List.mem_cons_of_mem c hc', hnot⟩, heq⟩
      · rw [if_neg hfit]
        by_cases hall : ∀ c ∈ parts, c.HasDigits
        · refine .inl ⟨List.forall_mem_cons.2 ⟨hc, hall⟩, (if_neg ?_).symm⟩
          omega
        · obtain ⟨c', hc', hnot⟩ : ∃ c ∈ parts, ¬ c.HasDigits := by simpa using hall
          exact .inr ⟨⟨c', List.mem_cons_of_mem c hc', hnot⟩, rfl⟩
    · refine .inr ⟨⟨c, List.mem_cons_self, hc⟩, ?_⟩
      rw [hsum, Component.addTo_of_not_hasDigits hc]
      rfl

/-! ### Texts -/

/-- A text without a magnitude is refused, and nothing else goes wrong. -/
theorem readMagnitude_cases (cs : List Char) :
    (∃ parts, Magnitude parts cs ∧
        readMagnitude cs = checked (total Component.shownNanos parts)) ∨
      (¬ ∃ parts, Magnitude parts cs) ∧ readMagnitude cs = .error .refused := by
  unfold readMagnitude
  split
  · next hzero =>
    subst hzero
    exact .inl ⟨[], .zero, (checked_of_lt (by decide)).symm⟩
  · next hzero =>
    have hmagnitude : ∀ parts, Magnitude parts cs ↔
        parts ≠ [] ∧ (∀ c ∈ parts, c.HasDigits) ∧ readComponents? cs = some parts := by
      intro parts
      simp [magnitude_iff, hzero]
    split
    · next hnone =>
      refine .inr ⟨fun ⟨parts, h⟩ => ?_, rfl⟩
      exact nomatch hnone.symm.trans ((hmagnitude parts).1 h).2.2
    · next hnil =>
      refine .inr ⟨fun ⟨parts, h⟩ => ?_, rfl⟩
      obtain ⟨hne, -, hread⟩ := (hmagnitude parts).1 h
      cases hnil.symm.trans hread
      exact hne rfl
    · next parts hne hread =>
      obtain ⟨hdigits, hsum⟩ | ⟨⟨c, hc, hnot⟩, hsum⟩ :=
        (readComponents?_sound hread).sum_eq (t := 0) (by decide)
      · rw [Nat.zero_add] at hsum
        exact .inl ⟨parts, (hmagnitude parts).2 ⟨hne, hdigits, hread⟩, hsum⟩
      · refine .inr ⟨fun ⟨parts', h⟩ => ?_, hsum⟩
        obtain ⟨-, hdigits, hread'⟩ := (hmagnitude parts').1 h
        cases hread.symm.trans hread'
        exact hnot (hdigits c hc)

theorem readMagnitude_error (h : readMagnitude cs = .error fault) : fault = .refused := by
  obtain ⟨parts, -, heq⟩ | ⟨-, heq⟩ := readMagnitude_cases cs
  · rw [heq, checked] at h
    split at h
    · cases h
    · cases h
      rfl
  · cases heq.symm.trans h
    rfl

theorem readMagnitude_eq_ok_iff :
    readMagnitude cs = .ok n ↔
      ∃ parts, Magnitude parts cs ∧ n = total Component.shownNanos parts ∧ n < Nat.pow 2 128 := by
  obtain ⟨parts, hparts, heq⟩ | ⟨hnone, heq⟩ := readMagnitude_cases cs
  · have hunique : ∀ parts', Magnitude parts' cs → parts' = parts := by
      intro parts' h
      exact h.unique hparts
    rw [heq, checked]
    constructor
    · intro h
      split at h
      · next hfit =>
        cases h
        exact ⟨parts, hparts, rfl, hfit⟩
      · cases h
    · rintro ⟨parts', h, rfl, hfit⟩
      obtain rfl := hunique parts' h
      exact if_pos hfit
  · rw [heq]
    constructor
    · nofun
    · rintro ⟨parts, h, -⟩
      exact absurd ⟨parts, h⟩ hnone

/-- The calculation never breaks down. -/
theorem read_ne_broken (text : String) (fault : Fault) : read text ≠ .error (.broken fault) := by
  unfold read
  dsimp only
  split
  · nofun
  · next fault' hne h => exact absurd (readMagnitude_error h) hne
  · split
    · nofun
    split <;> nofun

/-- A text is read as the sum of its components, as far as their digits are looked at. -/
theorem read_eq_ok_iff {text : String} {d : Duration} :
    read text = .ok d ↔ ∃ negative parts, Spells negative parts text.toList ∧
      d.nanos = total Component.shownNanos parts ∧ d.nanos < UInt64.size ∧
      (negative = true → d.nanos = 0) := by
  simp only [spells_iff]
  unfold read
  dsimp only
  generalize (Decimal.splitSign text.toList).1 = sign
  constructor
  · intro h
    split at h
    · cases h
    · cases h
    · next n hn =>
      obtain ⟨parts, hparts, rfl, -⟩ := readMagnitude_eq_ok_iff.1 hn
      split at h
      · cases h
      · next hsign =>
        split at h
        · next hfit =>
          cases h
          refine ⟨sign, parts, ⟨rfl, hparts⟩, rfl, hfit, fun hneg => ?_⟩
          simpa [hneg] using hsign
        · cases h
  · rintro ⟨negative, parts, ⟨rfl, hparts⟩, hnanos, hfit, hsign⟩
    have hwide : d.nanos < Nat.pow 2 128 := Nat.lt_trans hfit (by decide)
    have hread := readMagnitude_eq_ok_iff.2 ⟨parts, hparts, hnanos, hwide⟩
    split
    · next h => cases h.symm.trans hread
    · next h => cases h.symm.trans hread
    · next n hn =>
      cases hn.symm.trans hread
      have hpositive : ¬ (sign && decide (0 < d.nanos)) = true := by
        simpa using hsign
      rw [if_neg hpositive, dif_pos hfit]

/-! ### Short fractions -/

/-- Behind no point there are more than `n` digits. -/
def fractionsWithin (n : Nat) : List Char → Bool
  | [] => true
  | c :: cs => (c != '.' || decide ((cs.takeWhile Char.isDigit).length ≤ n)) && fractionsWithin n cs

theorem fractionsWithin_of_append {r : List Char} (h : fractionsWithin n (w ++ r) = true) :
    fractionsWithin n r = true := by
  induction w with
  | nil => exact h
  | cons c w ih => exact ih (Bool.and_eq_true_iff.1 h).2

theorem Component.Written.fraction_length_le {r : List Char} (h : c.Written w)
    (hn : fractionsWithin n (w ++ r) = true) : c.fraction.length ≤ n := by
  cases h with
  | whole => exact Nat.zero_le n
  | @point ds fs u m hds hfs hu =>
    rw [List.append_assoc, List.cons_append, List.append_assoc] at hn
    obtain ⟨hpoint, -⟩ := Bool.and_eq_true_iff.1 (fractionsWithin_of_append hn)
    obtain ⟨d, t, heq, hdigit, -⟩ := head_unit hu r
    have htake := (hfs.span (k := d :: t) (by simp [hdigit])).1
    rw [heq, htake] at hpoint
    simpa using hpoint

theorem Row.fraction_length_le (h : Row parts cs) (hn : fractionsWithin n cs = true) :
    ∀ c ∈ parts, c.fraction.length ≤ n := by
  induction h with
  | nil => nofun
  | cons hw _ ih =>
    exact List.forall_mem_cons.2 ⟨hw.fraction_length_le hn, ih (fractionsWithin_of_append hn)⟩

theorem Spells.fraction_length_le {negative : Bool} (h : Spells negative parts cs)
    (hn : fractionsWithin n cs = true) : ∀ c ∈ parts, c.fraction.length ≤ n := by
  obtain ⟨before, r, rfl, hrow⟩ := h.exists_row
  exact hrow.fraction_length_le (fractionsWithin_of_append hn)

theorem Component.shownNanos_of_length_le (h : c.fraction.length ≤ fractionDigits) :
    c.shownNanos = c.nanos := by
  unfold shownNanos shown
  rw [List.take_of_length_le h]

/-- Reading accepts the texts of the grammar without a minus sign in front of anything but nothing
at all, up to what 64 bits can hold, and gives the sum of their components; the calculation never
breaks down, whatever the text. -/
theorem read_exact (text : String) :
    (∀ fault, read text ≠ .error (.broken fault)) ∧
      (fractionsWithin 18 text.toList = true → ∀ d : Duration,
        read text = .ok d ↔ ∃ negative parts, Spells negative parts text.toList ∧
          d.nanos = total Component.nanos parts ∧ d.nanos < UInt64.size ∧
          (negative = true → d.nanos = 0)) := by
  refine ⟨read_ne_broken text, fun hshort d => ?_⟩
  have hshown {negative : Bool} {parts : List Component}
      (h : Spells negative parts text.toList) :
      total Component.shownNanos parts = total Component.nanos parts :=
    total_congr fun c hc => Component.shownNanos_of_length_le (h.fraction_length_le hshort c hc)
  rw [read_eq_ok_iff]
  constructor
  · rintro ⟨negative, parts, hspells, hnanos, hfit⟩
    rw [hshown hspells] at hnanos
    exact ⟨negative, parts, hspells, hnanos, hfit⟩
  · rintro ⟨negative, parts, hspells, hnanos, hfit⟩
    refine ⟨negative, parts, hspells, ?_, hfit⟩
    rwa [hshown hspells]

/-- An hour and a half, and the smallest fraction of a minute, of which nothing is left. -/
theorem read_exact_mixed :
    read "1.5h.000000000000000001m" = .ok ⟨5_400_000_000_000, by decide⟩ := by
  have hour : (['h'], 3600 * 1_000_000_000) ∈ units := by decide
  have minute : (['m'], 60 * 1_000_000_000) ∈ units := by decide
  have hrow : Row [⟨['1'], ['5'], 3600 * 1_000_000_000⟩,
      ⟨[], "000000000000000001".toList, 60 * 1_000_000_000⟩] "1.5h.000000000000000001m".toList :=
    .cons (.point (by simp [IsDigits]) (by simp [IsDigits]) hour)
      (.cons (.point (by simp [IsDigits]) (by simp [IsDigits]) minute) .nil)
  refine ((read_exact _).2 (by decide) _).2 ⟨false, _, .unsigned (.row (by simp) ?_ hrow), ?_⟩
  · simp [Component.HasDigits]
  · exact ⟨by decide, by decide, nofun⟩

end Duration

end HostLisp
