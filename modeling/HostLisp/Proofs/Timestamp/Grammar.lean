import HostLisp.Proofs.Duration.Grammar
import HostLisp.Time.Timestamp

/-!
# The grammar of timestamps

A timestamp is a date, a `T`, `t` or blank, a time of the day, an optional fraction of a second, and
an offset.  Numbers have a fixed number of digits, and what is behind a fraction begins with no
digit, so a text is taken apart in the only way there is:

    readStamp?_eq_some_iff : readStamp? cs = some (s, r) ↔ ∃ w, Spells s w ∧ cs = w ++ r
-/

namespace HostLisp.Timestamp

open Duration (IsDigits isDigits_takeWhile)

/-! ### The grammar -/

/-- `n` digits and the number they stand for. -/
inductive Fixed (n : Nat) : Nat → List Char → Prop where
  | mk {ds : List Char} (hlen : ds.length = n) (hds : IsDigits ds) : Fixed n (Decimal.value ds) ds

/-- A number of `width` digits and two of two digits, separated. -/
inductive Three (width : Nat) (separator : Char) : Nat × Nat × Nat → List Char → Prop where
  | mk {a b c : Nat} {as bs cs : List Char} (ha : Fixed width a as) (hb : Fixed 2 b bs)
      (hc : Fixed 2 c cs) :
      Three width separator (a, b, c) (as ++ separator :: (bs ++ separator :: cs))

/-- The digits of a fraction of a second, if there is one. -/
inductive Fraction : List Char → List Char → Prop where
  | none : Fraction [] []
  | digits {ds : List Char} (hne : ds ≠ []) (hds : IsDigits ds) : Fraction ds ('.' :: ds)

/-- `Z`, or by how many hours and minutes the clock shown is ahead or behind. -/
inductive Zone : Int → List Char → Prop where
  | zero {c : Char} (h : c = 'Z' ∨ c = 'z') : Zone 0 [c]
  | ahead {hours minutes : Nat} {hs ms : List Char} (hh : Fixed 2 hours hs) (hm : Fixed 2 minutes ms)
      (hhours : hours ≤ 23) (hminutes : minutes ≤ 59) :
      Zone (hours * 3600 + minutes * 60) ('+' :: (hs ++ ':' :: ms))
  | behind {hours minutes : Nat} {hs ms : List Char} (hh : Fixed 2 hours hs)
      (hm : Fixed 2 minutes ms) (hhours : hours ≤ 23) (hminutes : minutes ≤ 59) :
      Zone (-(hours * 3600 + minutes * 60)) ('-' :: (hs ++ ':' :: ms))

/-- A timestamp and its characters. -/
inductive Spells : Stamp → List Char → Prop where
  | mk {s : Stamp} {date clock fraction zone : List Char} {mark : Char}
      (hdate : Three 4 '-' (s.year, s.month, s.day) date) (hmark : mark ∈ ['T', 't', ' '])
      (hclock : Three 2 ':' (s.hour, s.minute, s.second) clock)
      (hfraction : Fraction s.fraction fraction) (hzone : Zone s.offset zone) :
      Spells s (date ++ mark :: (clock ++ (fraction ++ zone)))

variable {n v width : Nat} {c separator : Char} {cs ds k r w : List Char} {o : Int} {s : Stamp}
  {x : Nat × Nat × Nat}

/-! ### Numbers -/

theorem fixed?_append (h : Fixed n v w) (r : List Char) : fixed? n (w ++ r) = some (v, r) := by
  obtain ⟨hlen, hds⟩ := h
  subst hlen
  have hall : w.all Char.isDigit = true := List.all_eq_true.2 hds
  simp [fixed?, hall]

theorem fixed?_sound (h : fixed? n cs = some (v, r)) : ∃ w, Fixed n v w ∧ cs = w ++ r := by
  unfold fixed? at h
  dsimp only at h
  split at h
  · next hdigits =>
    cases h
    exact ⟨cs.take n, ⟨hdigits.1, List.all_eq_true.1 hdigits.2⟩, (List.take_append_drop n cs).symm⟩
  · cases h

theorem oneOf?_cons {allowed : List Char} (h : c ∈ allowed) (r : List Char) :
    oneOf? allowed (c :: r) = some (c, r) := by
  simp [oneOf?, h]

theorem oneOf?_sound {allowed : List Char} (h : oneOf? allowed cs = some (c, r)) :
    c ∈ allowed ∧ cs = c :: r := by
  unfold oneOf? at h
  split at h
  · cases h
  · split at h
    · next hmem =>
      cases h
      exact ⟨hmem, rfl⟩
    · cases h

theorem readThree?_append (h : Three width separator x w) (r : List Char) :
    readThree? width separator (w ++ r) = some (x, r) := by
  cases h with
  | mk ha hb hc =>
    have hsep (k : List Char) : oneOf? [separator] (separator :: k) = some (separator, k) :=
      oneOf?_cons List.mem_cons_self k
    simp only [readThree?, List.append_assoc, List.cons_append, fixed?_append ha, hsep,
      fixed?_append hb, fixed?_append hc, Option.bind_eq_bind, Option.bind_some, Option.pure_def]

theorem readThree?_sound (h : readThree? width separator cs = some (x, r)) :
    ∃ w, Three width separator x w ∧ cs = w ++ r := by
  simp only [readThree?, Option.bind_eq_bind, Option.bind_eq_some_iff, Prod.exists,
    Option.pure_def, Option.some.injEq, Prod.mk.injEq] at h
  obtain ⟨a, cs₁, h₁, d₁, cs₂, h₂, b, cs₃, h₃, d₂, cs₄, h₄, c, cs₅, h₅, rfl, rfl⟩ := h
  obtain ⟨as, ha, rfl⟩ := fixed?_sound h₁
  obtain ⟨hd₁, rfl⟩ := oneOf?_sound h₂
  obtain ⟨bs, hb, rfl⟩ := fixed?_sound h₃
  obtain ⟨hd₂, rfl⟩ := oneOf?_sound h₄
  obtain ⟨cs, hc, rfl⟩ := fixed?_sound h₅
  obtain rfl := List.mem_singleton.1 hd₁
  obtain rfl := List.mem_singleton.1 hd₂
  refine ⟨_, .mk ha hb hc, ?_⟩
  simp

/-! ### Fractions and offsets -/

/-- What is behind a fraction begins with neither a digit nor a point. -/
theorem readFraction_append {fs : List Char} (h : Fraction fs w)
    (hk : ∀ c ∈ k.head?, c.isDigit = false ∧ c ≠ '.') : readFraction (w ++ k) = (fs, k) := by
  cases h with
  | none =>
    rw [List.nil_append]
    unfold readFraction
    split
    · exact absurd rfl (hk _ rfl).2
    · rfl
  | digits hne hds =>
    obtain ⟨htake, hdrop⟩ := hds.span fun c hc => (hk c hc).1
    simp only [List.cons_append, readFraction, htake, hdrop]
    rw [if_neg (by simpa using hne)]

theorem readFraction_sound (cs : List Char) :
    ∃ w, Fraction (readFraction cs).1 w ∧ cs = w ++ (readFraction cs).2 := by
  unfold readFraction
  split
  · next cs =>
    split
    · exact ⟨[], .none, rfl⟩
    · next hne =>
      refine ⟨_, .digits (by simpa using hne) (isDigits_takeWhile cs), ?_⟩
      simp
  · exact ⟨[], .none, rfl⟩

theorem Zone.head (h : Zone o w) (r : List Char) :
    ∀ c ∈ (w ++ r).head?, c.isDigit = false ∧ c ≠ '.' := by
  cases h with
  | zero h => obtain rfl | rfl := h <;> simp
  | ahead => simp
  | behind => simp

/-- The reader of an offset goes by the numbers behind the sign. -/
theorem readOffset?_append {hours minutes : Nat} {hs ms : List Char} (hc : c ∈ ['+', '-'])
    (hh : Fixed 2 hours hs) (hm : Fixed 2 minutes ms) (hhours : hours ≤ 23)
    (hminutes : minutes ≤ 59) (r : List Char) :
    readOffset? (c :: (hs ++ ':' :: (ms ++ r))) =
      some (if c = '-' then -(hours * 3600 + minutes * 60 : Int) else hours * 3600 + minutes * 60,
        r) := by
  have hcolon (k : List Char) : oneOf? [':'] (':' :: k) = some (':', k) :=
    oneOf?_cons List.mem_cons_self k
  simp only [readOffset?, oneOf?_cons hc, fixed?_append hh, hcolon, fixed?_append hm,
    Option.bind_eq_bind, Option.bind_some, Option.pure_def]
  rw [if_pos ⟨hhours, hminutes⟩]

theorem readOffset?_sound (h : readOffset? cs = some (o, r)) : ∃ w, Zone o w ∧ cs = w ++ r := by
  simp only [readOffset?, Option.bind_eq_bind, Option.bind_eq_some_iff, Prod.exists,
    Option.pure_def, Option.ite_none_right_eq_some, Option.some.injEq, Prod.mk.injEq] at h
  obtain ⟨sign, cs₁, h₁, hours, cs₂, h₂, d, cs₃, h₃, minutes, cs₄, h₄, ⟨hhours, hminutes⟩,
    rfl, rfl⟩ := h
  obtain ⟨hsign, rfl⟩ := oneOf?_sound h₁
  obtain ⟨hs, hh, rfl⟩ := fixed?_sound h₂
  obtain ⟨hd, rfl⟩ := oneOf?_sound h₃
  obtain ⟨ms, hm, rfl⟩ := fixed?_sound h₄
  obtain rfl := List.mem_singleton.1 hd
  obtain rfl | rfl : sign = '+' ∨ sign = '-' := by simpa using hsign
  · exact ⟨_, .ahead hh hm hhours hminutes, by simp⟩
  · exact ⟨_, .behind hh hm hhours hminutes, by simp⟩

theorem readZone?_append (h : Zone o w) (r : List Char) : readZone? (w ++ r) = some (o, r) := by
  have hoffset {c : Char} (hc : c ∈ ['+', '-']) (k : List Char) :
      readZone? (c :: k) = readOffset? (c :: k) := by
    obtain rfl | rfl : c = '+' ∨ c = '-' := by simpa using hc
    · rfl
    · rfl
  cases h with
  | zero h => obtain rfl | rfl := h <;> rfl
  | ahead hh hm hhours hminutes =>
    have hc : '+' ∈ ['+', '-'] := by decide
    rw [List.cons_append, List.append_assoc, List.cons_append, hoffset hc,
      readOffset?_append hc hh hm hhours hminutes]
    rfl
  | behind hh hm hhours hminutes =>
    have hc : '-' ∈ ['+', '-'] := by decide
    rw [List.cons_append, List.append_assoc, List.cons_append, hoffset hc,
      readOffset?_append hc hh hm hhours hminutes]
    rfl

theorem readZone?_sound (h : readZone? cs = some (o, r)) : ∃ w, Zone o w ∧ cs = w ++ r := by
  unfold readZone? at h
  split at h
  · next c k hz =>
    cases h
    obtain ⟨hc, rfl⟩ := oneOf?_sound hz
    exact ⟨[c], .zero (by simpa using hc), rfl⟩
  · exact readOffset?_sound h

/-! ### Timestamps -/

/-- The reader finds the timestamps of the grammar, whatever is behind them, and no others. -/
theorem readStamp?_eq_some_iff :
    readStamp? cs = some (s, r) ↔ ∃ w, Spells s w ∧ cs = w ++ r := by
  constructor
  · intro h
    simp only [readStamp?, Option.bind_eq_bind, Option.bind_eq_some_iff, Prod.exists,
      Option.pure_def, Option.some.injEq, Prod.mk.injEq] at h
    obtain ⟨year, month, day, cs₁, h₁, mark, cs₂, h₂, hour, minute, second, cs₃, h₃, offset, cs₄,
      h₄, rfl, rfl⟩ := h
    obtain ⟨date, hdate, rfl⟩ := readThree?_sound h₁
    obtain ⟨hmark, rfl⟩ := oneOf?_sound h₂
    obtain ⟨clock, hclock, rfl⟩ := readThree?_sound h₃
    obtain ⟨fraction, hfraction, hrest⟩ := readFraction_sound cs₃
    obtain ⟨zone, hzone, hend⟩ := readZone?_sound h₄
    refine ⟨_, .mk hdate hmark hclock hfraction hzone, ?_⟩
    rw [hend] at hrest
    simp [hrest]
  · rintro ⟨w, h, rfl⟩
    cases h with
    | mk hdate hmark hclock hfraction hzone =>
      simp only [readStamp?, List.append_assoc, List.cons_append, readThree?_append hdate,
        oneOf?_cons hmark, readThree?_append hclock, readFraction_append hfraction (hzone.head r),
        readZone?_append hzone, Option.bind_eq_bind, Option.bind_some, Option.pure_def]

end HostLisp.Timestamp
