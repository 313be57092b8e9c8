import HostLisp.Proofs.Parsing.Progress
import HostLisp.Reader.Error
import Mathlib

/-!
# Repetition

A repeated parser follows a chain of successes, each of which takes something off the input and
leaves the next one to go on from there (`Chain`).  The attempt after the last of them ends it: it
backtracks, or succeeds and takes nothing, or cuts (`Ends`).  If whatever the parser leaves over is
the same or a later place in its input, this says all that repetition does:

    many_eq_iff : many p i = out ↔ ∃ as j, Chain p i as j ∧ Ends p as j out.

Repetition can as well go round by round, with the results so far, until the position in the input
stays the same (`rounds`).  There are no more rounds than items left and one.
-/

namespace HostLisp.Parsing

variable {ι τ ε α : Type} [Input ι τ]

/-! ### Places in an input -/

/-- The second input is what is left of the first one when some of its items, or none, are taken. -/
def Later : ι → ι → Prop := Relation.ReflTransGen fun i r => ∃ t, Input.next? i = some (t, r)

/-- Numbers of places that grow from item to item. -/
def Grows (position : ι → Int) : Prop :=
  ∀ i t r, Input.next? i = some (t, r) → position i < position r

/-- Of an input that counts the items taken, their number. -/
theorem grows_taken : Grows fun c : Cursor α => (c.taken : Int) := by
  rintro ⟨n, _ | ⟨a, as⟩⟩ t r h
  · cases h
  · cases h
    exact Int.lt_add_one_of_le (Int.le_refl _)

/-- Of a text in a source of some size, the offset in bytes. -/
theorem grows_offset (size : Int) :
    Grows fun cs : List Char => size - ((cs.map Char.utf8Size).sum : Int) := by
  intro cs t r h
  cases cs with
  | nil => cases h
  | cons c cs =>
    cases h
    have hc := Char.utf8Size_pos t
    simp only [List.map_cons, List.sum_cons]
    omega

section
variable {i r : ι} {position : ι → Int}

/-- Whatever is taken leaves less. -/
theorem Later.eq_or_remaining_lt (h : Later i r) :
    r = i ∨ Input.remaining r < Input.remaining i := by
  induction h with
  | refl => exact .inl rfl
  | tail _ hnext ih =>
    obtain ⟨t, hnext⟩ := hnext
    have hlt := Input.remaining_lt hnext
    rcases ih with rfl | ih
    · exact .inr hlt
    · exact .inr (hlt.trans ih)

theorem Later.eq_or_position_lt (hposition : Grows position) (h : Later i r) :
    r = i ∨ position i < position r := by
  induction h with
  | refl => exact .inl rfl
  | tail _ hnext ih =>
    obtain ⟨t, hnext⟩ := hnext
    have hlt := hposition _ _ _ hnext
    rcases ih with rfl | ih
    · exact .inr hlt
    · exact .inr (ih.trans hlt)

/-- The position stays just where nothing has been taken. -/
theorem Later.remaining_lt_iff (hposition : Grows position) (h : Later i r) :
    Input.remaining r < Input.remaining i ↔ position r ≠ position i := by
  constructor
  · intro hlt heq
    rcases h.eq_or_position_lt hposition with rfl | hpos
    · exact Nat.lt_irrefl _ hlt
    · omega
  · intro hne
    rcases h.eq_or_remaining_lt with rfl | hlt
    · exact absurd rfl hne
    · exact hlt

end

/-- Whatever is read, the same or a later place in the input is left over. -/
def LeavesLater (p : Parser ι ε α) : Prop := ∀ i a r, p i = .ok (a, r) → Later i r

/-- What is left of a list later is an end of it. -/
theorem later_list_iff {i r : List τ} : Later i r ↔ r <:+ i := by
  constructor
  · intro h
    induction h with
    | refl => exact List.suffix_refl i
    | @tail k r _ hnext ih =>
      obtain ⟨t, hnext⟩ := hnext
      cases k with
      | nil => cases hnext
      | cons t k =>
        cases hnext
        exact (List.suffix_cons t r).trans ih
  · rintro ⟨taken, rfl⟩
    induction taken with
    | nil => exact .refl
    | cons t taken ih => exact .head ⟨t, rfl⟩ ih

theorem leavesLater_iff_leavesEnd {p : Parser (List τ) ε α} : LeavesLater p ↔ LeavesEnd p := by
  unfold LeavesLater LeavesEnd
  simp only [later_list_iff]

theorem leavesLater_satisfy [InputError ι ε] (p : τ → Bool) :
    LeavesLater (satisfy p : Parser ι ε τ) := by
  intro i t r h
  unfold satisfy at h
  cases hnext : Input.next? i with
  | none =>
    rw [hnext] at h
    cases h
  | some x =>
    simp only [hnext] at h
    split at h
    · cases h
      exact .single ⟨_, hnext⟩
    · cases h

theorem LeavesLater.opt {p : Parser ι ε α} (hp : LeavesLater p) : LeavesLater (opt p) := by
  intro i a r h
  unfold Parsing.opt at h
  cases hi : p i with
  | ok x =>
    rw [hi] at h
    cases h
    exact hp i x.1 x.2 hi
  | error f =>
    cases f with
    | backtrack e =>
      rw [hi] at h
      cases h
      exact .refl
    | cut e =>
      rw [hi] at h
      cases h

/-! ### Chains of successes -/

/-- Successes of a parser, each from where the one before has stopped, and each taking something off
the input; with all their results, and what the last one leaves. -/
inductive Chain (p : Parser ι ε α) : ι → List α → ι → Prop where
  | nil (i : ι) : Chain p i [] i
  | cons {i r j : ι} {a : α} {as : List α} (h : p i = .ok (a, r))
      (hlt : Input.remaining r < Input.remaining i) (hs : Chain p r as j) : Chain p i (a :: as) j

/-- What a repetition comes to with the next attempt, when it has got to `j` with the results
`as`. -/
inductive Ends (p : Parser ι ε α) (as : List α) (j : ι) : Except (Fail ε) (List α × ι) → Prop where
  /-- The attempt backtracks, and nothing that it has read is taken. -/
  | backtracked (h : Backtracks p j) : Ends p as j (.ok (as, j))
  /-- The attempt succeeds and takes nothing; its result still counts. -/
  | standstill {a : α} (h : p j = .ok (a, j)) : Ends p as j (.ok (as ++ [a], j))
  | cut {e : ε} (h : p j = .error (.cut e)) : Ends p as j (.error (.cut e))

section
variable {p : Parser ι ε α} {i j k r : ι} {a : α} {as bs cs : List α}
  {out : Except (Fail ε) (List α × ι)} {position : ι → Int} {n : Nat}

theorem Chain.later (hp : LeavesLater p) (h : Chain p i as j) : Later i j := by
  induction h with
  | nil i => exact .refl
  | cons h hlt hs ih => exact (hp _ _ _ h).trans ih

/-- Each result of a chain has taken an item at least. -/
theorem Chain.length_add_remaining_le (h : Chain p i as j) :
    as.length + Input.remaining j ≤ Input.remaining i := by
  induction h with
  | nil i => simp
  | cons h hlt hs ih =>
    rw [List.length_cons]
    omega

/-- From where a repetition ends no chain goes on. -/
theorem Ends.eq_nil (he : Ends p as j out) (h : Chain p j bs k) : bs = [] := by
  cases h with
  | nil => rfl
  | cons h hlt hs =>
    cases he with
    | backtracked hb => exact absurd hb (not_backtracks_of_ok h)
    | standstill hj =>
      rw [hj] at h
      cases h
      exact absurd hlt (Nat.lt_irrefl _)
    | cut hj =>
      rw [hj] at h
      cases h

/-- The chain at the end of which a repetition ends is the longest one. -/
theorem Chain.prefix_of_ends (h : Chain p i as j) (he : Ends p cs j out) (hb : Chain p i bs k) :
    bs <+: as := by
  induction h generalizing bs with
  | nil i =>
    rw [he.eq_nil hb]
  | cons h hlt hs ih =>
    cases hb with
    | nil => exact List.nil_prefix
    | cons h' hlt' hs' =>
      -- Both chains begin with the one success that the parser has here.
      rw [h] at h'
      cases h'
      exact (List.prefix_cons_inj _).2 (ih he hs')

/-! ### Repetition along a chain -/

/-- A success that takes something comes in front of what repetition gives from there. -/
theorem many_of_progress (h : p i = .ok (a, r)) (hlt : Input.remaining r < Input.remaining i) :
    many p i = (many p r).map fun x => (a :: x.1, x.2) := by
  cases hm : many p r with
  | ok x => exact many_cons h hlt hm
  | error e => exact many_cons_of_error h hlt hm

theorem Chain.many_eq (h : Chain p i as j) :
    many p i = (many p j).map fun x => (as ++ x.1, x.2) := by
  induction h with
  | nil i => cases many p i <;> rfl
  | @cons i r j a as h hlt hs ih =>
    rw [many_of_progress h hlt, ih]
    cases many p j <;> rfl

theorem Ends.many_eq (h : Chain p i as j) (he : Ends p as j out) : many p i = out := by
  rw [h.many_eq]
  cases he with
  | backtracked hb =>
    rw [many_of_backtracks hb]
    simp [Except.map]
  | standstill hj =>
    rw [many_of_standstill hj (Nat.lt_irrefl _)]
    rfl
  | cut hj =>
    rw [many_of_cut hj]
    rfl

/-- A chain goes on until the next attempt takes nothing or fails. -/
theorem exists_chain (p : Parser ι ε α) (i : ι) :
    ∃ as j, Chain p i as j ∧ ∀ a r, p j = .ok (a, r) → ¬ Input.remaining r < Input.remaining j := by
  -- A success that takes something leaves less, so it is enough to look at what is left.
  induction hn : Input.remaining i using Nat.strongRecOn generalizing i with
  | ind n ih =>
    subst hn
    by_cases hnext : ∃ a r, p i = .ok (a, r) ∧ Input.remaining r < Input.remaining i
    · obtain ⟨a, r, h, hlt⟩ := hnext
      obtain ⟨as, j, hs, hlast⟩ := ih _ hlt r rfl
      exact ⟨a :: as, j, .cons h hlt hs, hlast⟩
    · exact ⟨[], i, .nil i, fun a r h hlt => hnext ⟨a, r, h, hlt⟩⟩

/-- There a repetition ends. -/
theorem exists_ends (hp : LeavesLater p)
    (hlast : ∀ a r, p j = .ok (a, r) → ¬ Input.remaining r < Input.remaining j) (as : List α) :
    ∃ out, Ends p as j out := by
  cases hj : p j with
  | ok x =>
    obtain ⟨a, r⟩ := x
    obtain rfl := (hp j a r hj).eq_or_remaining_lt.resolve_right (hlast a r hj)
    exact ⟨_, .standstill hj⟩
  | error f =>
    cases f with
    | backtrack e => exact ⟨_, .backtracked ⟨e, hj⟩⟩
    | cut e => exact ⟨_, .cut hj⟩

/-- Repetition gives just what the end of a chain makes of its results. -/
theorem many_eq_iff (hp : LeavesLater p) :
    many p i = out ↔ ∃ as j, Chain p i as j ∧ Ends p as j out := by
  constructor
  · rintro rfl
    obtain ⟨as, j, hs, hlast⟩ := exists_chain p i
    obtain ⟨out, he⟩ := exists_ends hp hlast as
    rw [he.many_eq hs]
    exact ⟨as, j, hs, he⟩
  · rintro ⟨as, j, hs, he⟩
    exact he.many_eq hs

/-- Repetition leaves the same or a later place over, and has one result more than there were items
to take at most. -/
theorem later_of_many (hp : LeavesLater p) (h : many p i = .ok (as, k)) :
    Later i k ∧ as.length ≤ Input.remaining i + 1 := by
  obtain ⟨bs, j, hs, he⟩ := (many_eq_iff hp).1 h
  have hlength := hs.length_add_remaining_le
  cases he with
  | backtracked hb => exact ⟨hs.later hp, by omega⟩
  | standstill hj =>
    refine ⟨hs.later hp, ?_⟩
    rw [List.length_append, List.length_singleton]
    omega

/-! ### Round by round -/

/-- Repetition in `n` rounds, with the results that there are so far.  A round tries the parser; if
it succeeds its result is put behind the others, and the next round goes on where it has stopped,
unless the position has stayed the same. -/
def rounds (p : Parser ι ε α) (position : ι → Int) :
    Nat → List α → ι → Option (Except (Fail ε) (List α × ι))
  | 0, _, _ => none
  | n + 1, as, i =>
    match p i with
    | .ok (a, r) =>
      if position r ≠ position i then rounds p position n (as ++ [a]) r
      else some (.ok (as ++ [a], r))
    | .error (.backtrack _) => some (.ok (as, i))
    | .error (.cut e) => some (.error (.cut e))

/-- Rounds end, and put what repetition gives behind the results that there have been. -/
theorem rounds_eq (hp : LeavesLater p) (hposition : Grows position) (as : List α)
    (hn : Input.remaining i < n) :
    rounds p position n as i = some ((many p i).map fun x => (as ++ x.1, x.2)) := by
  -- The induction is on the rounds left; the next one begins with a result more and an item less.
  induction n generalizing as i with
  | zero => exact absurd hn (Nat.not_lt_zero _)
  | succ n ih =>
    unfold rounds
    cases hi : p i with
    | error f =>
      cases f with
      | backtrack e =>
        rw [many_of_backtracks ⟨e, hi⟩]
        simp [Except.map]
      | cut e =>
        rw [many_of_cut hi]
        rfl
    | ok x =>
      obtain ⟨a, r⟩ := x
      have hmoves := (hp i a r hi).remaining_lt_iff hposition
      by_cases hne : position r ≠ position i
      · have hlt := hmoves.2 hne
        have hround := ih (as ++ [a]) (i := r) (by omega)
        simp only [if_pos hne]
        rw [hround, many_of_progress hi hlt]
        cases many p r with
        | ok x => simp [Except.map]
        | error f => rfl
      · have hstays := mt hmoves.1 hne
        simp only [if_neg hne]
        rw [many_of_standstill hi hstays]
        rfl

/-- What a repetition does with a parser that leaves the same or a later place of its input over.
It ends after one round more than there are items left, at most; its results are those of the
longest chain of successes that take something, to the end that the next attempt makes, where a cut
is passed on; and repeating at least once is a first success and the repetition behind it, also when
it is done round by round from the first result. -/
theorem many_chain (hp : LeavesLater p) (i : ι) :
    (∀ position, Grows position → ∀ n, Input.remaining i < n →
        rounds p position n [] i = some (many p i)) ∧
      (∀ as k, many p i = .ok (as, k) → Later i k ∧ as.length ≤ Input.remaining i + 1) ∧
      (∀ out, many p i = out ↔ ∃ as j, Chain p i as j ∧ Ends p as j out) ∧
      (∀ as j out, Chain p i as j → Ends p as j out → ∀ bs k, Chain p i bs k → bs <+: as) ∧
      (∀ f, p i = .error f → many1 p i = .error f) ∧
      ∀ a r, p i = .ok (a, r) → many1 p i = (many p r).map (fun x => (a :: x.1, x.2)) ∧
        ∀ position, Grows position → ∀ n, Input.remaining r < n →
          rounds p position n [a] r = some (many1 p i) := by
  refine ⟨fun position hposition n hn => ?_, fun as k => later_of_many hp, fun out => many_eq_iff hp,
    fun as j out hs he bs k => hs.prefix_of_ends he, fun f => bind_of_error, fun a r h => ?_⟩
  · rw [rounds_eq hp hposition [] hn]
    cases many p i <;> rfl
  · have hmany1 : many1 p i = (many p r).map fun x => (a :: x.1, x.2) := by
      unfold many1
      rw [bind_of_ok h, bind_apply]
      cases many p r <;> rfl
    refine ⟨hmany1, fun position hposition n hn => ?_⟩
    rw [rounds_eq hp hposition [a] hn, hmany1]
    rfl

/-- Digits that may be missing, in the last two bytes of four: two successes take something, and a
third one takes nothing. -/
theorem many_chain_standstill :
    let p : Parser (List Char) Fault (Option Char) := opt (satisfy Char.isDigit)
    let position := fun cs : List Char => 4 - ((cs.map Char.utf8Size).sum : Int)
    let results := [some '1', some '2', none]
    LeavesLater p ∧ Grows position ∧ many p ['1', '2'] = .ok (results, []) ∧
      rounds p position 3 [] ['1', '2'] = some (.ok (results, [])) ∧
      results.length ≤ Input.remaining ['1', '2'] + 1 ∧
      (∃ as j, Chain p ['1', '2'] as j ∧ Ends p as j (.ok (results, []))) ∧
      many1 p ['1', '2'] = .ok (results, []) := by
  intro p position results
  have hp : LeavesLater p := (leavesLater_satisfy _).opt
  have hposition : Grows position := grows_offset 4
  have hmany : many p ['1', '2'] = .ok (results, []) := by cbv
  have hrest : many p ['2'] = .ok ([some '2', none], []) := by cbv
  obtain ⟨hrounds, hlater, hchain, -, -, hmany1⟩ := many_chain hp ['1', '2']
  refine ⟨hp, hposition, hmany, ?_, (hlater _ _ hmany).2, (hchain _).1 hmany, ?_⟩
  · rw [hrounds position hposition 3 (by decide), hmany]
  · rw [(hmany1 (some '1') ['2'] rfl).1, hrest]
    rfl

end

end HostLisp.Parsing
