import HostLisp.Proofs.Continuation.Token
import HostLisp.Proofs.Grammar.Program
import Mathlib

/-!
# Programs with more text behind them

What has been read stays as it is when more text is put behind it, if that is settled there
(`stable_node`).  The items of a list are apart from what stands behind the list; and at the top,
where nothing closes the items, a line break is enough.  So programs can be put one behind the
other, line by line:

    readProgram_append : d.readProgram s = .ok vs → d.readProgram t = .ok us →
      d.readProgram (s ++ "\n" ++ t) = .ok (vs ++ us).
-/

namespace HostLisp.Reader

open Parsing

section
variable {u w k : List Char}

/-! ### Strings and characters -/

theorem BodyRead.append {s : List Char} (h : BodyRead u s k) (w : List Char) :
    BodyRead (u ++ w) s (k ++ w) := by
  induction h with
  | close => exact .close
  | escaped h hs ih => exact .escaped h ih
  | plain hb hq hs ih => exact .plain hb hq ih

theorem CharacterRead.append {c : Char} (h : CharacterRead u c k) (w : List Char) :
    CharacterRead (u ++ w) c (k ++ w) := by
  cases h with
  | escaped h => exact .escaped h
  | plain hb hq => exact .plain hb hq

/-- A quote mark stays one unless a second mark makes a character of it. -/
theorem NoCharacter.append (h : NoCharacter u) (hne : u ≠ []) (hw : ∀ c ∈ w.head?, c ≠ '\'') :
    NoCharacter (u ++ w) := by
  cases h with
  | nil => exact absurd rfl hne
  | mark => exact .mark
  | escaped h hk => exact .escaped h (head?_append_of hk fun _ => hw)
  | plain hb hq hk => exact .plain hb hq (head?_append_of hk fun _ => hw)

theorem Unmarked.append (h : Unmarked u) (hne : u ≠ []) (w : List Char) : Unmarked (u ++ w) :=
  head?_append_of h fun hnil => absurd hnil hne

/-! ### Words -/

theorem backtracks_literal_append {x : List Char} (h : Backtracks literal (x ++ k))
    (hk : EndsWord k) (hkw : EndsWord (k ++ w)) (hw : k = [] → Closes w) :
    Backtracks literal (x ++ (k ++ w)) := by
  obtain ⟨f, hf⟩ := h
  exact (alike_literal hk hkw (stops_append hw) x).eq_backtrack hf

variable {d : Dialect} {cs : List Char}

/-- The end of the text counts as a boundary, and so does what closes. -/
theorem backtracks_literal_closed (h : Backtracks literal cs) (hw : Closes w) :
    Backtracks literal (cs ++ w) := by
  rw [← List.append_nil cs] at h
  exact backtracks_literal_append h Closes.nil.stops.endsWord hw.stops.endsWord fun _ => hw

/-- An integer that is out of range stays so. -/
theorem literal_cut_closed {f : Fault} (h : literal cs = .error (.cut f)) (hw : Closes w) :
    ∃ f', literal (cs ++ w) = .error (.cut f') := by
  rw [← List.append_nil cs] at h
  exact (alike_literal Closes.nil.stops.endsWord hw.stops.endsWord
    (stops_append (k := []) fun _ => hw) cs).eq_cut h

theorem ne_nil_of_literal_cut {f : Fault} (h : literal cs = .error (.cut f)) : cs ≠ [] := by
  intro hnil
  subst hnil
  exact not_backtracks_of_cut h (Reader.backtracks_literal (by simp [EndsName]))

theorem AtomRead.backtracks_literal {a : Atom} (h : AtomRead d cs a k) (hw : Settled k w)
    (hl : Backtracks literal cs) : Backtracks literal (cs ++ w) := by
  cases hw with
  | closed hw => exact backtracks_literal_closed hl hw
  | apart hne hk hw =>
    obtain ⟨hn, -, h⟩ := h
    rw [List.append_assoc]
    cases h with
    | none h =>
      -- Behind the marker anything may stand; behind another name, no member.
      obtain rfl | ⟨-, hend⟩ := hn
      · exact Reader.backtracks_literal (.cons (by decide))
      · have hmembers := endsMembers_append hne hk
        refine backtracks_literal_append hl ⟨hend.name, ?_⟩ ⟨?_, hmembers w⟩ fun h => absurd h hne
        · simpa using hmembers []
        · exact head?_append_of hend.name fun h => absurd h hne
    | plain h hk =>
      exact backtracks_literal_append hl (endsWord_colon _) (endsWord_colon _) (by simp)
    | optional h =>
      exact backtracks_literal_append hl (endsWord_colon _) (endsWord_colon _) (by simp)

/-- Where no name begins, none does with what closes behind it. -/
theorem Nameless.append (h : Nameless k) (hne : k ≠ []) (hw : Closes w) : Nameless (k ++ w) := by
  refine ⟨head?_append_of h.endsName fun hnil => absurd hnil hne, ?_⟩
  intro hp
  -- A marker that does not stand in `k` would have to go on with a point of `w`.
  obtain ⟨c, t, hmarker, v, rfl⟩ := exists_of_prefix_append hp h.marker
  have hmem : c ∈ ['.', '.', '.'] := hmarker ▸ by simp
  obtain rfl : c = '.' := by simpa using hmem
  exact not_closes_cons (by decide) hw

theorem Nodeless.append (h : Nodeless k) (hne : k ≠ []) (hw : Closes w) : Nodeless (k ++ w) :=
  ⟨h.unmarked.append hne w, h.nameless.append hne hw⟩

end

/-! ### Items -/

/-- A reader of items that reads them just so with more text behind them.  It backtracks where no
node begins, if it ever does; without a level left it does not. -/
structure Stable (p : Reads Value) : Prop where
  takes : TakesSome p
  ok : ∀ {cs v k w}, p cs = .ok (v, k) → Settled k w → p (cs ++ w) = .ok (v, k ++ w)
  not_nodeless : ∀ {cs v k}, p cs = .ok (v, k) → ¬ Nodeless cs
  nodeless : ∀ {cs}, Backtracks p cs → Nodeless cs
  backtracks : ∀ {cs u}, Backtracks p cs → Nodeless u → Backtracks p u

theorem dropWhile_spacing_append {cs : List Char} (h : cs.dropWhile isSpacing ≠ [])
    (w : List Char) : (cs ++ w).dropWhile isSpacing = cs.dropWhile isSpacing ++ w := by
  rw [List.dropWhile_append, if_neg (by simpa using h)]

theorem dropWhile_spacing_dropWhile (cs w : List Char) :
    (cs.dropWhile isSpacing ++ w).dropWhile isSpacing = (cs ++ w).dropWhile isSpacing := by
  have hspacing : ∀ c ∈ cs.takeWhile isSpacing, isSpacing c = true := fun c hc =>
    List.mem_takeWhile_imp hc
  rw [← List.dropWhile_append_of_pos hspacing, ← List.append_assoc,
    List.takeWhile_append_dropWhile]

section
variable {p : Reads Value} {cs u w k k' : List Char} {v : Value} {vs vs' : List Value}

theorem ItemsRead.backtracks (h : ItemsRead p cs vs k) : Backtracks p k := by
  induction h with
  | done h => exact h
  | item h hs ih => exact ih

theorem ItemsRead.dropWhile_eq (h : ItemsRead p cs vs k) : k.dropWhile isSpacing = k := by
  induction h with
  | @done cs h =>
    have hdrop := dropWhile_spacing_dropWhile cs []
    rwa [List.append_nil, List.append_nil] at hdrop
  | item h hs ih => exact ih

theorem ItemsRead.nil (hk : k.dropWhile isSpacing = k) (h : Backtracks p k) :
    ItemsRead p k [] k := by
  have hdone : ItemsRead p k [] (k.dropWhile isSpacing) := .done (hk.symm ▸ h)
  rwa [hk] at hdone

/-- What is settled behind the items is settled behind each of them. -/
theorem Settled.of_items (hp : Stable p) (h : ItemsRead p cs vs k) (hw : Settled k w) :
    Settled cs w := by
  cases hw with
  | closed hw => exact .closed hw
  | apart hne hk hw =>
    refine .apart ?_ ?_ hw
    · intro hnil
      have hle := (h.suffix hp.takes).length_le
      rw [hnil] at hle
      exact hne (List.length_eq_zero_iff.1 (Nat.le_zero.1 hle))
    · intro hstuck
      rw [h.eq_of_stuck hstuck fun v r hread => hp.not_nodeless hread hstuck.nodeless] at hk
      exact hk hstuck

/-- The items of a text, and then those of what is put behind it.  The induction is on the items. -/
theorem ItemsRead.append (hp : Stable p) (h : ItemsRead p cs vs k) (hw : Settled k w)
    (hrest : ItemsRead p (k ++ w) vs' k') : ItemsRead p (cs ++ w) (vs ++ vs') k' := by
  induction h with
  | @done cs h => exact hrest.of_dropWhile_eq (dropWhile_spacing_dropWhile cs w).symm
  | @item cs r k v vs h hs ih =>
    -- What stands behind the item is not settled by itself but by where the items end.
    have hread := hp.ok h (hw.of_items hp hs)
    rw [← dropWhile_spacing_append (ne_nil_of_takes (hp.takes _ _ _ h))] at hread
    exact .item hread (ih hw hrest)

/-- Where the items end they end with more text behind them, if no node begins there then. -/
theorem ItemsRead.append_rest (hp : Stable p) (h : ItemsRead p cs vs k) (hne : k ≠ [])
    (hw : Settled k w) (hn : Nodeless (k ++ w)) : ItemsRead p (cs ++ w) vs (k ++ w) := by
  have hspacing : (k ++ w).dropWhile isSpacing = k ++ w := by
    have hk := h.dropWhile_eq
    rw [dropWhile_spacing_append (hk.symm ▸ hne), hk]
  have hread := h.append hp hw (.nil hspacing (hp.backtracks h.backtracks hn))
  rwa [List.append_nil] at hread

theorem ItemsRead.append_closed (hp : Stable p) (h : ItemsRead p u vs (')' :: k))
    (hw : Settled k w) : ItemsRead p (u ++ w) vs (')' :: (k ++ w)) := by
  refine h.append_rest hp (by simp) ?_ (nodeless_paren _)
  cases hw with
  | closed hw => exact .closed hw
  | apart hne hk hw => exact .apart (by simp) Stuck.not_paren hw

end

/-! ### Nodes -/

section
variable {d : Dialect} {element deeper : Reads Value} {cs w k : List Char} {v : Value}

theorem NodeRead.append (he : Stable element) (hd : Stable deeper)
    (h : NodeRead d element deeper cs v k) (hw : Settled k w) :
    NodeRead d element deeper (cs ++ w) v (k ++ w) := by
  have hpos := ne_nil_of_takes (h.takes he.takes hd.takes)
  cases h with
  | string h => exact .string (h.append w)
  | character h => exact .character (h.append w)
  | quotedAtom hc h =>
    exact .quotedAtom (hc.append (ne_nil_of_takes h.takes) hw.head_ne_mark) (h.append hw)
  | quotedList hc h =>
    exact .quotedList (hc.append (by simp) hw.head_ne_mark) (h.append_closed hd hw)
  | list h => exact .list (h.append_closed he hw)
  | literal hm h => exact .literal (hm.append hpos w) (literal_append h hw.closes)
  | atom hm hl h =>
    exact .atom (hm.append hpos w) (h.backtracks_literal hw hl) (h.append hw)

/-- The induction is on the levels. -/
theorem stable_node (d : Dialect) (n : Nat) : Stable (node d n) := by
  induction n using Nat.strongRecOn with
  | ind n ih =>
    cases n with
    | zero =>
      -- Without a level left every text is refused for good.
      have hb : ∀ cs, ¬ Backtracks (node d 0) cs := fun cs => not_backtracks_of_cut rfl
      refine ⟨takesSome_node d 0, ?_, ?_, fun h => absurd h (hb _), fun h => absurd h (hb _)⟩
      · intro cs v k w h
        cases h
      · intro cs v k h
        cases h
    | succ n =>
      have he := ih n n.lt_succ_self
      have hd := ih (n - 1) (by omega)
      refine ⟨takesSome_node d (n + 1), ?_, ?_, backtracks_node_iff.1,
        fun _ hu => backtracks_node_iff.2 hu⟩
      · intro cs v k w h hw
        rw [node_eq_ok_iff] at h ⊢
        exact h.append he hd hw
      · intro cs v k h hcs
        exact not_backtracks_of_ok h (backtracks_node_iff.2 hcs)

end

/-! ### Programs -/

theorem closes_line (w : List Char) : Closes ('\n' :: w) := .cons (.inl (by decide))

theorem toList_line (s t : String) : (s ++ "\n" ++ t).toList = s.toList ++ '\n' :: t.toList := by
  simp

/-- In every dialect, programs on lines of their own are read one after the other. -/
theorem readProgram_append (d : Dialect) {s t : String} {vs us : List Value}
    (hs : d.readProgram s = .ok vs) (ht : d.readProgram t = .ok us) :
    d.readProgram (s ++ "\n" ++ t) = .ok (vs ++ us) := by
  rw [readProgram_eq_ok_iff] at hs ht ⊢
  rw [toList_line]
  have hline : ItemsRead (topNode d) ('\n' :: t.toList) us [] := ht.of_dropWhile_eq rfl
  exact hs.append (stable_node d maxReadDepth) (.closed (closes_line _)) hline

/-- The mark that begins the second line would make a character of the `a` if no line break stood
between the two. -/
theorem readProgram_append_lines :
    basic.readProgram "x::int 'a" =
        .ok [.atom ⟨"x", { kind := .int }⟩, .quote (.ofName "a")] ∧
      basic.readProgram "'b 2" = .ok [.quote (.ofName "b"), .int 2] ∧
      basic.readProgram ("x::int 'a" ++ "\n" ++ "'b 2") =
        .ok [.atom ⟨"x", { kind := .int }⟩, .quote (.ofName "a"), .quote (.ofName "b"),
          .int 2] := by
  have hs : basic.readProgram "x::int 'a" =
      .ok [.atom ⟨"x", { kind := .int }⟩, .quote (.ofName "a")] := by cbv
  have ht : basic.readProgram "'b 2" = .ok [.quote (.ofName "b"), .int 2] := by cbv
  exact ⟨hs, ht, readProgram_append basic hs ht⟩

end HostLisp.Reader
