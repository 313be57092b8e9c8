import HostLisp.Proofs.Continuation.Node

/-!
# Lines that are not complete

A host that reads line by line asks for another line where the text is incomplete so far, and drops
the text on any other error.  It never drops what another line would have made a program: where a
text is broken, a line break leaves it waiting for more, or it is broken whatever follows the line
break (`AtLineEnd`).  Only a quote mark at the very end has to be excluded, since it may begin a
character that is a line break.

    readProgram_line : u.toList.getLast? ≠ some '\'' → d.readProgram (u ++ "\n" ++ s) = .ok vs →
      (∃ us, d.readProgram (u ++ "\n") = .ok us) ∨
        ∃ e, d.readProgram (u ++ "\n") = .error e ∧ e.kind = .incomplete.
-/

namespace HostLisp.Reader

open Parsing Text

/-- What becomes of a broken text at the end of the line. -/
inductive AtLineEnd (r : List Char → Fault → Prop) (u : List Char) : Prop
  /-- More text is needed. -/
  | waits {f : Fault} (h : r (u ++ ['\n']) f) (hf : f.cause.kind = .incomplete)
  /-- No text helps. -/
  | hopeless (h : ∀ s, ∃ f, r (u ++ '\n' :: s) f)

/-- The fate of a part is that of the whole. -/
theorem AtLineEnd.imp {r r' : List Char → Fault → Prop} {u u' : List Char} (h : AtLineEnd r u)
    (hr : ∀ s f, r (u ++ '\n' :: s) f → r' (u' ++ '\n' :: s) f) : AtLineEnd r' u' := by
  cases h with
  | waits h hf => exact .waits (hr [] _ h) hf
  | hopeless h =>
    refine .hopeless fun s => ?_
    obtain ⟨f, hf⟩ := h s
    exact ⟨f, hr s f hf⟩

/-- An end of a text ends with the same character. -/
theorem getLast?_ne_of_suffix {u r : List Char} {c : Char} (h : r <:+ u)
    (hu : u.getLast? ≠ some c) : r.getLast? ≠ some c := by
  obtain ⟨t, rfl⟩ := h
  intro hr
  refine hu ?_
  rw [List.getLast?_append, hr]
  rfl

/-! ### Types and atoms -/

section
variable {d : Dialect} {cs : List Char} {f : Fault}

/-- In front of a line break there is no type that was not there before. -/
theorem NoBuiltin.nothing_line (h : NoBuiltin cs) (hk : EndsTypeName cs) (s : List Char) :
    NoBuiltin (cs ++ '\n' :: s) ∧ EndsTypeName (cs ++ '\n' :: s) := by
  have hend : EndsTypeName (cs ++ '\n' :: s) :=
    head?_append_of hk fun _ => (closes_line s).endsTypeName
  refine ⟨⟨?_, ?_, ?_⟩, hend⟩
  · intro e he k hcs
    obtain ⟨t, hnil, -⟩ := eq_of_typeName_append (n := []) (by simp) hend
      (all_isTypeNameChar_keywords e he) hcs
    exact absurd (List.append_eq_nil_iff.1 hnil.symm).1 (keyword_ne_nil e he)
  · intro hp
    obtain ⟨r, hr⟩ := hp
    have hm := hend 'm' (by rw [← hr]; rfl)
    revert hm
    decide
  · intro hp
    rcases cs with _ | ⟨c, _ | ⟨c', cs⟩⟩
    · simp [List.cons_prefix_cons] at hp
    · simp [List.cons_prefix_cons] at hp
    · refine h.slice ?_
      simpa [List.cons_prefix_cons] using hp

/-- No line break stands inside a type. -/
theorem TypeFault.line (h : TypeFault d cs f) (s : List Char) :
    ∃ f', TypeFault d (cs ++ '\n' :: s) f' := by
  have hclose : Closes ('\n' :: s) := closes_line s
  induction h with
  | nothing hb hk =>
    obtain ⟨hb, hk⟩ := hb.nothing_line hk s
    exact ⟨_, .nothing hb hk⟩
  | notAType hne hn hk hb h =>
    rw [List.append_assoc]
    exact ⟨_, .notAType hne hn (head?_append_of hk fun _ => hclose.endsTypeName)
      (hb.append hne hn hk fun _ => hclose) h⟩
  | notFound hne hn hk hb h =>
    rw [List.append_assoc]
    exact ⟨_, .notFound hne hn (head?_append_of hk fun _ => hclose.endsTypeName)
      (hb.append hne hn hk fun _ => hclose) h⟩
  | key h ih =>
    obtain ⟨f', h'⟩ := ih
    exact ⟨f', .key h'⟩
  | bracket hkey hr =>
    exact ⟨_, .bracket (hkey.append fun _ => hclose)
      (head?_append_of hr fun _ => head?_cons_of (by decide) s)⟩
  | value hkey h ih =>
    obtain ⟨f', h'⟩ := ih
    exact ⟨f', .value (hkey.append (by simp)) h'⟩
  | element h ih =>
    obtain ⟨f', h'⟩ := ih
    exact ⟨f', .element h'⟩

theorem AtomCut.line (h : AtomCut d cs f) (s : List Char) :
    ∃ f', AtomCut d (cs ++ '\n' :: s) f' := by
  cases h with
  | digits hn hd =>
    rw [List.append_assoc]
    exact ⟨_, .digits (hn.append (.closed (closes_line s))) hd⟩
  | type hn hd h =>
    obtain ⟨f', h'⟩ := h.line s
    rw [List.append_assoc]
    exact ⟨f', .type hn.of_colon hd h'⟩

theorem AtomCut.ne_nil (h : AtomCut d cs f) : cs ≠ [] := by
  cases h with
  | digits hn hd => simp [hn.ne_nil]
  | type hn hd h => simp

/-! ### Strings and characters -/

/-- A string may go on in the next line, but a backslash in front of the line break is no escape. -/
theorem BodyCut.line {start : List Char} (h : BodyCut start cs f) :
    (∀ start', ∃ f', BodyCut start' (cs ++ ['\n']) f' ∧ f'.cause.kind = .incomplete) ∨
      ∀ start' s, ∃ f', BodyCut start' (cs ++ '\n' :: s) f' := by
  induction h with
  | unterminated =>
    exact .inl fun _ => ⟨_, .plain (by decide) (by decide) .unterminated, rfl⟩
  | halfEscape => exact .inr fun _ s => ⟨_, .unknownEscape (by decide)⟩
  | unknownEscape h => exact .inr fun _ s => ⟨_, .unknownEscape h⟩
  | escaped h hs ih =>
    refine ih.imp (fun hw start' => ?_) fun hw start' s => ?_
    · obtain ⟨f', h', hf'⟩ := hw start'
      exact ⟨f', .escaped h h', hf'⟩
    · obtain ⟨f', h'⟩ := hw start' s
      exact ⟨f', .escaped h h'⟩
  | plain hb hq hs ih =>
    refine ih.imp (fun hw start' => ?_) fun hw start' s => ?_
    · obtain ⟨f', h', hf'⟩ := hw start'
      exact ⟨f', .plain hb hq h', hf'⟩
    · obtain ⟨f', h'⟩ := hw start' s
      exact ⟨f', .plain hb hq h'⟩

theorem CharacterCut.line (h : CharacterCut cs f) (s : List Char) :
    ∃ f', CharacterCut (cs ++ '\n' :: s) f' := by
  cases h with
  | halfEscape => exact ⟨_, .unknownEscape (by decide)⟩
  | unknownEscape h => exact ⟨_, .unknownEscape h⟩

end

/-! ### Items -/

/-- A reader of items of which the outcome at the end of a line is known. -/
structure Foreseen (p : Reads Value) : Prop where
  stable : Stable p
  atLineEnd : ∀ {u f}, p u = .error (.cut f) → u.getLast? ≠ some '\'' →
    AtLineEnd (fun u f => p u = .error (.cut f)) u
  /-- Without text it is broken only where it is broken always. -/
  empty : ∀ {f}, p [] = .error (.cut f) → ∀ cs, ∃ f', p cs = .error (.cut f')

section
variable {p : Reads Value} {u k : List Char} {vs : List Value} {f : Fault}

/-- Items up to the end of the text are there with a line break behind them. -/
theorem ItemsRead.line (hp : Stable p) (h : ItemsRead p u vs []) :
    ItemsRead p (u ++ ['\n']) vs [] := by
  have hbreak : ItemsRead p ['\n'] [] [] := (ItemsRead.nil rfl h.backtracks).of_dropWhile_eq rfl
  have hread := h.append hp (.closed (closes_line [])) hbreak
  rwa [List.append_nil] at hread

/-- Items that end within the text end there whatever the next line is. -/
theorem ItemsRead.line_rest (hp : Stable p) (h : ItemsRead p u vs k) (hk : k ≠ []) (s : List Char) :
    ItemsRead p (u ++ '\n' :: s) vs (k ++ '\n' :: s) :=
  h.append_rest hp hk (.closed (closes_line s))
    ((hp.nodeless h.backtracks).append hk (closes_line s))

/-- The induction is on the items in front of the broken one. -/
theorem ItemsCut.atLineEnd (hp : Foreseen p) (h : ItemsCut p u f)
    (hu : u.getLast? ≠ some '\'') : AtLineEnd (ItemsCut p) u := by
  induction h with
  | @here u f h =>
    by_cases hnil : u.dropWhile isSpacing = []
    · rw [hnil] at h
      refine .hopeless fun s => ?_
      obtain ⟨f', h'⟩ := hp.empty h ((u ++ '\n' :: s).dropWhile isSpacing)
      exact ⟨f', .here h'⟩
    · have hend := hp.atLineEnd h (getLast?_ne_of_suffix (List.dropWhile_suffix _) hu)
      exact hend.imp fun s f hs => .here (by rwa [dropWhile_spacing_append hnil])
  | @later u r v f h hs ih =>
    have htakes := hp.stable.takes _ _ _ h
    have hend := ih (getLast?_ne_of_suffix (htakes.1.trans (List.dropWhile_suffix _)) hu)
    refine hend.imp fun s f hs => .later (v := v) ?_ hs
    rw [dropWhile_spacing_append (ne_nil_of_takes htakes)]
    exact hp.stable.ok h (.closed (closes_line s))

theorem ListCut.atLineEnd (hp : Foreseen p) (h : ListCut p u f)
    (hu : u.getLast? ≠ some '\'') : AtLineEnd (ListCut p) u := by
  cases h with
  | item h => exact (h.atLineEnd hp hu).imp fun s f hs => .item hs
  | @unclosed k vs h hk =>
    by_cases hnil : k = []
    · subst hnil
      exact .waits (.unclosed (h.line hp.stable) (by simp)) rfl
    · exact .hopeless fun s => ⟨_, .unclosed (h.line_rest hp.stable hnil s)
        (head?_append_of hk fun h => absurd h hnil)⟩

end

/-! ### Nodes -/

section
variable {d : Dialect} {element deeper : Reads Value} {u : List Char} {f : Fault}

theorem NodeCut.atLineEnd (he : Foreseen element) (hd : Foreseen deeper)
    (h : NodeCut d element deeper u f) (hu : u.getLast? ≠ some '\'') :
    AtLineEnd (NodeCut d element deeper) u := by
  have hmark : ∀ s, ∀ c ∈ ('\n' :: s).head?, c ≠ '\'' := fun s =>
    (closes_line s).head_ne (by decide)
  cases h with
  | @string u f h =>
    obtain hwaits | hhopeless := h.line
    · obtain ⟨f', h', hf'⟩ := hwaits ('"' :: (u ++ ['\n']))
      exact .waits (.string h') hf'
    · refine .hopeless fun s => ?_
      obtain ⟨f', h'⟩ := hhopeless ('"' :: (u ++ '\n' :: s)) s
      exact ⟨f', .string h'⟩
  | character h =>
    refine .hopeless fun s => ?_
    obtain ⟨f', h'⟩ := h.line s
    exact ⟨f', .character h'⟩
  | quotedAtom hno h =>
    refine .hopeless fun s => ?_
    obtain ⟨f', h'⟩ := h.line s
    exact ⟨f', .quotedAtom (hno.append h.ne_nil (hmark s)) h'⟩
  | @quotedList u f hno h =>
    have hend := h.atLineEnd hd (getLast?_ne_of_suffix (List.suffix_append ['\'', '('] u) hu)
    exact hend.imp fun s f hs => .quotedList (hno.append (by simp) (hmark s)) hs
  | @unquotable u hno hn hp =>
    -- With nothing behind the mark the line break could still be a character.
    have hne : u ≠ [] := by
      intro hnil
      subst hnil
      exact hu rfl
    exact .hopeless fun s => ⟨_, .unquotable (hno.append hne (hmark s))
      (hn.append hne (closes_line s)) (head?_append_of hp fun h => absurd h hne)⟩
  | @list u f h =>
    have hend := h.atLineEnd he (getLast?_ne_of_suffix (List.suffix_cons _ u) hu)
    exact hend.imp fun s f hs => .list hs
  | literal hm h =>
    refine .hopeless fun s => ?_
    obtain ⟨f', h'⟩ := literal_cut_closed h (closes_line s)
    exact ⟨f', .literal (hm.append (ne_nil_of_literal_cut h) _) h'⟩
  | atom hm hl h =>
    refine .hopeless fun s => ?_
    obtain ⟨f', h'⟩ := h.line s
    exact ⟨f', .atom (hm.append h.ne_nil _) (backtracks_literal_closed hl (closes_line s)) h'⟩

/-- The induction is on the levels. -/
theorem foreseen_node (d : Dialect) (n : Nat) : Foreseen (node d n) := by
  induction n using Nat.strongRecOn with
  | ind n ih =>
    cases n with
    | zero => exact ⟨stable_node d 0, fun _ _ => .hopeless fun s => ⟨_, rfl⟩, fun _ cs => ⟨_, rfl⟩⟩
    | succ n =>
      have he := ih n n.lt_succ_self
      have hd := ih (n - 1) (by omega)
      refine ⟨stable_node d (n + 1), ?_, ?_⟩
      · intro u f h hu
        rw [node_eq_cut_iff] at h
        exact (h.atLineEnd he hd hu).imp fun s f hs => node_eq_cut_iff.2 hs
      · intro f h
        exact absurd (backtracks_node_iff.2 nodeless_nil) (not_backtracks_of_cut h)

end

/-! ### Programs -/

/-- In every dialect a text that another line makes a program is a program itself, or incomplete, at
the end of its last line, unless it ends with a quote mark. -/
theorem readProgram_line (d : Dialect) {u s : String} {vs : List Value}
    (hu : u.toList.getLast? ≠ some '\'') (h : d.readProgram (u ++ "\n" ++ s) = .ok vs) :
    (∃ us, d.readProgram (u ++ "\n") = .ok us) ∨
      ∃ e, d.readProgram (u ++ "\n") = .error e ∧ e.kind = .incomplete := by
  have hp : Foreseen (topNode d) := foreseen_node d maxReadDepth
  have hbreak : (u ++ "\n").toList = u.toList ++ ['\n'] := by simp
  -- How far does the text go without what is put behind it?
  obtain ⟨us, k, hread⟩ | ⟨f, hf⟩ := itemsRead_or_itemsCut hp.stable.takes u.toList
  · by_cases hk : k = []
    · subst hk
      refine .inl ⟨us, readProgram_of_items ?_⟩
      rw [hbreak]
      exact hread.line hp.stable
    · have hrest := hread.line_rest hp.stable hk s.toList
      rw [← toList_line] at hrest
      obtain ⟨e, he, -⟩ := readProgram_trailing hrest (by simp)
      rw [he] at h
      cases h
  · cases hf.atLineEnd hp hu with
    | waits hwaits hkind =>
      rw [← hbreak] at hwaits
      exact .inr ⟨_, readProgram_of_itemsCut hwaits, hkind⟩
    | hopeless hhopeless =>
      obtain ⟨f', hf'⟩ := hhopeless s.toList
      rw [← toList_line] at hf'
      rw [readProgram_of_itemsCut hf'] at h
      cases h

/-- A string and a list that go on in the next line. -/
theorem readProgram_line_string :
    "(f \"a".toList.getLast? ≠ some '\'' ∧
      basic.readProgram ("(f \"a" ++ "\n" ++ "b\")") =
        .ok [.list [.ofName "f", .string "a\nb"]] ∧
      ((∃ us, basic.readProgram ("(f \"a" ++ "\n") = .ok us) ∨
        ∃ e, basic.readProgram ("(f \"a" ++ "\n") = .error e ∧ e.kind = .incomplete) := by
  have hu : "(f \"a".toList.getLast? ≠ some '\'' := by decide
  have h : basic.readProgram ("(f \"a" ++ "\n" ++ "b\")") =
      .ok [.list [.ofName "f", .string "a\nb"]] := by cbv
  exact ⟨hu, h, readProgram_line basic hu h⟩

/-- Behind a quote mark at the end of the line the line break may be a character; but so far it is
neither a name nor a list. -/
example :
    basic.readProgram ("'" ++ "\n" ++ "'") = .ok [.char '\n'] ∧
      basic.readProgram ("'" ++ "\n") =
        .error { kind := .invalid, message := "Invalid syntax near '\n'",
                 context := some "'\\n", found := some "\n" } := by
  constructor
  · cbv
  · cbv

end HostLisp.Reader
