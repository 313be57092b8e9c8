import HostLisp.Proofs.Reading.Node

/-!
# Reading what was laid out

A reader takes a layout of a readable value for the value, in every dialect and whatever follows, if
the value nests less deep than the levels it has left.  Otherwise it fails for good.  Both are
inductions on the layout; inside a list the items are read one by one, and a closing parenthesis
ends them because no alternative takes it.
-/

namespace HostLisp.Reader

open Parsing

/-! ### What a layout begins with -/

/-- A number, a keyword or an atom begins with no boundary. -/
theorem exists_cons_word {v : Value} (hq : ∀ w, v ≠ .quote w) (hc : v.isClosed = false)
    (hv : v.isReadable = true) : ∃ c cs, v.chars = c :: cs ∧ isBoundary c = false := by
  cases v with
  | nil => exact ⟨'n', _, rfl, by decide⟩
  | bool b =>
    cases b
    · exact ⟨'f', _, rfl, by decide⟩
    · exact ⟨'t', _, rfl, by decide⟩
  | int i =>
    obtain ⟨c, cs, htext, hname⟩ := exists_cons_signed i.toInt
    exact ⟨c, cs, htext, isBoundary_of_isNameChar hname⟩
  | atom a =>
    rw [Value.isReadable, Bool.and_eq_true] at hv
    exact exists_cons_atom hv.1
  | quote inner => exact absurd rfl (hq inner)
  | char c => cases hc
  | string s => cases hc
  | list items => cases hc
  | float x => cases hv
  | lambda i c => cases hv
  | deferred t => cases hv
  | native c => cases hv
  | time t => cases hv
  | duration d => cases hv
  | host o => cases hv

/-- The first character of a layout is no white space; a quote mark opens a marked value only. -/
theorem exists_cons_layout {v : Value} {t : List Char} (h : Layout v t)
    (hv : v.isReadable = true) :
    ∃ c cs, t = c :: cs ∧ isSpacing c = false ∧ (v.isMarked = false → c ≠ '\'') := by
  cases h with
  | quote h => exact ⟨'\'', _, rfl, by decide, by simp [Value.isMarked]⟩
  | list hs h => exact ⟨'(', _, rfl, by decide, fun _ => by decide⟩
  | printed hl hq =>
    cases hc : v.isClosed with
    | false =>
      obtain ⟨c, cs, htext, hb⟩ := exists_cons_word hq hc hv
      refine ⟨c, cs, htext, ?_, ?_⟩
      · rw [Bool.eq_false_iff]
        intro hs
        rw [Value.isBoundary_of_isSpacing hs] at hb
        cases hb
      · rintro - rfl
        exact absurd hb (by decide)
    | true =>
      cases v with
      | string s => exact ⟨'"', _, rfl, by decide, fun _ => by decide⟩
      | char c => exact ⟨'\'', _, rfl, by decide, by simp [Value.isMarked]⟩
      | list items => cases hl
      | quote inner => exact absurd rfl (hq inner)
      | _ => cases hc

/-- So for several values, up to a closing parenthesis or the end of the text. -/
theorem head_itemsLayout {vs : List Value} {u : List Char} (h : ItemsLayout vs u)
    (hvs : Value.areReadable vs = true) {k : List Char} (hk : ∀ c ∈ k.head?, c = ')') :
    ∀ c ∈ (u ++ k).head?,
      isSpacing c = false ∧ (vs.head?.any Value.isMarked = false → c ≠ '\'') := by
  cases h with
  | nil =>
    intro c hc
    rw [hk c hc]
    decide
  | cons hv hs hrest hend =>
    rw [Value.areReadable, Bool.and_eq_true] at hvs
    obtain ⟨d, cs, rfl, hd, hm⟩ := exists_cons_layout hv hvs.1
    rintro c ⟨⟩
    exact ⟨hd, hm⟩

/-! ### White space -/

theorem spacing_append {s k : List Char} (hs : IsSpacing s)
    (hk : ∀ c ∈ k.head?, isSpacing c = false) : spacing (s ++ k) = .ok ((), k) := by
  have hdrop : (s ++ k).dropWhile isSpacing = k := by
    rw [List.dropWhile_append_of_pos hs]
    cases k with
    | nil => rfl
    | cons c k => exact List.dropWhile_cons_of_neg (by simp [hk c rfl])
  show Except.ok ((), (s ++ k).dropWhile isSpacing) = _
  rw [hdrop]

/-! ### Lists and quotes -/

section
variable (d : Dialect) {element deeper : Reads Value} {vs : List Value} {s t k : List Char}

/-- The items between the parentheses, behind white space. -/
theorem list_of_many (hs : IsSpacing s) (ht : ∀ c ∈ t.head?, isSpacing c = false)
    (h : many (terminated element spacing) t = .ok (vs, ')' :: k)) :
    list element ('(' :: (s ++ t)) = .ok (vs, k) := by
  have hopen : preceded (char '(') spacing ('(' :: (s ++ t)) = .ok ((), t) := by
    rw [preceded_of_ok (char_cons '(' _), spacing_append hs ht]
  exact between_of_ok hopen h (cut_of_ok (char_cons ')' k))

theorem list_of_many_error {e : Fail Fault} (hs : IsSpacing s)
    (ht : ∀ c ∈ t.head?, isSpacing c = false)
    (h : many (terminated element spacing) t = .error e) :
    list element ('(' :: (s ++ t)) = .error e := by
  have hopen : preceded (char '(') spacing ('(' :: (s ++ t)) = .ok ((), t) := by
    rw [preceded_of_ok (char_cons '(' _), spacing_append hs ht]
  exact between_of_error hopen h

theorem nodeOf_list (h : list element ('(' :: t) = .ok (vs, k)) :
    nodeOf d element deeper ('(' :: t) = .ok (.list vs, k) := by
  rw [nodeOf_paren]
  exact choice_of_ok (map_of_ok _ h)

theorem nodeOf_list_error {f : Fault} (h : list element ('(' :: t) = .error (.cut f)) :
    nodeOf d element deeper ('(' :: t) = .error (.cut f) := by
  rw [nodeOf_paren]
  exact choice_of_cut (map_of_error _ h)

theorem quoted_paren : quoted d deeper ('(' :: t) = (.list <$> list deeper) ('(' :: t) :=
  orElse_of_backtracks (backtracks_atom d (.cons (by decide))).map

/-- The inside of a quoted list begins with neither a second quote mark nor a backslash. -/
theorem nodeOf_quotedList (ht : ∀ c ∈ t.head?, c ≠ '\'')
    (h : list deeper ('(' :: t) = .ok (vs, k)) :
    nodeOf d element deeper ('\'' :: '(' :: t) = .ok (.quote (.list vs), k) := by
  rw [nodeOf_mark d element deeper (backtracks_character_mark (by decide) (by decide) ht)]
  refine map_of_ok _ (cut_of_ok ?_)
  rw [quoted_paren]
  exact map_of_ok _ h

theorem nodeOf_quotedList_error {f : Fault} (ht : ∀ c ∈ t.head?, c ≠ '\'')
    (h : list deeper ('(' :: t) = .error (.cut f)) :
    nodeOf d element deeper ('\'' :: '(' :: t) = .error (.cut f) := by
  rw [nodeOf_mark d element deeper (backtracks_character_mark (by decide) (by decide) ht)]
  refine map_of_error _ (cut_of_cut ?_)
  rw [quoted_paren]
  exact map_of_error _ h

end

/-- Nothing takes a closing parenthesis or the end of the text. -/
theorem backtracks_nodeOf (d : Dialect) (element deeper : Reads Value) {k : List Char}
    (hk : ∀ c ∈ k.head?, c = ')') : Backtracks (nodeOf d element deeper) k := by
  have hstop : Stops k := fun c hc => by
    rw [hk c hc]
    decide
  have hne : ∀ {d : Char}, d ≠ ')' → ∀ c ∈ k.head?, c ≠ d := fun hd c hc => by
    rw [hk c hc]
    exact hd.symm
  have hword : NoWord k := noWord_of_endsName hstop.endsName
  have heq := nodeOf_of_noWord d element deeper (backtracks_string (hne (by decide)))
    (backtracks_character (hne (by decide))) hword
  have hlist : Backtracks (list element) k := (backtracks_char (hne (by decide))).preceded.between
  have hquote : Backtracks (preceded (char '\'') (cut (quoted d deeper))) k :=
    (backtracks_char (hne (by decide))).preceded
  obtain ⟨e, he⟩ := (backtracks_atom d hstop).map.orElse (hlist.map.orElse hquote.map)
  exact ⟨e, heq.trans he⟩

/-- One level is spent on a node: its lists have one less for their elements, and its quoted lists
two, as far as there are any. -/
theorem node_succ (d : Dialect) (n : Nat) :
    node d (n + 1) = nodeOf d (node d n) (node d (n - 1)) := by
  funext cs
  cases n <;> rfl

/-! ### Values that nest few enough levels -/

/-- Strings and characters close themselves, so what follows does not matter. -/
theorem nodeOf_closed (d : Dialect) (element deeper : Reads Value) {v : Value}
    (hl : v.isList = false) (hq : ∀ w, v ≠ .quote w) (hc : v.isClosed = true) (k : List Char) :
    nodeOf d element deeper (v.chars ++ k) = .ok (v, k) := by
  cases v with
  | string s => exact nodeOf_string d element deeper (string_append s k)
  | char c =>
    have hmark : Stops ((Value.char c).chars ++ k) := .cons (by decide)
    exact nodeOf_character d element deeper (backtracks_string (by rintro c ⟨⟩; decide))
      (noWord_of_endsName hmark.endsName) (character_append c k)
  | list items => cases hl
  | quote inner => exact absurd rfl (hq inner)
  | _ => cases hc

/-- Numbers, keywords and atoms need a boundary behind them. -/
theorem nodeOf_word (d : Dialect) (element deeper : Reads Value) {v : Value}
    (hq : ∀ w, v ≠ .quote w) (hc : v.isClosed = false) (hv : v.isReadable = true) {k : List Char}
    (hk : Stops k) : nodeOf d element deeper (v.chars ++ k) = .ok (v, k) := by
  obtain ⟨c, cs, htext, hb⟩ := exists_cons_word hq hc hv
  have hne : ∀ {e : Char}, isBoundary e = true → ∀ f ∈ (v.chars ++ k).head?, f ≠ e := by
    intro e he f hf
    rw [htext] at hf
    cases hf
    rintro rfl
    rw [he] at hb
    cases hb
  have hstring : Backtracks string (v.chars ++ k) := backtracks_string (hne (by decide))
  have hcharacter : Backtracks character (v.chars ++ k) := backtracks_character (hne (by decide))
  have hpoint : ∀ c ∈ k.head?, c ≠ '.' := by
    rintro c hc rfl
    exact absurd (hk _ hc) (by decide)
  cases v with
  | int i =>
    have hfloat : Backtracks float ((Value.int i).chars ++ k) :=
      backtracks_float hk.endsName (fun c hc => isNameChar_of_mem_signed hc) (.inr hpoint)
    exact nodeOf_int d element deeper hstring hfloat (int_signed i hk)
  | bool b =>
    have hname : ∀ c ∈ (Value.bool b).chars, isNameChar c = true := by
      cases b <;> exact List.all_eq_true.1 rfl
    have hdigits : (dropSign (Value.bool b).chars).takeWhile Char.isDigit = [] := by
      cases b <;> rfl
    exact nodeOf_bool d element deeper hstring
      (backtracks_float hk.endsName hname (.inl hdigits))
      (backtracks_int hk.endsName hname (.inl hdigits)) hcharacter (bool_append b hk)
  | nil =>
    have hname : ∀ c ∈ Value.nil.chars, isNameChar c = true := List.all_eq_true.1 rfl
    exact nodeOf_nil d element deeper hstring
      (backtracks_float hk.endsName hname (.inl rfl)) (backtracks_int hk.endsName hname (.inl rfl))
      hcharacter (backtracks_bool hk.endsName hname (by rintro (h | h) <;> cases h)) (nil_append hk)
  | atom a =>
    rw [Value.isReadable, Bool.and_eq_true, Bool.not_eq_true'] at hv
    have hword : NoWord (a.chars ++ k) := noWord_atom d hv.1 hv.2 hk
    rw [nodeOf_of_noWord d element deeper hstring hcharacter hword]
    exact choice_of_ok (map_of_ok _ (atom_append d hv.1 hk))
  | quote inner => exact absurd rfl (hq inner)
  | char c => cases hc
  | string s => cases hc
  | list items => cases hc
  | float x => cases hv
  | lambda i c => cases hv
  | deferred t => cases hv
  | native c => cases hv
  | time t => cases hv
  | duration d => cases hv
  | host o => cases hv

/-- A quoted atom does not look like a character, and is read on every level. -/
theorem nodeOf_quotedAtom (d : Dialect) (element deeper : Reads Value) {a : Atom}
    (ha : (Value.quote (.atom a)).isReadable = true) {k : List Char} (hk : Stops k)
    (hmark : a.chars.length = 1 → ∀ c ∈ k.head?, c ≠ '\'') :
    nodeOf d element deeper ('\'' :: (a.chars ++ k)) = .ok (.quote (.atom a), k) := by
  rw [Value.isReadable, Bool.and_eq_true, decide_eq_true_eq] at ha
  obtain ⟨ha, hbackslash⟩ := ha
  obtain ⟨c, cs, hname, hc⟩ := exists_cons_name (Atom.isReadable_name ha)
  obtain ⟨rest, hrest⟩ := exists_afterName d ha hk
  have hchar : Backtracks character ('\'' :: (a.chars ++ k)) := by
    rw [hrest.text, hname]
    refine backtracks_character_mark ?_ ?_ fun e he => ?_
    · rintro rfl
      exact absurd hc (by decide)
    · rintro rfl
      exact hbackslash (by rw [hname]; rfl)
    · cases cs with
      | nil => exact hrest.noMark (fun hany => hmark (by simp [Atom.chars, hany, hname])) e he
      | cons f cs =>
        cases he
        rintro rfl
        have hf := isBoundary_of_mem_name (Atom.isReadable_name ha) '\'' (by simp [hname])
        exact absurd hf (by decide)
  rw [nodeOf_mark d element deeper hchar]
  exact map_of_ok _ (cut_of_ok (orElse_of_ok (map_of_ok _ (atom_append d ha hk))))

/-! ### Layouts -/

/-- White space is no quote mark. -/
theorem head_ne_mark {s t : List Char} (hs : IsSpacing s) (ht : ∀ c ∈ t.head?, c ≠ '\'') :
    ∀ c ∈ (s ++ t).head?, c ≠ '\'' := by
  cases s with
  | nil => exact ht
  | cons c s =>
    rintro d ⟨⟩ rfl
    exact absurd (hs '\'' List.mem_cons_self) (by decide)

/-- An item ends before the items behind it, and what ends them. -/
theorem endsBefore_items {v : Value} {s u k : List Char} (h : v.EndsBefore (s ++ u))
    (hk : ∀ c ∈ k.head?, c = ')') : v.EndsBefore (s ++ (u ++ k)) := by
  rw [← List.append_assoc]
  refine h.append ?_
  cases k with
  | nil => exact Value.EndsBefore.nil v
  | cons c k =>
    rw [hk c rfl]
    exact Value.endsBefore_cons (by decide) (by decide)

/-- An item of a list with the white space behind it. -/
theorem item_of_node {element : Reads Value} {v : Value} {t s k : List Char} (hs : IsSpacing s)
    (hk : ∀ c ∈ k.head?, isSpacing c = false)
    (h : element (t ++ (s ++ k)) = .ok (v, s ++ k)) :
    terminated element spacing (t ++ (s ++ k)) = .ok (v, k) :=
  terminated_of_ok h (spacing_append hs hk)

theorem length_lt_of_layout {v : Value} {t : List Char} (h : Layout v t)
    (hv : v.isReadable = true) (s k : List Char) :
    Input.remaining k < Input.remaining (t ++ (s ++ k)) := by
  obtain ⟨c, cs, rfl, -⟩ := exists_cons_layout h hv
  show k.length < (c :: cs ++ (s ++ k)).length
  simp only [List.length_append, List.length_cons]
  omega

mutual
/-- A layout of a readable value, followed by anything the value ends before, is read as the value
if there are levels enough. -/
theorem node_of_layout (d : Dialect) : {v : Value} → {t : List Char} → Layout v t →
    v.isReadable = true → ∀ {n : Nat} {k : List Char}, v.nesting < n → v.EndsBefore k →
      node d n (t ++ k) = .ok (v, k)
  | v, _, .printed hl hq, hv, n + 1, k, _, hk => by
    rw [node_succ]
    cases hc : v.isClosed with
    | true => exact nodeOf_closed d _ _ hl hq hc k
    | false =>
      obtain h | h := hk
      · rw [hc] at h
        cases h
      · exact nodeOf_word d _ _ hq hc hv fun c hd => (h c hd).1
  | .list vs, _, .list (s := s) (t := t) hs hitems, hv, n + 1, k, hn, _ => by
    rw [Value.nesting] at hn
    rw [Value.isReadable] at hv
    have hclose : ∀ c ∈ (')' :: k).head?, c = ')' := by rintro c ⟨⟩; rfl
    have htext : '(' :: (s ++ t ++ [')']) ++ k = '(' :: (s ++ (t ++ ')' :: k)) := by simp
    have hmany := many_of_layout d hitems hv (Nat.lt_of_succ_lt_succ hn) hclose
    have hhead := head_itemsLayout hitems hv hclose
    rw [node_succ, htext]
    exact nodeOf_list d (list_of_many hs (fun c hc => (hhead c hc).1) hmany)
  | _, _, .quote (.printed (v := v) hl hq), hv, n + 1, k, _, hk => by
    cases v with
    | atom a =>
      obtain h | h := hk
      · cases h
      · rw [node_succ]
        exact nodeOf_quotedAtom d _ _ hv (fun c hc => (h c hc).1) fun hlen c hc =>
          (h c hc).2 (by simpa [Value.isHalfCharacter] using hlen)
    | list items => cases hl
    | _ => cases hv
  | _, _, .quote (.quote _), hv, _, _, _, _ => by cases hv
  | _, _, .quote (@Layout.list vs s t hs hitems), hv, n + 2, k, hn, _ => by
    have hn : Value.nestingOfItems vs < n := by
      simp only [Value.nesting, Value.isList, if_true] at hn
      omega
    rw [Value.isReadable, Bool.and_eq_true, Bool.not_eq_true'] at hv
    have hclose : ∀ c ∈ (')' :: k).head?, c = ')' := by rintro c ⟨⟩; rfl
    have htext : '\'' :: '(' :: (s ++ t ++ [')']) ++ k = '\'' :: '(' :: (s ++ (t ++ ')' :: k)) := by
      simp
    have hmany := many_of_layout d hitems hv.1 hn hclose
    have hhead := head_itemsLayout hitems hv.1 hclose
    have hmark := head_ne_mark hs fun c hc => (hhead c hc).2 hv.2
    rw [node_succ, htext]
    exact nodeOf_quotedList d hmark (list_of_many hs (fun c hc => (hhead c hc).1) hmany)
  | _, _, .quote (.list _ _), _, 1, _, hn, _ => by
    simp only [Value.nesting, Value.isList, if_true] at hn
    omega
/-- Layouts of readable values, up to a closing parenthesis or the end of the text. -/
theorem many_of_layout (d : Dialect) : {vs : List Value} → {u : List Char} → ItemsLayout vs u →
    Value.areReadable vs = true → ∀ {n : Nat} {k : List Char}, Value.nestingOfItems vs < n →
      (∀ c ∈ k.head?, c = ')') → many (terminated (node d n) spacing) (u ++ k) = .ok (vs, k)
  | _, _, .nil, _, n + 1, k, _, hk => by
    rw [node_succ]
    exact many_of_backtracks (backtracks_nodeOf d _ _ hk).terminated
  | _, _, @ItemsLayout.cons v vs t s u hv hs hvs hend, hr, n, k, hn, hk => by
    rw [Value.areReadable, Bool.and_eq_true] at hr
    rw [Value.nestingOfItems, Nat.max_lt] at hn
    have hnode := node_of_layout d hv hr.1 hn.1 (endsBefore_items hend hk)
    have hitem := item_of_node hs (fun c hc => (head_itemsLayout hvs hr.2 hk c hc).1) hnode
    have htext : t ++ (s ++ u) ++ k = t ++ (s ++ (u ++ k)) := by simp
    rw [htext]
    exact many_cons hitem (length_lt_of_layout hv hr.1 s (u ++ k))
      (many_of_layout d hvs hr.2 hn.2 hk)
end

/-! ### Values that nest too deep -/

/-- The parser fails for good because too many levels are open. -/
def TooDeep {α : Type} (p : Reads α) (cs : List Char) : Prop :=
  ∃ rest, p cs = .error (.cut ⟨.tooDeep, rest⟩)

theorem tooDeep_zero (d : Dialect) (cs : List Char) : TooDeep (node d 0) cs := ⟨cs, rfl⟩

theorem TooDeep.many {element : Reads Value} {cs : List Char} (h : TooDeep element cs) :
    TooDeep (Parsing.many (terminated element spacing)) cs := by
  obtain ⟨rest, h⟩ := h
  exact ⟨rest, many_of_cut (terminated_of_error h)⟩

theorem TooDeep.list {element : Reads Value} {s t : List Char} (hs : IsSpacing s)
    (ht : ∀ c ∈ t.head?, isSpacing c = false)
    (h : TooDeep (Parsing.many (terminated element spacing)) t) :
    TooDeep (Reader.list element) ('(' :: (s ++ t)) := by
  obtain ⟨rest, h⟩ := h
  exact ⟨rest, list_of_many_error hs ht h⟩

theorem TooDeep.nodeOf_list {d : Dialect} {element deeper : Reads Value} {t : List Char}
    (h : TooDeep (Reader.list element) ('(' :: t)) :
    TooDeep (nodeOf d element deeper) ('(' :: t) := by
  obtain ⟨rest, h⟩ := h
  exact ⟨rest, nodeOf_list_error d h⟩

theorem TooDeep.nodeOf_quotedList {d : Dialect} {element deeper : Reads Value} {t : List Char}
    (ht : ∀ c ∈ t.head?, c ≠ '\'') (h : TooDeep (Reader.list deeper) ('(' :: t)) :
    TooDeep (nodeOf d element deeper) ('\'' :: '(' :: t) := by
  obtain ⟨rest, h⟩ := h
  exact ⟨rest, nodeOf_quotedList_error d ht h⟩

mutual
/-- A layout that nests as deep as there are levels is not read. -/
theorem tooDeep_of_layout (d : Dialect) : {v : Value} → {t : List Char} → Layout v t →
    v.isReadable = true → ∀ {n : Nat} (k : List Char), n ≤ v.nesting →
      TooDeep (node d n) (t ++ k)
  | _, _, _, _, 0, _, _ => tooDeep_zero d _
  | v, _, .printed hl hq, _, n + 1, k, hn => by
    cases v with
    | list items => cases hl
    | quote inner => exact absurd rfl (hq inner)
    | _ => exact absurd hn (Nat.not_succ_le_zero n)
  | .list vs, _, .list (s := s) (t := t) hs hitems, hv, n + 1, k, hn => by
    rw [Value.nesting] at hn
    rw [Value.isReadable] at hv
    have hclose : ∀ c ∈ (')' :: k).head?, c = ')' := by rintro c ⟨⟩; rfl
    have htext : '(' :: (s ++ t ++ [')']) ++ k = '(' :: (s ++ (t ++ ')' :: k)) := by simp
    have hmany := tooDeep_many_of_layout d hitems hv (Nat.le_of_succ_le_succ hn) hclose
    have hhead := head_itemsLayout hitems hv hclose
    rw [node_succ, htext]
    exact (hmany.list hs fun c hc => (hhead c hc).1).nodeOf_list
  | _, _, .quote (.printed (v := v) hl hq), hv, n + 1, k, hn => by
    cases v with
    | atom a => exact absurd hn (Nat.not_succ_le_zero n)
    | list items => cases hl
    | _ => cases hv
  | _, _, .quote (.quote _), hv, _, _, _ => by cases hv
  | _, _, .quote (@Layout.list vs s t hs hitems), hv, n + 1, k, hn => by
    have hn : n - 1 ≤ Value.nestingOfItems vs := by
      simp only [Value.nesting, Value.isList, if_true] at hn
      omega
    rw [Value.isReadable, Bool.and_eq_true, Bool.not_eq_true'] at hv
    have hclose : ∀ c ∈ (')' :: k).head?, c = ')' := by rintro c ⟨⟩; rfl
    have htext : '\'' :: '(' :: (s ++ t ++ [')']) ++ k = '\'' :: '(' :: (s ++ (t ++ ')' :: k)) := by
      simp
    have hmany := tooDeep_many_of_layout d hitems hv.1 hn hclose
    have hhead := head_itemsLayout hitems hv.1 hclose
    have hmark := head_ne_mark hs fun c hc => (hhead c hc).2 hv.2
    rw [node_succ, htext]
    exact (hmany.list hs fun c hc => (hhead c hc).1).nodeOf_quotedList hmark
/-- The items in front of the one that nests too deep are read. -/
theorem tooDeep_many_of_layout (d : Dialect) : {vs : List Value} → {u : List Char} →
    ItemsLayout vs u → Value.areReadable vs = true → ∀ {n : Nat} {k : List Char},
      n ≤ Value.nestingOfItems vs → (∀ c ∈ k.head?, c = ')') →
        TooDeep (many (terminated (node d n) spacing)) (u ++ k)
  | _, _, .nil, _, n, k, hn, _ => by
    obtain rfl : n = 0 := Nat.le_zero.1 hn
    exact (tooDeep_zero d _).many
  | _, _, @ItemsLayout.cons v vs t s u hv hs hvs hend, hr, n, k, hn, hk => by
    rw [Value.areReadable, Bool.and_eq_true] at hr
    have htext : t ++ (s ++ u) ++ k = t ++ (s ++ (u ++ k)) := by simp
    rw [htext]
    by_cases hdeep : n ≤ v.nesting
    · exact (tooDeep_of_layout d hv hr.1 _ hdeep).many
    · have hrest : n ≤ Value.nestingOfItems vs := by
        rw [Value.nestingOfItems] at hn
        omega
      have hnode := node_of_layout d hv hr.1 (Nat.lt_of_not_le hdeep) (endsBefore_items hend hk)
      have hitem := item_of_node hs (fun c hc => (head_itemsLayout hvs hr.2 hk c hc).1) hnode
      obtain ⟨rest, h⟩ := tooDeep_many_of_layout d hvs hr.2 hrest hk
      exact ⟨rest, many_cons_of_error hitem (length_lt_of_layout hv hr.1 s (u ++ k)) h⟩
end

/-! ### Whole texts -/

theorem run_of_tooDeep {α : Type} {p : Reads α} {cs : List Char} (h : TooDeep p cs) :
    ∃ e, run p cs = .error e ∧ e.kind = .tooDeep := by
  obtain ⟨rest, h⟩ := h
  refine ⟨Fault.locate ⟨.tooDeep, rest⟩ cs, ?_, rfl⟩
  unfold run
  rw [h]
  rfl

section
variable (d : Dialect) {v : Value} {vs : List Value} {before t u rest : List Char}

theorem spacedNode_of_layout (h : Layout v t) (hv : v.isReadable = true) (hb : IsSpacing before)
    (hn : v.nesting < maxReadDepth) (hr : v.EndsBefore rest) :
    spacedNode d (before ++ (t ++ rest)) = .ok (v, rest.dropWhile isSpacing) := by
  obtain ⟨c, cs, htext, hc, -⟩ := exists_cons_layout h hv
  have hspace : spacing (before ++ (t ++ rest)) = .ok ((), t ++ rest) :=
    spacing_append hb (by rw [htext]; rintro d ⟨⟩; exact hc)
  have hnode : preceded spacing (topNode d) (before ++ (t ++ rest)) = .ok (v, rest) := by
    rw [preceded_of_ok hspace]
    exact node_of_layout d h hv hn hr
  exact terminated_of_ok hnode rfl

theorem tooDeep_spacedNode (rest : List Char) (h : Layout v t) (hv : v.isReadable = true)
    (hb : IsSpacing before) (hn : maxReadDepth ≤ v.nesting) : TooDeep (spacedNode d) (before ++ (t ++ rest)) := by
  obtain ⟨c, cs, htext, hc, -⟩ := exists_cons_layout h hv
  have hspace : spacing (before ++ (t ++ rest)) = .ok ((), t ++ rest) :=
    spacing_append hb (by rw [htext]; rintro d ⟨⟩; exact hc)
  obtain ⟨stop, hdeep⟩ := tooDeep_of_layout d h hv rest hn
  refine ⟨stop, terminated_of_error ?_⟩
  rw [preceded_of_ok hspace]
  exact hdeep

theorem program_of_layout (h : ItemsLayout vs u) (hvs : Value.areReadable vs = true)
    (hb : IsSpacing before) (hn : Value.nestingOfItems vs < maxReadDepth) :
    program d (before ++ u) = .ok (vs, []) := by
  have hend : ∀ c ∈ ([] : List Char).head?, c = ')' := by rintro c ⟨⟩
  have hhead := head_itemsLayout h hvs hend
  have hmany := many_of_layout d h hvs hn hend
  rw [List.append_nil] at hhead hmany
  have hstop : (eof : Reads Unit) [] = .ok ((), []) := rfl
  refine terminated_of_ok ?_ hstop
  rw [preceded_of_ok (spacing_append hb fun c hc => (hhead c hc).1)]
  exact hmany

theorem tooDeep_program (h : ItemsLayout vs u) (hvs : Value.areReadable vs = true)
    (hb : IsSpacing before) (hn : maxReadDepth ≤ Value.nestingOfItems vs) :
    TooDeep (program d) (before ++ u) := by
  have hend : ∀ c ∈ ([] : List Char).head?, c = ')' := by rintro c ⟨⟩
  have hhead := head_itemsLayout h hvs hend
  have hmany := tooDeep_many_of_layout d h hvs hn hend
  rw [List.append_nil] at hhead hmany
  obtain ⟨stop, hdeep⟩ := hmany
  refine ⟨stop, terminated_of_error ?_⟩
  rw [preceded_of_ok (spacing_append hb fun c hc => (hhead c hc).1)]
  exact hdeep

end

/-- Reading undoes printing, whatever the layout: in every dialect a layout of a readable value is
read as that value, and of a row of values as that row, if they nest less than `maxReadDepth` deep;
otherwise reading fails because they nest too deep.  What the printer writes is a layout. -/
theorem read_of_layout (d : Dialect) :
    (∀ v : Value, Layout v v.text.toList) ∧
    (∀ (v : Value) (before t rest : List Char), v.isReadable = true → IsSpacing before →
      Layout v t → v.EndsBefore rest →
      (v.nesting < maxReadDepth →
        d.read (String.ofList (before ++ (t ++ rest))) =
          .ok (v, String.ofList (rest.dropWhile isSpacing))) ∧
      (maxReadDepth ≤ v.nesting →
        ∃ e, d.read (String.ofList (before ++ (t ++ rest))) = .error e ∧ e.kind = .tooDeep)) ∧
    ∀ (vs : List Value) (before u : List Char), Value.areReadable vs = true → IsSpacing before →
      ItemsLayout vs u →
      (Value.nestingOfItems vs < maxReadDepth →
        d.readProgram (String.ofList (before ++ u)) = .ok vs) ∧
      (maxReadDepth ≤ Value.nestingOfItems vs →
        ∃ e, d.readProgram (String.ofList (before ++ u)) = .error e ∧ e.kind = .tooDeep) := by
  refine ⟨fun v => ?_, fun v before t rest hv hb h hr => ⟨fun hn => ?_, fun hn => ?_⟩,
    fun vs before u hvs hb h => ⟨fun hn => ?_, fun hn => ?_⟩⟩
  · rw [Value.text, String.toList_ofList]
    exact Layout.chars v
  · unfold Dialect.read run
    rw [String.toList_ofList, spacedNode_of_layout d h hv hb hn hr]
    rfl
  · obtain ⟨e, he, hkind⟩ := run_of_tooDeep (tooDeep_spacedNode d rest h hv hb hn)
    refine ⟨e, ?_, hkind⟩
    unfold Dialect.read
    rw [String.toList_ofList, he]
    rfl
  · unfold Dialect.readProgram run
    rw [String.toList_ofList, program_of_layout d h hvs hb hn]
    rfl
  · obtain ⟨e, he, hkind⟩ := run_of_tooDeep (tooDeep_program d h hvs hb hn)
    refine ⟨e, ?_, hkind⟩
    unfold Dialect.readProgram
    rw [String.toList_ofList, he]
    rfl

/-- A list whose items touch where they may, between white space of all four kinds. -/
theorem read_of_layout_touching :
    basic.read "\t( f\r\n'x\"a\" true)  rest" =
      .ok (.list [.ofName "f", .quote (.ofName "x"), .string "a", .bool true], "rest") := by
  have hs : ∀ {s : List Char}, s.all isSpacing = true → IsSpacing s := List.all_eq_true.1
  have word : ∀ v : Value, v.isList = false → (∀ w, v ≠ .quote w) → Layout v v.chars :=
    fun _ => .printed
  have h₁ : ItemsLayout [.bool true] ['t', 'r', 'u', 'e'] :=
    .cons (s := []) (word (.bool true) rfl fun _ h => by cases h) (hs rfl) .nil
      (Value.EndsBefore.nil _)
  have h₂ : ItemsLayout [.string "a", .bool true] ['"', 'a', '"', ' ', 't', 'r', 'u', 'e'] :=
    .cons (s := [' ']) (word (.string "a") rfl fun _ h => by cases h) (hs rfl) h₁ (.inl rfl)
  have h₃ : ItemsLayout [.quote (.ofName "x"), .string "a", .bool true]
      ['\'', 'x', '"', 'a', '"', ' ', 't', 'r', 'u', 'e'] :=
    .cons (s := []) (.quote (word (.ofName "x") rfl fun _ h => by cases h)) (hs rfl) h₂
      (Value.endsBefore_cons (by decide) (by decide))
  have h₄ : ItemsLayout [.ofName "f", .quote (.ofName "x"), .string "a", .bool true]
      ['f', '\r', '\n', '\'', 'x', '"', 'a', '"', ' ', 't', 'r', 'u', 'e'] :=
    .cons (s := ['\r', '\n']) (word (.ofName "f") rfl fun _ h => by cases h) (hs rfl) h₃
      (Value.endsBefore_cons (by decide) (by decide))
  exact ((read_of_layout basic).2.1 _ ['\t'] _ [' ', ' ', 'r', 'e', 's', 't'] (by decide) (hs rfl)
    (.list (s := [' ']) (hs rfl) h₄) (.inl rfl)).1 (by decide)

end HostLisp.Reader
