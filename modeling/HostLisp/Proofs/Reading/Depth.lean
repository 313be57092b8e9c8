import HostLisp.Proofs.Reading.RoundTrip

/-!
# Levels of nesting

The text decides which alternative of a node is taken, whatever levels are left.  A leaf is read
without them; a list spends one and a quoted list two.  So a value that has been read nests less
deep than there were levels, and with more levels a text is read as before, unless it was refused as
nesting too deep, and then it does nest that deep (`limits_node`).
-/

namespace HostLisp.Reader

open Parsing

/-! ### The text decides -/

/-- A node that is neither a list nor a quote. -/
def leaf (d : Dialect) : Reads Value :=
  choice (.string <$> string)
    [.float <$> float, .int <$> int, .char <$> character, .bool <$> bool,
      (fun _ => .nil) <$> nil, .atom <$> atom d]

/-- The alternatives that read a leaf come first. -/
theorem nodeOf_eq_orElse (d : Dialect) (element deeper : Reads Value) :
    nodeOf d element deeper =
      orElse (leaf d) (orElse (.list <$> list element)
        (.quote <$> preceded (char '\'') (cut (quoted d deeper)))) :=
  choice_append (Value.string <$> string)
    [Value.float <$> float, Value.int <$> int, Value.char <$> character, Value.bool <$> bool,
      (fun _ => Value.nil) <$> nil, Value.atom <$> atom d]
    (Value.list <$> list element) [Value.quote <$> preceded (char '\'') (cut (quoted d deeper))]

theorem nesting_of_leaf {d : Dialect} {cs k : List Char} {v : Value}
    (h : leaf d cs = .ok (v, k)) : v.nesting = 0 := by
  obtain ⟨p, hp, hx⟩ := exists_of_choice h
  simp only [List.mem_cons, List.not_mem_nil, or_false] at hp
  rcases hp with rfl | rfl | rfl | rfl | rfl | rfl | rfl
  all_goals
    obtain ⟨a, -, rfl⟩ := exists_of_map hx
    simp [Value.nesting]

section
variable (element : Reads Value) (u : List Char)

/-- Behind the parenthesis only white space is skipped before the items. -/
theorem list_paren :
    list element ('(' :: u) =
      terminated (many (terminated element spacing) : Reads (List Value)) (cut (char ')'))
        (u.dropWhile isSpacing) := by
  have hopen : preceded (char '(') spacing ('(' :: u) = .ok ((), u.dropWhile isSpacing) :=
    preceded_of_ok (char_cons '(' u)
  unfold list between
  rw [bind_of_ok hopen]
  rfl

/-- Behind the parenthesis there is no way back. -/
theorem not_backtracks_list : ¬ Backtracks (list element) ('(' :: u) := by
  rintro ⟨e, he⟩
  rw [list_paren] at he
  cases hm : many (terminated element spacing) (u.dropWhile isSpacing) with
  | error e' =>
    rw [terminated_of_error hm] at he
    cases he
    exact not_backtracks_many _ _ ⟨e, hm⟩
  | ok x =>
    cases hc : cut (char ')' : Reads Char) x.2 with
    | error e' =>
      rw [terminated_of_right_error hm hc] at he
      cases he
      exact not_backtracks_cut _ _ ⟨e, hc⟩
    | ok y =>
      rw [terminated_of_ok hm hc] at he
      cases he

/-- In front of anything else the failure does not depend on the elements. -/
theorem exists_list_of_head (h : ∀ c ∈ u.head?, c ≠ '(') :
    ∃ f, ∀ element, list element u = .error (.backtrack f) := by
  obtain ⟨f, hf⟩ := backtracks_char h
  refine ⟨f, fun element => ?_⟩
  unfold list between preceded
  rw [bind_of_error (bind_of_error hf)]

end

theorem head_ne_of_not_cons {c : Char} {cs : List Char} (h : ¬ ∃ u, cs = c :: u) :
    ∀ d ∈ cs.head?, d ≠ c := by
  rintro d hd rfl
  obtain ⟨u, rfl⟩ := List.head?_eq_some_iff.1 hd
  exact h ⟨u, rfl⟩

/-- What stands behind a quote mark is an atom, a list, or nothing that can be quoted. -/
theorem quoted_cases (d : Dialect) (u : List Char) :
    (∃ outcome, (∀ v k, outcome = .ok (v, k) → ∃ a, v = .atom a) ∧
      ∀ deeper, cut (quoted d deeper) u = outcome) ∨
    ∃ w, u = '(' :: w ∧ ∀ deeper, cut (quoted d deeper) u = (.list <$> list deeper) ('(' :: w) := by
  cases ha : atom d u with
  | ok x =>
    refine .inl ⟨.ok (.atom x.1, x.2), ?_, fun deeper => ?_⟩
    · rintro v k ⟨⟩
      exact ⟨x.1, rfl⟩
    · exact cut_of_ok (orElse_of_ok (map_of_ok Value.atom ha))
  | error e =>
    cases e with
    | cut f =>
      refine .inl ⟨.error (.cut f), nofun, fun deeper => ?_⟩
      exact cut_of_cut (orElse_of_cut (map_of_error Value.atom ha))
    | backtrack f =>
      have hlist : ∀ deeper, quoted d deeper u = (Value.list <$> list deeper) u := fun deeper =>
        orElse_of_backtracks ⟨f, map_of_error Value.atom ha⟩
      by_cases hu : ∃ w, u = '(' :: w
      · obtain ⟨w, rfl⟩ := hu
        refine .inr ⟨w, rfl, fun deeper => ?_⟩
        rw [cut_of_not_backtracks, hlist]
        rintro ⟨f', hf'⟩
        rw [hlist] at hf'
        exact not_backtracks_list deeper w (.of_map ⟨f', hf'⟩)
      · obtain ⟨f', hf'⟩ := exists_list_of_head u (head_ne_of_not_cons hu)
        refine .inl ⟨.error (.cut f'), nofun, fun deeper => ?_⟩
        exact cut_of_backtrack ((hlist deeper).trans (map_of_error Value.list (hf' deeper)))

/-- So it is for the quote with its mark, in front of any text. -/
theorem quote_cases (d : Dialect) (cs : List Char) :
    (∃ outcome, (∀ v k, outcome = .ok (v, k) → v.nesting = 0) ∧
      ∀ deeper, (Value.quote <$> preceded (char '\'') (cut (quoted d deeper))) cs = outcome) ∨
    ∃ w, cs = '\'' :: '(' :: w ∧ ∀ deeper,
      (Value.quote <$> preceded (char '\'') (cut (quoted d deeper))) cs =
        ((fun vs => .quote (.list vs)) <$> list deeper) ('(' :: w) := by
  by_cases hmark : ∃ u, cs = '\'' :: u
  · obtain ⟨u, rfl⟩ := hmark
    have hinside : ∀ deeper, preceded (char '\'') (cut (quoted d deeper)) ('\'' :: u) =
        cut (quoted d deeper) u := fun deeper => preceded_of_ok (char_cons '\'' u)
    obtain ⟨outcome, hatom, houtcome⟩ | ⟨w, rfl, hw⟩ := quoted_cases d u
    · refine .inl ⟨outcome.map (Prod.map .quote id), fun v k h => ?_, fun deeper => ?_⟩
      · cases outcome with
        | error f => cases h
        | ok x =>
          obtain ⟨a, ha⟩ := hatom x.1 x.2 rfl
          cases h
          rw [ha]
          rfl
      · rw [map_apply, hinside, houtcome]
        rfl
    · refine .inr ⟨w, rfl, fun deeper => ?_⟩
      rw [map_apply, hinside, hw, map_apply, map_apply]
      cases list deeper ('(' :: w) with
      | ok x => rfl
      | error f => rfl
  · obtain ⟨f, hf⟩ := backtracks_char (head_ne_of_not_cons hmark)
    refine .inl ⟨.error (.backtrack f), fun v k h => ?_, fun deeper => ?_⟩
    · cases h
    · exact map_of_error _ (bind_of_error hf)

/-- Behind a parenthesis stands a list, or the text is broken. -/
theorem nodeOf_eq_list (d : Dialect) (element deeper : Reads Value) (u : List Char) :
    nodeOf d element deeper ('(' :: u) = (.list <$> list element) ('(' :: u) := by
  rw [nodeOf_paren]
  exact orElse_of_not_backtracks fun h => not_backtracks_list element u h.of_map

/-- How a node is read: as a leaf, which takes no levels; as a list; or as a quoted list. -/
theorem nodeOf_cases (d : Dialect) (cs : List Char) :
    (∃ outcome, (∀ v k, outcome = .ok (v, k) → v.nesting = 0) ∧
      ∀ element deeper, nodeOf d element deeper cs = outcome) ∨
    (∃ u, cs = '(' :: u ∧
      ∀ element deeper, nodeOf d element deeper cs = (.list <$> list element) ('(' :: u)) ∨
    ∃ u, cs = '\'' :: '(' :: u ∧ ∀ element deeper,
      nodeOf d element deeper cs = ((fun vs => .quote (.list vs)) <$> list deeper) ('(' :: u) := by
  by_cases hparen : ∃ u, cs = '(' :: u
  · obtain ⟨u, rfl⟩ := hparen
    exact .inr (.inl ⟨u, rfl, fun element deeper => nodeOf_eq_list d element deeper u⟩)
  by_cases hleaf : Backtracks (leaf d) cs
  · obtain ⟨f, hf⟩ := exists_list_of_head cs (head_ne_of_not_cons hparen)
    have hquote : ∀ element deeper, nodeOf d element deeper cs =
        (Value.quote <$> preceded (char '\'') (cut (quoted d deeper))) cs := by
      intro element deeper
      rw [nodeOf_eq_orElse, orElse_of_backtracks hleaf]
      exact orElse_of_backtracks ⟨f, map_of_error Value.list (hf element)⟩
    obtain ⟨outcome, hnesting, houtcome⟩ | ⟨u, rfl, hu⟩ := quote_cases d cs
    · exact .inl ⟨outcome, hnesting, fun element deeper =>
        (hquote element deeper).trans (houtcome deeper)⟩
    · exact .inr (.inr ⟨u, rfl, fun element deeper => (hquote element deeper).trans (hu deeper)⟩)
  · refine .inl ⟨leaf d cs, fun v k => nesting_of_leaf, fun element deeper => ?_⟩
    rw [nodeOf_eq_orElse, orElse_of_not_backtracks hleaf]

/-- Which texts are left to other parsers does not depend on the levels, if there are any. -/
theorem node_eq_of_backtracks (d : Dialect) {m n : Nat} (h : m ≤ n) {cs : List Char}
    (hback : Backtracks (node d n) cs) : m = 0 ∨ node d m cs = node d n cs := by
  rcases m with _ | m
  · exact .inl rfl
  rcases n with _ | n
  · cases h
  obtain ⟨f, hf⟩ := hback
  right
  rw [node_succ] at hf
  rw [node_succ, node_succ]
  obtain ⟨outcome, -, heq⟩ | ⟨u, rfl, heq⟩ | ⟨u, rfl, heq⟩ := nodeOf_cases d cs
  · exact (heq _ _).trans (heq _ _).symm
  · rw [heq] at hf
    exact absurd (.of_map ⟨f, hf⟩) (not_backtracks_list _ u)
  · rw [heq] at hf
    exact absurd (.of_map ⟨f, hf⟩) (not_backtracks_list _ u)

/-! ### Fewer levels -/

section
variable {α β : Type} {depth : α → Nat} {b : Nat} {p q : Reads α} {cs : List Char}

/-- On this text `p` does with `b` levels what `q` does with more, or it fails because too many are
open; then what `q` reads, if anything, nests as deep as that. -/
def Limits (b : Nat) (depth : α → Nat) (p q : Reads α) (cs : List Char) : Prop :=
  p cs = q cs ∨ TooDeep p cs ∧ ∀ a k, q cs = .ok (a, k) → b ≤ depth a

/-- Only the outcomes count. -/
theorem Limits.of_eq {p' q' : Reads α} {cs' : List Char} (hp : p cs = p' cs') (hq : q cs = q' cs')
    (h : Limits b depth p' q' cs') : Limits b depth p q cs := by
  unfold Limits TooDeep at h ⊢
  rwa [hp, hq]

theorem Limits.terminated (r : Reads β) (h : Limits b depth p q cs) :
    Limits b depth (terminated p r) (terminated q r) cs := by
  obtain heq | ⟨⟨rest, hdeep⟩, hle⟩ := h
  · left
    unfold Parsing.terminated
    rw [bind_apply, bind_apply, heq]
  · refine .inr ⟨⟨rest, terminated_of_error hdeep⟩, fun a k ha => ?_⟩
    obtain ⟨k', -, hq, -⟩ := exists_of_terminated ha
    exact hle a k' hq

theorem Limits.map {f : α → β} {depth' : β → Nat} {b' : Nat} (h : Limits b depth p q cs)
    (hle : ∀ a, b ≤ depth a → b' ≤ depth' (f a)) : Limits b' depth' (f <$> p) (f <$> q) cs := by
  obtain heq | ⟨⟨rest, hdeep⟩, hdepth⟩ := h
  · left
    rw [map_apply, map_apply, heq]
  · refine .inr ⟨⟨rest, map_of_error f hdeep⟩, fun c k hc => ?_⟩
    obtain ⟨a, ha, rfl⟩ := exists_of_map hc
    exact hle a (hdepth a k ha)

end

theorem not_backtracks_spacing (cs : List Char) : ¬ Backtracks spacing cs := by
  rintro ⟨e, he⟩
  cases he

section
variable {b : Nat} {p q : Reads Value}

/-- Items are read one by one, and one of them that is refused is the end.  The induction is on the
rounds with more levels. -/
theorem limits_many (h : ∀ cs, Limits b Value.nesting p q cs)
    (hback : ∀ cs, Backtracks q cs → b = 0 ∨ p cs = q cs) (cs : List Char) :
    Limits b Value.nestingOfItems (many p) (many q) cs := by
  induction cs using many.induct q with
  | case1 cs e hq =>
    have hmany := many_of_backtracks ⟨e, hq⟩
    obtain heq | ⟨⟨rest, hdeep⟩, -⟩ := h cs
    · exact .inl ((many_of_backtracks ⟨e, heq.trans hq⟩).trans hmany.symm)
    · refine .inr ⟨⟨rest, many_of_cut hdeep⟩, fun vs k _ => ?_⟩
      obtain rfl | heq := hback cs ⟨e, hq⟩
      · exact Nat.zero_le _
      · rw [heq, hq] at hdeep
        cases hdeep
  | case2 cs e hq =>
    have hmany := many_of_cut hq
    obtain heq | ⟨⟨rest, hdeep⟩, -⟩ := h cs
    · exact .inl ((many_of_cut (heq.trans hq)).trans hmany.symm)
    · refine .inr ⟨⟨rest, many_of_cut hdeep⟩, fun vs k hvs => ?_⟩
      rw [hmany] at hvs
      cases hvs
  | case3 cs v r hq hlt vs k hrest ih =>
    have hmany := many_cons hq hlt hrest
    have hle : b ≤ v.nesting ∨ b ≤ Value.nestingOfItems vs →
        ∀ vs' k', (many q : Reads (List Value)) cs = .ok (vs', k') →
          b ≤ Value.nestingOfItems vs' := by
      rintro hle vs' k' hvs
      rw [hmany] at hvs
      cases hvs
      rw [Value.nestingOfItems]
      omega
    obtain heq | ⟨⟨rest, hdeep⟩, hv⟩ := h cs
    · obtain heq' | ⟨⟨rest, hdeep⟩, hvs⟩ := ih
      · exact .inl ((many_cons (heq.trans hq) hlt (heq'.trans hrest)).trans hmany.symm)
      · exact .inr ⟨⟨rest, many_cons_of_error (heq.trans hq) hlt hdeep⟩, hle (.inr (hvs vs k hrest))⟩
    · exact .inr ⟨⟨rest, many_of_cut hdeep⟩, hle (.inl (hv v r hq))⟩
  | case4 cs v r hq hlt e hrest ih =>
    have hmany := many_cons_of_error hq hlt hrest
    have hne : ∀ vs k, (many q : Reads (List Value)) cs = .ok (vs, k) →
        b ≤ Value.nestingOfItems vs := by
      intro vs k hvs
      rw [hmany] at hvs
      cases hvs
    obtain heq | ⟨⟨rest, hdeep⟩, -⟩ := h cs
    · obtain heq' | ⟨⟨rest, hdeep⟩, -⟩ := ih
      · exact .inl ((many_cons_of_error (heq.trans hq) hlt (heq'.trans hrest)).trans hmany.symm)
      · exact .inr ⟨⟨rest, many_cons_of_error (heq.trans hq) hlt hdeep⟩, hne⟩
    · exact .inr ⟨⟨rest, many_of_cut hdeep⟩, hne⟩
  | case5 cs v r hq hlt =>
    have hmany := many_of_standstill hq hlt
    obtain heq | ⟨⟨rest, hdeep⟩, hv⟩ := h cs
    · exact .inl ((many_of_standstill (heq.trans hq) hlt).trans hmany.symm)
    · refine .inr ⟨⟨rest, many_of_cut hdeep⟩, fun vs k hvs => ?_⟩
      rw [hmany] at hvs
      cases hvs
      exact Nat.le_trans (hv v r hq) (Nat.le_max_left ..)

/-- Items are separated by white space, which never fails. -/
theorem limits_items (h : ∀ cs, Limits b Value.nesting p q cs)
    (hback : ∀ cs, Backtracks q cs → b = 0 ∨ p cs = q cs) (cs : List Char) :
    Limits b Value.nestingOfItems (many (terminated p spacing)) (many (terminated q spacing))
      cs := by
  refine limits_many (fun cs => (h cs).terminated spacing) (fun cs hb => ?_) cs
  refine (hback cs (hb.of_terminated not_backtracks_spacing)).imp_right fun heq => ?_
  unfold terminated
  rw [bind_apply, bind_apply, heq]

theorem limits_list (h : ∀ cs, Limits b Value.nesting p q cs)
    (hback : ∀ cs, Backtracks q cs → b = 0 ∨ p cs = q cs) (u : List Char) :
    Limits b Value.nestingOfItems (list p) (list q) ('(' :: u) :=
  .of_eq (list_paren p u) (list_paren q u) ((limits_items h hback _).terminated (cut (char ')')))

end

/-- With fewer levels a text is read as with more, or refused; then it does nest that deep. -/
theorem limits_node (d : Dialect) {m n : Nat} (h : m ≤ n) (cs : List Char) :
    Limits m Value.nesting (node d m) (node d n) cs := by
  induction m using Nat.strongRecOn generalizing n cs with
  | ind m ih =>
    rcases m with _ | m
    · exact .inr ⟨tooDeep_zero d cs, fun v k _ => Nat.zero_le _⟩
    rcases n with _ | n
    · cases h
    have hlist : ∀ m' n', m' < m + 1 → m' ≤ n' → ∀ u,
        Limits m' Value.nestingOfItems (list (node d m')) (list (node d n')) ('(' :: u) :=
      fun m' n' hm hle => limits_list (ih m' hm hle) fun cs => node_eq_of_backtracks d hle
    rw [node_succ, node_succ]
    obtain ⟨outcome, -, heq⟩ | ⟨u, rfl, heq⟩ | ⟨u, rfl, heq⟩ := nodeOf_cases d cs
    · exact .inl ((heq _ _).trans (heq _ _).symm)
    · refine .of_eq (heq _ _) (heq _ _) ((hlist m n (by omega) (by omega) u).map fun vs hvs => ?_)
      rw [Value.nesting]
      omega
    · refine .of_eq (heq _ _) (heq _ _)
        ((hlist (m - 1) (n - 1) (by omega) (by omega) u).map fun vs hvs => ?_)
      simp only [Value.nesting, Value.isList, if_true]
      omega

/-! ### How deep a value nests that has been read -/

/-- Items nest less deep than `b` if elements do, and if it is only in front of a text that has been
looked at that an element is not there. -/
theorem nestingOfItems_lt_of_many {b : Nat} {p : Reads Value}
    (h : ∀ cs v k, p cs = .ok (v, k) → v.nesting < b) (hback : ∀ cs, Backtracks p cs → 0 < b)
    {cs k : List Char} {vs : List Value} (hvs : many p cs = .ok (vs, k)) :
    Value.nestingOfItems vs < b := by
  induction cs using many.induct p generalizing vs k with
  | case1 cs e hp =>
    rw [many_of_backtracks ⟨e, hp⟩] at hvs
    cases hvs
    exact hback cs ⟨e, hp⟩
  | case2 cs e hp =>
    rw [many_of_cut hp] at hvs
    cases hvs
  | case3 cs v r hp hlt vs' k' hrest ih =>
    rw [many_cons hp hlt hrest] at hvs
    cases hvs
    exact Nat.max_lt.2 ⟨h cs v r hp, ih hrest⟩
  | case4 cs v r hp hlt e hrest ih =>
    rw [many_cons_of_error hp hlt hrest] at hvs
    cases hvs
  | case5 cs v r hp hlt =>
    rw [many_of_standstill hp hlt] at hvs
    cases hvs
    exact Nat.max_lt.2 ⟨h cs v r hp, Nat.zero_lt_of_lt (h cs v r hp)⟩

/-- Without levels an element does not even backtrack, so there is no list then. -/
theorem nestingOfItems_lt_of_items (d : Dialect) {n : Nat}
    (h : ∀ cs v k, node d n cs = .ok (v, k) → v.nesting < n) {cs k : List Char} {vs : List Value}
    (hvs : many (terminated (node d n) spacing) cs = .ok (vs, k)) :
    Value.nestingOfItems vs < n := by
  refine nestingOfItems_lt_of_many (fun cs v k hv => ?_) (fun cs hb => ?_) hvs
  · obtain ⟨r, -, hv, -⟩ := exists_of_terminated hv
    exact h cs v r hv
  · obtain ⟨e, he⟩ := hb.of_terminated not_backtracks_spacing
    rcases n with _ | n
    · cases he
    · exact n.succ_pos

/-- What has been read nests less deep than there were levels. -/
theorem nesting_lt_of_node (d : Dialect) {n : Nat} {cs k : List Char} {v : Value}
    (h : node d n cs = .ok (v, k)) : v.nesting < n := by
  induction n using Nat.strongRecOn generalizing cs k v with
  | ind n ih =>
    rcases n with _ | n
    · cases h
    have hlist : ∀ m, m < n + 1 → ∀ u vs k, list (node d m) ('(' :: u) = .ok (vs, k) →
        Value.nestingOfItems vs < m := by
      intro m hm u vs k hvs
      rw [list_paren] at hvs
      obtain ⟨r, -, hitems, -⟩ := exists_of_terminated hvs
      exact nestingOfItems_lt_of_items d (fun cs v k => ih m hm) hitems
    rw [node_succ] at h
    obtain ⟨outcome, hleaf, heq⟩ | ⟨u, rfl, heq⟩ | ⟨u, rfl, heq⟩ := nodeOf_cases d cs
    · rw [hleaf v k ((heq _ _).symm.trans h)]
      exact n.succ_pos
    · obtain ⟨vs, hvs, rfl⟩ := exists_of_map ((heq _ _).symm.trans h)
      rw [Value.nesting]
      exact Nat.succ_lt_succ (hlist n n.lt_succ_self u vs k hvs)
    · obtain ⟨vs, hvs, rfl⟩ := exists_of_map ((heq _ _).symm.trans h)
      have := hlist (n - 1) (by omega) u vs k hvs
      simp only [Value.nesting, Value.isList, if_true]
      omega

end HostLisp.Reader
