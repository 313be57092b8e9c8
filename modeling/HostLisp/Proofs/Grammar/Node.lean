import HostLisp.Proofs.Grammar.Atom
import HostLisp.Proofs.Grammar.Literal
import HostLisp.Proofs.Reading.Limit

/-!
# The grammar of nodes

One rule for each way a node is read, and one for each way it is broken; the first character of the
text selects among them.  Items are read one after the other, up to a text in front of which the
reader of items backtracks.  With `n + 1` levels left the items of a list have `n`, and those of a
quoted list one less:

    node_eq_ok_iff : node d (n + 1) cs = .ok (v, k) ↔
      NodeRead d (node d n) (node d (n - 1)) cs v k
    node_eq_cut_iff : node d (n + 1) cs = .error (.cut f) ↔
      NodeCut d (node d n) (node d (n - 1)) cs f
    backtracks_node_iff : Backtracks (node d (n + 1)) cs ↔ Nodeless cs.
-/

namespace HostLisp.Reader

open Parsing

/-! ### Items -/

/-- `p` reads the values one after the other, with optional white space in front of each, and
backtracks in front of `k`. -/
inductive ItemsRead (p : Reads Value) : List Char → List Value → List Char → Prop
  | done {cs : List Char} (h : Backtracks p (cs.dropWhile isSpacing)) :
      ItemsRead p cs [] (cs.dropWhile isSpacing)
  | item {cs r k : List Char} {v : Value} {vs : List Value}
      (h : p (cs.dropWhile isSpacing) = .ok (v, r)) (hs : ItemsRead p r vs k) :
      ItemsRead p cs (v :: vs) k

/-- One of the items is broken. -/
inductive ItemsCut (p : Reads Value) : List Char → Fault → Prop
  | here {cs : List Char} {f : Fault} (h : p (cs.dropWhile isSpacing) = .error (.cut f)) :
      ItemsCut p cs f
  | later {cs r : List Char} {v : Value} {f : Fault}
      (h : p (cs.dropWhile isSpacing) = .ok (v, r)) (hs : ItemsCut p r f) : ItemsCut p cs f

/-- The text behind an opening parenthesis is broken: an item is, or nothing closes the list. -/
inductive ListCut (p : Reads Value) : List Char → Fault → Prop
  | item {u : List Char} {f : Fault} (h : ItemsCut p u f) : ListCut p u f
  | unclosed {u k : List Char} {vs : List Value} (h : ItemsRead p u vs k)
      (hk : ∀ c ∈ k.head?, c ≠ ')') : ListCut p u (Fault.unexpectedAt k)

section
variable {p : Reads Value} {cs u k : List Char} {vs : List Value} {f : Fault}

theorem length_dropWhile_spacing (cs : List Char) :
    (cs.dropWhile isSpacing).length ≤ cs.length := (List.dropWhile_suffix _).length_le

theorem ItemsRead.many_eq (hp : TakesSome p) (h : ItemsRead p cs vs k) :
    many (terminated p spacing) (cs.dropWhile isSpacing) = .ok (vs, k) := by
  induction h with
  | done h => exact many_of_backtracks h.terminated
  | @item cs r k v vs h hs ih =>
    have hlt := (hp _ _ _ h).2
    have hread : terminated p spacing (cs.dropWhile isSpacing) = .ok (v, r.dropWhile isSpacing) :=
      terminated_of_ok h rfl
    exact many_cons hread (Nat.lt_of_le_of_lt (length_dropWhile_spacing r) hlt) ih

theorem ItemsCut.many_eq (hp : TakesSome p) (h : ItemsCut p cs f) :
    many (terminated p spacing) (cs.dropWhile isSpacing) = .error (.cut f) := by
  induction h with
  | here h => exact many_of_cut (terminated_of_error h)
  | @later cs r v f h hs ih =>
    have hlt := (hp _ _ _ h).2
    have hread : terminated p spacing (cs.dropWhile isSpacing) = .ok (v, r.dropWhile isSpacing) :=
      terminated_of_ok h rfl
    exact many_cons_of_error hread (Nat.lt_of_le_of_lt (length_dropWhile_spacing r) hlt) ih

/-- Every text is a row of items up to where `p` backtracks, or breaks at one.  The induction is on
the length of the text. -/
theorem itemsRead_or_itemsCut (hp : TakesSome p) (cs : List Char) :
    (∃ vs k, ItemsRead p cs vs k) ∨ ∃ f, ItemsCut p cs f := by
  induction hlen : cs.length using Nat.strongRecOn generalizing cs with
  | ind m ih =>
    subst hlen
    cases h : p (cs.dropWhile isSpacing) with
    | error e =>
      cases e with
      | backtrack e => exact .inl ⟨_, _, .done ⟨e, h⟩⟩
      | cut f => exact .inr ⟨f, .here h⟩
    | ok x =>
      have hlt := (hp _ _ _ h).2
      have hle := length_dropWhile_spacing cs
      obtain ⟨vs, k, hs⟩ | ⟨f, hs⟩ := ih x.2.length (by omega) x.2 rfl
      · exact .inl ⟨_, _, .item h hs⟩
      · exact .inr ⟨f, .later h hs⟩

/-- Only the text behind the leading white space counts. -/
theorem ItemsRead.of_dropWhile_eq {cs' : List Char} (h : ItemsRead p cs vs k)
    (heq : cs'.dropWhile isSpacing = cs.dropWhile isSpacing) : ItemsRead p cs' vs k := by
  cases h with
  | done h =>
    rw [← heq] at h ⊢
    exact .done h
  | item h hs =>
    rw [← heq] at h
    exact .item h hs

theorem ItemsRead.list_eq (hp : TakesSome p) (h : ItemsRead p u vs (')' :: k)) :
    list p ('(' :: u) = .ok (vs, k) := by
  rw [list_paren]
  exact terminated_of_ok (h.many_eq hp) (cut_of_ok (char_cons ')' k))

theorem char_eq_error {c : Char} {cs : List Char} (h : ∀ d ∈ cs.head?, d ≠ c) :
    char c cs = .error (.backtrack (Fault.unexpectedAt cs)) := by
  cases cs with
  | nil => rfl
  | cons d cs =>
    have hd : d ≠ c := h d rfl
    simp only [char, satisfy, next?_cons, hd, decide_false, Bool.false_eq_true, if_false]
    rfl

theorem ListCut.list_eq (hp : TakesSome p) (h : ListCut p u f) :
    list p ('(' :: u) = .error (.cut f) := by
  rw [list_paren]
  cases h with
  | item h => exact terminated_of_error (h.many_eq hp)
  | unclosed h hk =>
    exact terminated_of_right_error (h.many_eq hp) (cut_of_backtrack (char_eq_error hk))

/-- Behind an opening parenthesis there are the items of a list, or the text is broken. -/
theorem itemsRead_or_listCut (hp : TakesSome p) (u : List Char) :
    (∃ vs k, ItemsRead p u vs (')' :: k)) ∨ ∃ f, ListCut p u f := by
  obtain ⟨vs, k, h⟩ | ⟨f, h⟩ := itemsRead_or_itemsCut hp u
  · by_cases hk : ∃ t, k = ')' :: t
    · obtain ⟨t, rfl⟩ := hk
      exact .inl ⟨vs, t, h⟩
    · exact .inr ⟨_, .unclosed h (head_ne_of_not_cons hk)⟩
  · exact .inr ⟨f, .item h⟩

end

/-! ### Nodes -/

/-- No quote, quote mark or parenthesis opens the text. -/
def Unmarked (cs : List Char) : Prop := ∀ c ∈ cs.head?, c ≠ '"' ∧ c ≠ '\'' ∧ c ≠ '('

/-- No node begins here. -/
structure Nodeless (cs : List Char) : Prop where
  unmarked : Unmarked cs
  nameless : Nameless cs

/-- A node in front of a text, by the form it has. -/
inductive NodeRead (d : Dialect) (element deeper : Reads Value) :
    List Char → Value → List Char → Prop
  | string {u k s : List Char} (h : BodyRead u s k) :
      NodeRead d element deeper ('"' :: u) (.string (String.ofList s)) k
  | character {u k : List Char} {c : Char} (h : CharacterRead u c k) :
      NodeRead d element deeper ('\'' :: u) (.char c) k
  | quotedAtom {u k : List Char} {a : Atom} (hc : NoCharacter u) (h : AtomRead d u a k) :
      NodeRead d element deeper ('\'' :: u) (.quote (.atom a)) k
  | quotedList {u k : List Char} {vs : List Value} (hc : NoCharacter ('(' :: u))
      (h : ItemsRead deeper u vs (')' :: k)) :
      NodeRead d element deeper ('\'' :: '(' :: u) (.quote (.list vs)) k
  | list {u k : List Char} {vs : List Value} (h : ItemsRead element u vs (')' :: k)) :
      NodeRead d element deeper ('(' :: u) (.list vs) k
  | literal {cs k : List Char} {v : Value} (hm : Unmarked cs) (h : literal cs = .ok (v, k)) :
      NodeRead d element deeper cs v k
  | atom {cs k : List Char} {a : Atom} (hm : Unmarked cs) (hl : Backtracks literal cs)
      (h : AtomRead d cs a k) : NodeRead d element deeper cs (.atom a) k

/-- A text that begins like a node and is broken, by what it begins like. -/
inductive NodeCut (d : Dialect) (element deeper : Reads Value) : List Char → Fault → Prop
  | string {u : List Char} {f : Fault} (h : BodyCut ('"' :: u) u f) :
      NodeCut d element deeper ('"' :: u) f
  | character {u : List Char} {f : Fault} (h : CharacterCut u f) :
      NodeCut d element deeper ('\'' :: u) f
  | quotedAtom {u : List Char} {f : Fault} (hc : NoCharacter u) (h : AtomCut d u f) :
      NodeCut d element deeper ('\'' :: u) f
  | quotedList {u : List Char} {f : Fault} (hc : NoCharacter ('(' :: u)) (h : ListCut deeper u f) :
      NodeCut d element deeper ('\'' :: '(' :: u) f
  | unquotable {u : List Char} (hc : NoCharacter u) (hn : Nameless u)
      (hp : ∀ c ∈ u.head?, c ≠ '(') : NodeCut d element deeper ('\'' :: u) (Fault.unexpectedAt u)
  | list {u : List Char} {f : Fault} (h : ListCut element u f) :
      NodeCut d element deeper ('(' :: u) f
  | literal {cs : List Char} {f : Fault} (hm : Unmarked cs) (h : literal cs = .error (.cut f)) :
      NodeCut d element deeper cs f
  | atom {cs : List Char} {f : Fault} (hm : Unmarked cs) (hl : Backtracks literal cs)
      (h : AtomCut d cs f) : NodeCut d element deeper cs f

section
variable {d : Dialect} {element deeper : Reads Value} {cs u k : List Char} {v : Value} {f : Fault}

/-! ### Reading by the rules -/

/-- A number, a keyword or an atom. -/
def word (d : Dialect) : Reads Value := orElse literal (.atom <$> atom d)

theorem orElse_congr {α : Type} {p q q' : Reads α} {i : List Char} (h : q i = q' i) :
    orElse p q i = orElse p q' i := by
  unfold orElse
  rw [h]

/-- Strings and characters, which are tried among the words, take no text that begins otherwise; nor
do lists and quotes, which are tried after them. -/
theorem nodeOf_unmarked (d : Dialect) (element deeper : Reads Value) (h : Unmarked cs) :
    ∃ q, Backtracks q cs ∧ nodeOf d element deeper cs = orElse (word d) q cs := by
  have hs : Backtracks string cs := backtracks_string fun c hc => (h c hc).1
  have hc : Backtracks character cs := backtracks_character fun c hc => (h c hc).2.1
  have hlist : Backtracks (list element) cs :=
    (backtracks_char fun c hc => (h c hc).2.2).preceded.between
  have hquote : Backtracks (preceded (char '\'') (cut (quoted d deeper))) cs :=
    (backtracks_char fun c hc => (h c hc).2.1).preceded
  refine ⟨orElse (.list <$> list element) (.quote <$> preceded (char '\'') (cut (quoted d deeper))),
    hlist.map.orElse hquote.map, ?_⟩
  unfold nodeOf word literal
  rw [choice_of_backtracks hs.map]
  simp only [choice, orElse_assoc]
  exact orElse_congr (orElse_congr (orElse_of_backtracks hc.map))

theorem nodeOf_of_word (h : Unmarked cs) (hw : ¬ Backtracks (word d) cs) :
    nodeOf d element deeper cs = word d cs := by
  obtain ⟨q, -, heq⟩ := nodeOf_unmarked d element deeper h
  rw [heq, orElse_of_not_backtracks hw]

theorem backtracks_literal (h : EndsName cs) : Backtracks literal cs := by
  have hw := noWord_of_endsName h
  exact hw.float.map.orElse (hw.int.map.orElse (hw.bool.map.orElse hw.nil.map))

theorem Nodeless.backtracks_nodeOf (h : Nodeless cs) : Backtracks (nodeOf d element deeper) cs := by
  obtain ⟨q, hq, heq⟩ := nodeOf_unmarked d element deeper h.unmarked
  have hw : Backtracks (word d) cs :=
    (backtracks_literal h.nameless.endsName).orElse h.nameless.backtracks_atom.map
  obtain ⟨e, he⟩ := hw.orElse hq
  exact ⟨e, heq.trans he⟩

theorem nodeOf_quoteMark :
    nodeOf d element deeper ('"' :: u) = (.string <$> string) ('"' :: u) := by
  refine orElse_of_not_backtracks ?_
  intro h
  obtain ⟨s, k, hs⟩ | ⟨f, hs⟩ := bodyRead_or_bodyCut ('"' :: u) u
  · exact not_backtracks_of_ok hs.string_eq h.of_map
  · exact not_backtracks_of_cut hs.string_eq h.of_map

theorem nodeOf_character_mark (h : ¬ Backtracks character ('\'' :: u)) :
    nodeOf d element deeper ('\'' :: u) = (.char <$> character) ('\'' :: u) := by
  have hstop : Stops ('\'' :: u) := .cons (by decide)
  have hw := noWord_of_endsName hstop.endsName
  unfold nodeOf
  rw [choice_of_backtracks (backtracks_string (by simp)).map, choice_of_backtracks hw.float.map,
    choice_of_backtracks hw.int.map]
  exact orElse_of_not_backtracks fun hb => h hb.of_map

theorem quoted_of_atom {a : Atom} (h : AtomRead d u a k) :
    cut (quoted d deeper) u = .ok (.atom a, k) :=
  cut_of_ok (orElse_of_ok (map_of_ok _ h.atom_eq))

theorem quoted_of_atomCut (h : AtomCut d u f) : cut (quoted d deeper) u = .error (.cut f) :=
  cut_of_cut (orElse_of_cut (map_of_error _ h.atom_eq))

theorem quoted_of_nameless (h : Nameless u) (hp : ∀ c ∈ u.head?, c ≠ '(') :
    cut (quoted d deeper) u = .error (.cut (Fault.unexpectedAt u)) := by
  refine cut_of_backtrack ?_
  have hlist : list deeper u = .error (.backtrack (Fault.unexpectedAt u)) := by
    unfold list between preceded
    rw [bind_of_error (bind_of_error (char_eq_error hp))]
  exact (orElse_of_backtracks h.backtracks_atom.map).trans (map_of_error _ hlist)

theorem NodeRead.nodeOf_eq (he : TakesSome element) (hd : TakesSome deeper)
    (h : NodeRead d element deeper cs v k) : nodeOf d element deeper cs = .ok (v, k) := by
  cases h with
  | string h =>
    rw [nodeOf_quoteMark]
    exact map_of_ok _ h.string_eq
  | character h =>
    rw [nodeOf_character_mark (not_backtracks_of_ok h.character_eq)]
    exact map_of_ok _ h.character_eq
  | quotedAtom hc h =>
    rw [nodeOf_mark d element deeper hc.backtracks]
    exact map_of_ok _ (quoted_of_atom h)
  | quotedList hc h =>
    rw [nodeOf_mark d element deeper hc.backtracks]
    refine map_of_ok _ (cut_of_ok ?_)
    rw [quoted_paren]
    exact map_of_ok _ (h.list_eq hd)
  | list h => exact nodeOf_list d (h.list_eq he)
  | literal hm h =>
    have hw : word d cs = .ok (v, k) := orElse_of_ok h
    rw [nodeOf_of_word hm (not_backtracks_of_ok hw), hw]
  | atom hm hl h =>
    have hw : word d cs = .ok _ := (orElse_of_backtracks hl).trans (map_of_ok Value.atom h.atom_eq)
    rw [nodeOf_of_word hm (not_backtracks_of_ok hw), hw]

theorem NodeCut.nodeOf_eq (he : TakesSome element) (hd : TakesSome deeper)
    (h : NodeCut d element deeper cs f) : nodeOf d element deeper cs = .error (.cut f) := by
  cases h with
  | string h =>
    rw [nodeOf_quoteMark]
    exact map_of_error _ h.string_eq
  | character h =>
    rw [nodeOf_character_mark (not_backtracks_of_cut h.character_eq)]
    exact map_of_error _ h.character_eq
  | quotedAtom hc h =>
    rw [nodeOf_mark d element deeper hc.backtracks]
    exact map_of_error _ (quoted_of_atomCut h)
  | quotedList hc h =>
    rw [nodeOf_mark d element deeper hc.backtracks]
    refine map_of_error _ (cut_of_cut ?_)
    rw [quoted_paren]
    exact map_of_error _ (h.list_eq hd)
  | unquotable hc hn hp =>
    rw [nodeOf_mark d element deeper hc.backtracks]
    exact map_of_error _ (quoted_of_nameless hn hp)
  | list h => exact nodeOf_list_error d (h.list_eq he)
  | literal hm h =>
    have hw : word d cs = .error (.cut f) := orElse_of_cut h
    rw [nodeOf_of_word hm (not_backtracks_of_cut hw), hw]
  | atom hm hl h =>
    have hw : word d cs = .error (.cut f) :=
      (orElse_of_backtracks hl).trans (map_of_error Value.atom h.atom_eq)
    rw [nodeOf_of_word hm (not_backtracks_of_cut hw), hw]

/-- The first character says what the text begins like; then it is that, or broken. -/
theorem nodeRead_or_nodeCut_or_nodeless (d : Dialect) (he : TakesSome element)
    (hd : TakesSome deeper) (cs : List Char) :
    (∃ v k, NodeRead d element deeper cs v k) ∨ (∃ f, NodeCut d element deeper cs f) ∨
      Nodeless cs := by
  by_cases hm : Unmarked cs
  · cases hl : literal cs with
    | ok x => exact .inl ⟨_, _, .literal hm hl⟩
    | error e =>
      cases e with
      | cut f => exact .inr (.inl ⟨f, .literal hm hl⟩)
      | backtrack e =>
        obtain ⟨a, k, h⟩ | ⟨f, h⟩ | h := atom_cases d cs
        · exact .inl ⟨_, _, .atom hm ⟨e, hl⟩ h⟩
        · exact .inr (.inl ⟨_, .atom hm ⟨e, hl⟩ h⟩)
        · exact .inr (.inr ⟨hm, h⟩)
  obtain ⟨c, u, rfl⟩ : ∃ c u, cs = c :: u := by
    cases cs with
    | nil => exact absurd (by simp [Unmarked]) hm
    | cons c u => exact ⟨c, u, rfl⟩
  have hc : c = '"' ∨ c = '\'' ∨ c = '(' := by
    by_contra hne
    refine hm ?_
    intro c' hc'
    cases hc'
    simpa [not_or] using hne
  obtain rfl | rfl | rfl := hc
  · obtain ⟨s, k, h⟩ | ⟨f, h⟩ := bodyRead_or_bodyCut ('"' :: u) u
    · exact .inl ⟨_, _, .string h⟩
    · exact .inr (.inl ⟨_, .string h⟩)
  · obtain ⟨c, k, h⟩ | ⟨f, h⟩ | hno := character_cases u
    · exact .inl ⟨_, _, .character h⟩
    · exact .inr (.inl ⟨_, .character h⟩)
    obtain ⟨a, k, h⟩ | ⟨f, h⟩ | hn := atom_cases d u
    · exact .inl ⟨_, _, .quotedAtom hno h⟩
    · exact .inr (.inl ⟨_, .quotedAtom hno h⟩)
    by_cases hp : ∃ t, u = '(' :: t
    · obtain ⟨t, rfl⟩ := hp
      obtain ⟨vs, k, h⟩ | ⟨f, h⟩ := itemsRead_or_listCut hd t
      · exact .inl ⟨_, _, .quotedList hno h⟩
      · exact .inr (.inl ⟨_, .quotedList hno h⟩)
    · exact .inr (.inl ⟨_, .unquotable hno hn (head_ne_of_not_cons hp)⟩)
  · obtain ⟨vs, k, h⟩ | ⟨f, h⟩ := itemsRead_or_listCut he u
    · exact .inl ⟨_, _, .list h⟩
    · exact .inr (.inl ⟨_, .list h⟩)

/-! ### Progress -/

theorem ItemsRead.suffix {p : Reads Value} {vs : List Value} (hp : TakesSome p)
    (h : ItemsRead p cs vs k) : k <:+ cs := by
  induction h with
  | done h => exact List.dropWhile_suffix _
  | item h hs ih => exact (ih.trans (hp _ _ _ h).1).trans (List.dropWhile_suffix _)

theorem AnnotationRead.suffix {ty : Option Ty} (h : AnnotationRead d cs ty k) : k <:+ cs := by
  cases h with
  | none h => exact List.suffix_refl cs
  | plain h hk => exact h.suffix.trans (List.suffix_append [':', ':'] _)
  | optional h =>
    exact ((List.suffix_cons ..).trans h.suffix).trans (List.suffix_append [':', ':'] _)

theorem Named.ne_nil {n : List Char} (h : Named d n k) : n ≠ [] := by
  obtain rfl | ⟨hn, -⟩ := h
  · simp
  · obtain ⟨hfirst, -, -⟩ := hn
    simp [hfirst.ne_nil]

theorem AtomRead.takes {a : Atom} (h : AtomRead d cs a k) : k <:+ cs ∧ k.length < cs.length := by
  obtain ⟨hn, -, h⟩ := h
  exact ⟨h.suffix.trans (List.suffix_append ..),
    Nat.lt_of_le_of_lt h.suffix.length_le (length_lt_append hn.ne_nil _)⟩

/-- A proper end of a text behind its first character. -/
theorem takes_cons {c : Char} {u k : List Char} (h : k <:+ u) :
    k <:+ c :: u ∧ k.length < (c :: u).length :=
  ⟨h.trans (List.suffix_cons c u), Nat.lt_succ_of_le h.length_le⟩

theorem NodeRead.takes (he : TakesSome element) (hd : TakesSome deeper)
    (h : NodeRead d element deeper cs v k) : k <:+ cs ∧ k.length < cs.length := by
  cases h with
  | string h => exact takes_cons h.suffix
  | character h => exact takes_cons h.suffix
  | quotedAtom hc h => exact takes_cons h.takes.1
  | quotedList hc h =>
    have hk := (List.suffix_cons ..).trans (h.suffix hd)
    exact takes_cons (hk.trans (List.suffix_cons ..))
  | list h => exact takes_cons ((List.suffix_cons ..).trans (h.suffix he))
  | literal hm h => exact takesSome_literal _ _ _ h
  | atom hm hl h => exact h.takes

theorem nodeOf_eq_ok_iff (he : TakesSome element) (hd : TakesSome deeper) :
    nodeOf d element deeper cs = .ok (v, k) ↔ NodeRead d element deeper cs v k := by
  refine ⟨?_, NodeRead.nodeOf_eq he hd⟩
  intro h
  obtain ⟨v', k', hv⟩ | ⟨f, hf⟩ | hn := nodeRead_or_nodeCut_or_nodeless d he hd cs
  · rw [hv.nodeOf_eq he hd] at h
    cases h
    exact hv
  · rw [hf.nodeOf_eq he hd] at h
    cases h
  · exact absurd hn.backtracks_nodeOf (not_backtracks_of_ok h)

theorem nodeOf_eq_cut_iff (he : TakesSome element) (hd : TakesSome deeper) :
    nodeOf d element deeper cs = .error (.cut f) ↔ NodeCut d element deeper cs f := by
  refine ⟨?_, NodeCut.nodeOf_eq he hd⟩
  intro h
  obtain ⟨v, k, hv⟩ | ⟨f', hf⟩ | hn := nodeRead_or_nodeCut_or_nodeless d he hd cs
  · rw [hv.nodeOf_eq he hd] at h
    cases h
  · rw [hf.nodeOf_eq he hd] at h
    cases h
    exact hf
  · exact absurd hn.backtracks_nodeOf (not_backtracks_of_cut h)

theorem backtracks_nodeOf_iff (he : TakesSome element) (hd : TakesSome deeper) :
    Backtracks (nodeOf d element deeper) cs ↔ Nodeless cs := by
  refine ⟨?_, Nodeless.backtracks_nodeOf⟩
  intro h
  obtain ⟨v, k, hv⟩ | ⟨f, hf⟩ | hn := nodeRead_or_nodeCut_or_nodeless d he hd cs
  · exact absurd h (not_backtracks_of_ok (hv.nodeOf_eq he hd))
  · exact absurd h (not_backtracks_of_cut (hf.nodeOf_eq he hd))
  · exact hn

end

/-! ### Levels -/

/-- A node takes something, however many levels are left.  The induction is on the levels. -/
theorem takesSome_node (d : Dialect) (n : Nat) : TakesSome (node d n) := by
  induction n using Nat.strongRecOn with
  | ind n ih =>
    intro cs v k h
    cases n with
    | zero => cases h
    | succ n =>
      have he := ih n n.lt_succ_self
      have hd := ih (n - 1) (by omega)
      rw [node_succ, nodeOf_eq_ok_iff he hd] at h
      exact h.takes he hd

section
variable {d : Dialect} {n : Nat} {cs k : List Char} {v : Value} {f : Fault}

theorem node_eq_ok_iff :
    node d (n + 1) cs = .ok (v, k) ↔ NodeRead d (node d n) (node d (n - 1)) cs v k := by
  rw [node_succ]
  exact nodeOf_eq_ok_iff (takesSome_node d n) (takesSome_node d (n - 1))

theorem node_eq_cut_iff :
    node d (n + 1) cs = .error (.cut f) ↔ NodeCut d (node d n) (node d (n - 1)) cs f := by
  rw [node_succ]
  exact nodeOf_eq_cut_iff (takesSome_node d n) (takesSome_node d (n - 1))

theorem backtracks_node_iff : Backtracks (node d (n + 1)) cs ↔ Nodeless cs := by
  rw [node_succ]
  exact backtracks_nodeOf_iff (takesSome_node d n) (takesSome_node d (n - 1))

end

/-! ### Dead ends -/

/-- No item begins here, no list ends, and there is no white space to skip. -/
structure Stuck (k : List Char) : Prop where
  nodeless : Nodeless k
  head : ∃ c ∈ k.head?, isSpacing c = false ∧ c ≠ ')'

section
variable {k k' : List Char}

theorem nodeless_nil : Nodeless [] := ⟨by simp [Unmarked], by simp [EndsName], by simp⟩

theorem ne_nil_of_not_nodeless (h : ¬ Nodeless k) : k ≠ [] := by
  intro hnil
  subst hnil
  exact h nodeless_nil

/-- A delimiter that opens nothing. -/
theorem nodeless_cons {c : Char} (hm : c ≠ '"' ∧ c ≠ '\'' ∧ c ≠ '(') (hn : isNameChar c = false)
    (hp : c ≠ '.') (k : List Char) : Nodeless (c :: k) := by
  refine ⟨head?_cons_of hm k, .cons hn, ?_⟩
  intro hmarker
  rw [List.cons_prefix_cons] at hmarker
  exact hp hmarker.1.symm

theorem nodeless_paren (k : List Char) : Nodeless (')' :: k) :=
  nodeless_cons (by decide) (by decide) (by decide) k

/-- A point is a dead end unless it begins the variadic marker. -/
theorem stuck_point (h : ¬ ['.', '.'] <+: k) : Stuck ('.' :: k) := by
  refine ⟨⟨head?_cons_of (by decide) k, .cons (by decide), ?_⟩, '.', rfl, by decide⟩
  intro hp
  rw [List.cons_prefix_cons] at hp
  exact h hp.2

theorem stuck_colon (k : List Char) : Stuck (':' :: k) :=
  ⟨nodeless_cons (by decide) (by decide) (by decide) k, ':', rfl, by decide⟩

theorem Stuck.not_nil : ¬ Stuck [] := by
  intro h
  obtain ⟨c, hc, -⟩ := h.head
  cases hc

theorem Stuck.not_paren : ¬ Stuck (')' :: k) := by
  intro h
  obtain ⟨c, hc, -, hne⟩ := h.head
  cases hc
  exact hne rfl

theorem Stuck.dropWhile_eq (h : Stuck k) : k.dropWhile isSpacing = k := by
  obtain ⟨c, hc, hspace, -⟩ := h.head
  obtain ⟨r, rfl⟩ := List.head?_eq_some_iff.1 hc
  exact List.dropWhile_cons_of_neg (by simp [hspace])

/-- Items end at a dead end. -/
theorem ItemsRead.eq_of_stuck {p : Reads Value} {vs : List Value} (h : ItemsRead p k vs k')
    (hk : Stuck k) (hp : ∀ v r, p k ≠ .ok (v, r)) : k' = k := by
  cases h with
  | done h => exact hk.dropWhile_eq
  | item h hs =>
    rw [hk.dropWhile_eq] at h
    exact absurd h (hp _ _)

theorem Stuck.node_ne_ok (hk : Stuck k) (d : Dialect) (n : Nat) (v : Value) (r : List Char) :
    node d n k ≠ .ok (v, r) := by
  intro h
  cases n with
  | zero => cases h
  | succ n => exact not_backtracks_of_ok h (backtracks_node_iff.2 hk.nodeless)

end

end HostLisp.Reader
