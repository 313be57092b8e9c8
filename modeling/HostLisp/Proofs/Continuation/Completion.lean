import HostLisp.Proofs.Continuation.Node

/-!
# Texts that end too early

A text that is refused as incomplete breaks off where more was needed: inside a string or an escape,
behind a quote mark, inside a list, or inside the type of an annotation.  For each of these places
there is something to put behind the text that ends what has been begun there, and then what is
around it.  So an incomplete text is the beginning of a program:

    readProgram_completable : d.readProgram text = .error e → e.kind = .incomplete →
      ∃ more vs, d.readProgram (text ++ more) = .ok vs.
-/

namespace HostLisp.Reader

open Parsing Text

/-- The text is the beginning of one with the property: something that does not begin with a quote
mark, which might change what stands in front of it, makes it whole, in front of whatever closes. -/
def Completable {α : Type} (r : List Char → α → List Char → Prop) (cs : List Char) : Prop :=
  ∃ c s a, c ≠ '\'' ∧ ∀ w, Closes w → r (cs ++ c :: (s ++ w)) a w

/-- Completing a part completes the whole. -/
theorem Completable.imp {α β : Type} {r : List Char → α → List Char → Prop}
    {r' : List Char → β → List Char → Prop} {cs cs' : List Char} (f : α → β) (h : Completable r cs)
    (hr : ∀ c s a w, c ≠ '\'' → Closes w → r (cs ++ c :: s) a w → r' (cs' ++ c :: s) (f a) w) :
    Completable r' cs' := by
  obtain ⟨c, s, a, hc, h⟩ := h
  exact ⟨c, s, f a, hc, fun w hw => hr c (s ++ w) a w hc hw (h w hw)⟩

theorem eq_nil_of_unexpectedAt {k : List Char}
    (h : (Fault.unexpectedAt k).cause.kind = .incomplete) : k = [] := by
  cases k with
  | nil => rfl
  | cons c k => cases h

/-! ### Types and atoms -/

section
variable {d : Dialect} {cs u : List Char} {f : Fault}

theorem typeRead_any {w : List Char} (hw : Closes w) :
    TypeRead d ('a' :: 'n' :: 'y' :: w) { kind := .any } w := by
  have h : TypeRead d ("any".toList ++ w) { kind := .any } w :=
    .keyword (by decide) fun c hc => isTypeStop_of_isBoundary (hw.stops c hc)
  exact h

/-- Any type will do where one is missing. -/
theorem TypeFault.completable (h : TypeFault d cs f) (hf : f.cause.kind = .incomplete) :
    Completable (TypeRead d) cs := by
  have hclose : ∀ w, Closes (']' :: w) := fun w => .cons (.inr (.inr rfl))
  induction h with
  | nothing hb hk =>
    obtain rfl := eq_nil_of_unexpectedAt hf
    exact ⟨'a', ['n', 'y'], _, by decide, fun w hw => typeRead_any hw⟩
  | notAType hne hn hk hb h => cases hf
  | notFound hne hn hk hb h => cases hf
  | key h ih =>
    -- The rest of the map is missing as well.
    obtain ⟨c, s, key, hc, hs⟩ := ih hf
    refine ⟨c, s ++ [']', 'a', 'n', 'y'], .mapOf key { kind := .any }, hc, fun w hw => ?_⟩
    rw [List.append_assoc]
    exact .map (hs (']' :: 'a' :: 'n' :: 'y' :: w) (hclose _)) (typeRead_any hw)
  | bracket hkey hr =>
    obtain rfl := eq_nil_of_unexpectedAt hf
    exact ⟨']', ['a', 'n', 'y'], _, by decide, fun w hw =>
      .map (hkey.append fun _ => hclose _) (typeRead_any hw)⟩
  | value hkey h ih =>
    exact (ih hf).imp _ fun c s value w hc hw hs => .map (hkey.append (by simp)) hs
  | element h ih => exact (ih hf).imp _ fun c s element w hc hw hs => .slice hs

/-- Behind a name nothing can be missing but a type. -/
theorem AtomCut.exists_typeFault (h : AtomCut d cs f) (hf : f.cause.kind = .incomplete) :
    ∃ n ts, cs = n ++ ':' :: ':' :: ts ∧ Named d n (':' :: ':' :: ts) ∧
      n.all Char.isDigit = false ∧ Completable (TypeRead d) ts := by
  cases h with
  | digits hn hd => cases hf
  | type hn hd h => exact ⟨_, _, rfl, hn, hd, h.completable hf⟩

theorem AtomCut.completable (h : AtomCut d cs f) (hf : f.cause.kind = .incomplete) :
    Completable (AtomRead d) cs := by
  obtain ⟨n, ts, rfl, hn, hd, hts⟩ := h.exists_typeFault hf
  refine hts.imp (fun ty => ⟨String.ofList n, ty⟩) fun c s ty w hc hw hs => ?_
  rw [List.append_assoc]
  exact .mk hn.of_colon hd (.plain hs (hw.head_ne (by decide)))

/-! ### Strings and characters -/

theorem BodyCut.completable {start : List Char} (h : BodyCut start cs f)
    (hf : f.cause.kind = .incomplete) : Completable BodyRead cs := by
  induction h with
  | unterminated => exact ⟨'"', [], [], by decide, fun w hw => .close⟩
  | halfEscape => exact ⟨'n', ['"'], ['\n'], by decide, fun w hw => .escaped rfl .close⟩
  | unknownEscape h => cases hf
  | escaped h hs ih => exact (ih hf).imp _ fun c s a w hc hw hs => .escaped h hs
  | plain hb hq hs ih => exact (ih hf).imp _ fun c s a w hc hw hs => .plain hb hq hs

theorem CharacterCut.completable (h : CharacterCut cs f) (hf : f.cause.kind = .incomplete) :
    Completable CharacterRead cs := by
  cases h with
  | halfEscape => exact ⟨'n', ['\''], '\n', by decide, fun w hw => .escaped rfl⟩
  | unknownEscape h => cases hf

/-- Behind a lone quote mark a name may stand. -/
theorem atomRead_segment {n w : List Char} (hn : IsSegment n) (hd : n.all Char.isDigit = false)
    (hw : Closes w) : AtomRead d (n ++ w) ⟨String.ofList n, Ty.any⟩ w := by
  refine .mk (.inr ⟨hn.isName, hw.stops.endsName, fun _ => hw.stops.endsWord.members⟩) hd (.none ?_)
  intro hp
  obtain ⟨t, rfl⟩ := hp
  exact not_closes_cons (by decide) hw

end

/-! ### Items -/

/-- A reader of items that can be made to read on where the text ends too early.  It does not stop
there where no node begins. -/
structure Completes (p : Reads Value) : Prop where
  stable : Stable p
  backtracks : ∀ {cs f u}, p cs = .error (.cut f) → f.cause.kind = .incomplete → Nodeless u →
    Backtracks p u
  completable : ∀ {cs f}, p cs = .error (.cut f) → f.cause.kind = .incomplete →
    Completable (fun cs v k => p cs = .ok (v, k)) cs

section
variable {p : Reads Value} {cs u : List Char} {f : Fault}

theorem Completes.not_nodeless (hp : Completes p) (h : p cs = .error (.cut f))
    (hf : f.cause.kind = .incomplete) : ¬ Nodeless cs := fun hcs =>
  not_backtracks_of_cut h (hp.backtracks h hf hcs)

theorem ItemsCut.backtracks (hp : Completes p) (h : ItemsCut p cs f)
    (hf : f.cause.kind = .incomplete) (hu : Nodeless u) : Backtracks p u := by
  induction h with
  | here h => exact hp.backtracks h hf hu
  | later h hs ih => exact ih hf

/-- There is something left where an item is broken, and it is no dead end. -/
theorem ItemsCut.apart (hp : Completes p) (h : ItemsCut p cs f)
    (hf : f.cause.kind = .incomplete) : cs ≠ [] ∧ ¬ Stuck cs := by
  have hnode : ¬ Nodeless (cs.dropWhile isSpacing) := by
    cases h with
    | here h => exact hp.not_nodeless h hf
    | later h hs => exact hp.stable.not_nodeless h
  constructor
  · intro hnil
    rw [hnil] at hnode
    exact hnode nodeless_nil
  · intro hstuck
    rw [hstuck.dropWhile_eq] at hnode
    exact hnode hstuck.nodeless

/-- The broken item can be completed, and then others may follow.  The induction is on the items in
front of it. -/
theorem ItemsCut.completable (hp : Completes p) (h : ItemsCut p cs f)
    (hf : f.cause.kind = .incomplete) :
    ∃ c s vs, c ≠ '\'' ∧ ∀ w, Closes w → ∀ us k, ItemsRead p w us k →
      ItemsRead p (cs ++ c :: (s ++ w)) (vs ++ us) k := by
  induction h with
  | here h =>
    obtain ⟨c, s, v, hc, hs⟩ := hp.completable h hf
    refine ⟨c, s, [v], hc, fun w hw us k hrest => .item ?_ hrest⟩
    rw [dropWhile_spacing_append (ne_nil_of_not_nodeless (hp.not_nodeless h hf))]
    exact hs w hw
  | @later cs r v f h hs ih =>
    obtain ⟨c, s, vs, hc, hmend⟩ := ih hf
    obtain ⟨hne, hstuck⟩ := hs.apart hp hf
    refine ⟨c, s, v :: vs, hc, fun w hw us k hrest => .item ?_ (hmend w hw us k hrest)⟩
    rw [dropWhile_spacing_append (ne_nil_of_takes (hp.stable.takes _ _ _ h))]
    exact hp.stable.ok h (.apart hne hstuck (head?_cons_of (P := (· ≠ '\'')) hc _))

/-- A list that is not closed can be closed, after the broken item has been completed. -/
theorem ListCut.completable (hp : Completes p) (h : ListCut p u f)
    (hf : f.cause.kind = .incomplete) :
    Completable (fun u vs k => ItemsRead p u vs (')' :: k)) u := by
  have hclose : ∀ w, Closes (')' :: w) := fun w => .cons (.inr (.inl rfl))
  cases h with
  | item h =>
    obtain ⟨c, s, vs, hc, hmend⟩ := h.completable hp hf
    refine ⟨c, s ++ [')'], vs ++ [], hc, fun w hw => ?_⟩
    rw [List.append_assoc]
    exact hmend _ (hclose w) _ _
      (.nil rfl (h.backtracks hp hf (nodeless_paren w)))
  | @unclosed _ vs h hk =>
    obtain rfl := eq_nil_of_unexpectedAt hf
    refine ⟨')', [], vs ++ [], by decide, fun w hw => ?_⟩
    have hend := hp.stable.backtracks h.backtracks (nodeless_paren w)
    exact h.append hp.stable (.closed (hclose w)) (.nil rfl hend)

end

/-! ### Nodes -/

section
variable {d : Dialect} {element deeper : Reads Value} {cs : List Char} {f : Fault}

theorem NodeCut.completable (he : Completes element) (hd : Completes deeper)
    (h : NodeCut d element deeper cs f) (hf : f.cause.kind = .incomplete) :
    Completable (NodeRead d element deeper) cs := by
  cases h with
  | string h => exact (h.completable hf).imp _ fun c s a w hc hw hs => .string hs
  | character h => exact (h.completable hf).imp _ fun c s a w hc hw hs => .character hs
  | @quotedAtom u f hno h =>
    refine (h.completable hf).imp (fun a => .quote (.atom a)) fun c s a w hc hw hs => ?_
    obtain ⟨n, ts, rfl, -⟩ := h.exists_typeFault hf
    have hmark := head?_cons_of (P := (· ≠ '\'')) hc s
    exact .quotedAtom (hno.append (by simp) hmark) hs
  | quotedList hno h =>
    refine (h.completable hd hf).imp (fun vs => .quote (.list vs)) fun c s vs w hc hw hs => ?_
    have hmark := head?_cons_of (P := (· ≠ '\'')) hc s
    exact .quotedList (hno.append (by simp) hmark) hs
  | unquotable hno hn hp =>
    -- A lone mark at the end of the text, so anything may be quoted.
    obtain rfl := eq_nil_of_unexpectedAt hf
    refine ⟨'x', [], .quote (.ofName "x"), by decide, fun w hw => ?_⟩
    have hx : IsSegment ['x'] := ⟨by simp, List.all_eq_true.1 (by decide)⟩
    exact .quotedAtom (.plain (by decide) (by decide) (hw.head_ne (by decide)))
      (atomRead_segment hx (by decide) hw)
  | list h => exact (h.completable he hf).imp _ fun c s a w hc hw hs => .list hs
  | literal hm h =>
    rw [kind_of_literal h] at hf
    cases hf
  | atom hm hl h =>
    -- The name ends in front of its colons, so what was no literal does not become one.
    refine (h.completable hf).imp .atom fun c s a w hc hw hs => ?_
    obtain ⟨n, ts, rfl, -⟩ := h.exists_typeFault hf
    refine .atom (hm.append (by simp) _) ?_ hs
    rw [List.append_assoc]
    exact backtracks_literal_append hl (endsWord_colon _) (endsWord_colon _) (by simp)

/-- The induction is on the levels. -/
theorem completes_node (d : Dialect) (n : Nat) : Completes (node d n) := by
  induction n using Nat.strongRecOn with
  | ind n ih =>
    cases n with
    | zero =>
      -- Without a level left a text is refused as too deep, never as incomplete.
      have hf : ∀ {cs f}, node d 0 cs = .error (.cut f) → f.cause.kind ≠ .incomplete := by
        intro cs f h
        cases h
        simp [Fault.Cause.kind]
      exact ⟨stable_node d 0, fun h hf' => absurd hf' (hf h), fun h hf' => absurd hf' (hf h)⟩
    | succ n =>
      have he := ih n n.lt_succ_self
      have hd := ih (n - 1) (by omega)
      refine ⟨stable_node d (n + 1), fun _ _ hu => backtracks_node_iff.2 hu, ?_⟩
      intro cs f h hf
      rw [node_eq_cut_iff] at h
      exact (h.completable he hd hf).imp _ fun c s v w hc hw hs => node_eq_ok_iff.2 hs

end

/-! ### Programs -/

/-- In every dialect a text that is refused as incomplete is the beginning of a program. -/
theorem readProgram_completable (d : Dialect) {text : String} {e : ReadError}
    (h : d.readProgram text = .error e) (he : e.kind = .incomplete) :
    ∃ more vs, d.readProgram (text ++ more) = .ok vs := by
  obtain ⟨f, hf, hkind⟩ | ⟨vs, k, -, -, hkind⟩ := itemsCut_or_trailing h
  · have hp : Completes (topNode d) := completes_node d maxReadDepth
    rw [he] at hkind
    obtain ⟨c, s, vs, -, hmend⟩ := hf.completable hp hkind.symm
    have hend : ItemsRead (topNode d) [] [] [] :=
      .done (hf.backtracks hp hkind.symm nodeless_nil)
    refine ⟨String.ofList (c :: s), vs, readProgram_eq_ok_iff.2 ?_⟩
    have hread := hmend [] Closes.nil [] [] hend
    simpa using hread
  · rw [he] at hkind
    cases hkind

/-- A list, a quote and a map that are all still open. -/
theorem readProgram_completable_map :
    basic.readProgram "(f '(x::map[int" =
        .error { kind := .incomplete, message := "Unexpected end of input",
                 context := some "(f '(x::map[int" } ∧
      ∃ more vs, basic.readProgram ("(f '(x::map[int" ++ more) = .ok vs := by
  have h : basic.readProgram "(f '(x::map[int" =
      .error { kind := .incomplete, message := "Unexpected end of input",
               context := some "(f '(x::map[int" } := by cbv
  exact ⟨h, readProgram_completable basic h rfl⟩

end HostLisp.Reader
