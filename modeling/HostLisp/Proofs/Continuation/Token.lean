import HostLisp.Proofs.Continuation.Literal
import HostLisp.Proofs.Grammar.Node

/-!
# Tokens with more text behind them

A token that has been read in front of `k` is read in front of `k ++ w` just so, if `w` is `Settled`
there: either `w` begins with what closes everything, or something that is no dead end stands
between the token and `w`.  Otherwise the token might go on: a name and `.` in front of `b`, or a
name and `:` in front of `:int`.
-/

namespace HostLisp.Reader

open Parsing Text

section
variable {k w : List Char}

/-- What is read in front of `k` does not depend on whether `w` stands behind `k`. -/
inductive Settled (k w : List Char) : Prop
  | closed (h : Closes w)
  /-- A quote mark would still make a character of what looks like a quote. -/
  | apart (hne : k ≠ []) (hk : ¬ Stuck k) (hw : ∀ c ∈ w.head?, c ≠ '\'')

theorem Settled.head_ne_mark (h : Settled k w) : ∀ c ∈ w.head?, c ≠ '\'' := by
  cases h with
  | closed h => exact h.head_ne (by decide)
  | apart hne hk hw => exact hw

theorem Settled.closes (h : Settled k w) (hk : k = []) : Closes w := by
  cases h with
  | closed h => exact h
  | apart hne hs hw => exact absurd hk hne

/-- The first character of a text with more behind it. -/
theorem head?_append_of {P : Char → Prop} (hk : ∀ c ∈ k.head?, P c)
    (hw : k = [] → ∀ c ∈ w.head?, P c) : ∀ c ∈ (k ++ w).head?, P c := by
  cases k with
  | nil => exact hw rfl
  | cons c k => exact hk

/-! ### Types -/

/-- White space and brackets. -/
def separators : List Char := [' ', '\t', '\r', '\n', ')', ']', '[']

theorem any_isTypeNameChar_separators : separators.any isTypeNameChar = false := by
  decide +kernel

theorem isTypeNameChar_of_mem_separators {c : Char} (h : c ∈ separators) :
    isTypeNameChar c = false := by
  rw [← Bool.not_eq_true]
  exact List.any_eq_false.1 any_isTypeNameChar_separators c h

theorem isTypeNameChar_bracket : isTypeNameChar '[' = false :=
  isTypeNameChar_of_mem_separators (by simp [separators])

theorem Closes.endsTypeName (h : Closes w) : EndsTypeName w := by
  intro c hc
  refine isTypeNameChar_of_mem_separators ?_
  obtain hs | rfl | rfl := h c hc
  · simp only [isSpacing, Bool.or_eq_true, decide_eq_true_eq] at hs
    obtain ((rfl | rfl) | rfl) | rfl := hs <;> simp [separators]
  · simp [separators]
  · simp [separators]

theorem all_isTypeNameChar_keywords :
    ∀ e ∈ Kind.keywords, e.1.toList.all isTypeNameChar = true := by decide

/-- The name in front of a text is determined by the text. -/
theorem eq_of_typeName_append {n n' k' : List Char} (hn : ∀ c ∈ n, isTypeNameChar c = true)
    (hk : EndsTypeName k) (hn' : n'.all isTypeNameChar = true) (h : n ++ k = n' ++ k') :
    ∃ t, n = n' ++ t ∧ k' = t ++ k := by
  have htake := (takeWhile_typeName hn hk).1
  rw [h, List.takeWhile_append_of_pos (List.all_eq_true.1 hn')] at htake
  refine ⟨_, htake.symm, ?_⟩
  rw [← htake, List.append_assoc] at h
  exact (List.append_cancel_left h).symm

theorem NoBuiltin.append {n : List Char} (h : NoBuiltin (n ++ k)) (hne : n ≠ [])
    (hn : ∀ c ∈ n, isTypeNameChar c = true) (hk : EndsTypeName k) (hw : k = [] → Closes w) :
    NoBuiltin (n ++ (k ++ w)) := by
  have hkw : EndsTypeName (k ++ w) := head?_append_of hk fun hnil => (hw hnil).endsTypeName
  refine ⟨?_, ?_, ?_⟩
  · intro e he k' hk'
    obtain ⟨t, rfl, rfl⟩ := eq_of_typeName_append hn hkw (all_isTypeNameChar_keywords e he) hk'
    obtain ⟨c, hc, hstop⟩ := h.keyword e he (t ++ k) (List.append_assoc ..)
    refine ⟨c, ?_, hstop⟩
    rw [← List.append_assoc, List.head?_append, Option.mem_def.1 hc]
    exact rfl
  · intro hp
    obtain ⟨r, hr⟩ := hp
    have hmap : n ++ (k ++ w) = ['m', 'a', 'p'] ++ '[' :: r := hr.symm
    obtain ⟨t, rfl, hbracket⟩ := eq_of_typeName_append hn hkw (by decide) hmap
    -- The name is `map` alone, and the bracket stands behind it already.
    obtain rfl : t = [] := by
      cases t with
      | nil => rfl
      | cons c t =>
        cases hbracket
        have hc := hn '[' (by simp)
        rw [isTypeNameChar_bracket] at hc
        cases hc
    cases k with
    | nil =>
      obtain rfl : w = '[' :: r := hbracket.symm
      exact not_closes_cons (by decide) (hw rfl)
    | cons c k =>
      cases hbracket
      exact h.map (List.prefix_append ['m', 'a', 'p', '['] k)
  · intro hp
    cases n with
    | nil => exact hne rfl
    | cons c n =>
      rw [List.cons_append, List.cons_prefix_cons] at hp
      have hc := hn c List.mem_cons_self
      rw [← hp.1, isTypeNameChar_bracket] at hc
      cases hc

variable {d : Dialect} {cs : List Char}

theorem TypeRead.append {ty : Ty} (h : TypeRead d cs ty k) (hw : k = [] → Closes w) :
    TypeRead d (cs ++ w) ty (k ++ w) := by
  induction h with
  | keyword h hk =>
    rw [List.append_assoc]
    refine .keyword h (head?_append_of hk fun hnil c hc => ?_)
    exact isTypeStop_of_isBoundary ((hw hnil).stops c hc)
  | map hkey hvalue ihkey ihvalue => exact .map (ihkey (by simp)) (ihvalue hw)
  | slice h ih => exact .slice (ih hw)
  | named hne hn hk hb h =>
    rw [List.append_assoc]
    exact .named hne hn (head?_append_of hk fun hnil => (hw hnil).endsTypeName)
      (hb.append hne hn hk hw) h

/-! ### Names and annotations -/

/-- Behind a text that is no dead end there is no member, whatever follows. -/
theorem endsMembers_append (hne : k ≠ []) (hk : ¬ Stuck k) (w : List Char) :
    EndsMembers (k ++ w) := by
  intro t ht
  cases k with
  | nil => exact absurd rfl hne
  | cons c k =>
    cases ht
    obtain ⟨u, rfl⟩ : ['.', '.'] <+: k := by
      by_contra hp
      exact hk (stuck_point hp)
    exact .cons (by decide)

theorem EndsNameOf.append (h : EndsNameOf d k) (hw : Settled k w) : EndsNameOf d (k ++ w) := by
  refine ⟨head?_append_of h.name fun hnil => (hw.closes hnil).stops.endsName, ?_⟩
  intro hm
  cases hw with
  | closed hc =>
    intro t ht
    cases k with
    | nil => exact (hc.stops.endsWord.members t) ht
    | cons c k =>
      cases ht
      exact head?_append_of (h.members hm k rfl) fun _ => hc.stops.endsName
  | apart hne hk hw => exact endsMembers_append hne hk w

theorem Named.append {n : List Char} (h : Named d n k) (hw : Settled k w) : Named d n (k ++ w) :=
  h.imp_right fun hn => ⟨hn.1, hn.2.append hw⟩

theorem endsWord_colon (k : List Char) : EndsWord (':' :: k) :=
  ⟨.cons (by decide), endsMembers_of_head (head?_cons_of (by decide) k)⟩

/-- In front of a colon a name ends, whatever follows. -/
theorem Named.of_colon {n u u' : List Char} (h : Named d n (':' :: u)) : Named d n (':' :: u') :=
  h.imp_right fun hn => ⟨hn.1, (endsWord_colon u').name, fun _ => (endsWord_colon u').members⟩

theorem AnnotationRead.append {ty : Option Ty} (h : AnnotationRead d cs ty k)
    (hw : Settled k w) : AnnotationRead d (cs ++ w) ty (k ++ w) := by
  cases h with
  | none h =>
    refine .none ?_
    intro hp
    -- A colon at the end of `k` is a dead end, so `w` closes and brings no second one.
    rcases k with _ | ⟨c, k⟩
    · obtain ⟨t, rfl⟩ := hp
      exact not_closes_cons (by decide) (hw.closes rfl)
    · rw [List.cons_append, List.cons_prefix_cons] at hp
      obtain ⟨rfl, hp⟩ := hp
      cases hw with
      | closed hc =>
        rcases k with _ | ⟨c, k⟩
        · obtain ⟨t, rfl⟩ := hp
          exact not_closes_cons (by decide) hc
        · rw [List.cons_append, List.cons_prefix_cons] at hp
          exact h (by simpa [List.cons_prefix_cons] using hp)
      | apart hne hk hw => exact hk (stuck_colon k)
  | plain h hk =>
    exact .plain (h.append hw.closes)
      (head?_append_of hk fun hnil => (hw.closes hnil).head_ne (by decide))
  | optional h => exact .optional (h.append (by simp))

theorem AtomRead.append {a : Atom} (h : AtomRead d cs a k) (hw : Settled k w) :
    AtomRead d (cs ++ w) a (k ++ w) := by
  obtain ⟨hn, hd, h⟩ := h
  rw [List.append_assoc]
  refine .mk ?_ hd (h.append hw)
  cases h with
  | none h => exact hn.append hw
  | plain h hk => exact hn.of_colon
  | optional h => exact hn.of_colon

/-! ### Literals -/

theorem stops_of_token {l : Lexeme (List Char)} {n : List Char}
    (h : (terminated (lex l) (ahead isBoundary) : Reads (List Char)) cs = .ok (n, k)) :
    Stops k := by
  obtain ⟨r, u, -, hahead⟩ := exists_of_terminated h
  by_cases hr : Stops r
  · rw [ahead_of_stops hr] at hahead
    cases hahead
    exact hr
  · exact absurd (backtracks_ahead_of_not_stops hr) (not_backtracks_of_ok hahead)

/-- A boundary stands behind every literal. -/
theorem stops_of_literal {v : Value} (h : literal cs = .ok (v, k)) : Stops k := by
  obtain ⟨q, hq, h⟩ := exists_of_choice h
  simp only [List.mem_cons, List.not_mem_nil, or_false] at hq
  obtain rfl | rfl | rfl | rfl := hq
  · obtain ⟨x, h, -⟩ := exists_of_map h
    obtain ⟨n, r, h, hr⟩ := exists_of_bind h
    cases hr
    exact stops_of_token h
  · obtain ⟨i, h, -⟩ := exists_of_map h
    unfold int at h
    cases hp : (terminated (lex intLexeme) (ahead isBoundary) : Reads (List Char)) cs with
    | error e => simp [hp, bind, Except.bind] at h
    | ok x =>
      simp only [hp, bind, Except.bind] at h
      split at h
      · cases h
        exact stops_of_token hp
      · cases h
  · obtain ⟨b, h, -⟩ := exists_of_map h
    obtain h | ⟨-, h⟩ := exists_of_orElse h
    · obtain ⟨n, r, h, hr⟩ := exists_of_bind h
      cases hr
      exact stops_of_token h
    · obtain ⟨n, r, h, hr⟩ := exists_of_bind h
      cases hr
      exact stops_of_token h
  · obtain ⟨u, h, -⟩ := exists_of_map h
    obtain ⟨n, r, h, hr⟩ := exists_of_bind h
    cases hr
    exact stops_of_token h

theorem stops_append (hw : k = [] → Closes w) : Stops k ↔ Stops (k ++ w) := by
  cases k with
  | nil =>
    refine ⟨fun _ => (hw rfl).stops, fun _ => ?_⟩
    intro c hc
    cases hc
  | cons c k => exact Iff.rfl

theorem literal_append {v : Value} (h : literal cs = .ok (v, k)) (hw : k = [] → Closes w) :
    literal (cs ++ w) = .ok (v, k ++ w) := by
  obtain ⟨x, rfl⟩ := (takesSome_literal _ _ _ h).1
  have hk := stops_of_literal h
  have halike := alike_literal hk.endsWord ((stops_append hw).1 hk).endsWord (stops_append hw) x
  rw [List.append_assoc]
  exact halike.eq_ok h

end

end HostLisp.Reader
