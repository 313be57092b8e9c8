import HostLisp.Environment
import HostLisp.Proofs.Grammar.Program
import Mathlib

/-!
# What every dialect reads

The basic dialect knows no names of types and no members.  Another dialect may read on where it
stops, in the middle of `a.b`; but what stands there begins no node and ends no list, so the basic
dialect does not get any further.  Where it does read a program, every dialect reads the same one.
-/

namespace HostLisp.Reader

open Parsing

/-- `q` reads what `p` reads, unless `p` runs into a dead end, and has no more to read than `p`. -/
structure Extends (p q : Reads Value) : Prop where
  ok : ∀ cs v k, p cs = .ok (v, k) → q cs = .ok (v, k) ∨ Stuck k
  backtracks : ∀ cs, Backtracks p cs → Backtracks q cs
  stuck : ∀ k v r, Stuck k → p k ≠ .ok (v, r)

section
variable {d : Dialect} {cs k : List Char}

/-! ### Types and atoms -/

theorem TypeRead.of_basic {ty : Ty} (h : TypeRead basic cs ty k) : TypeRead d cs ty k := by
  induction h with
  | keyword h hk => exact .keyword h hk
  | map hkey hvalue ihkey ihvalue => exact .map ihkey ihvalue
  | slice h ih => exact .slice ih
  | named hne hn hk hb h => cases h

theorem AnnotationRead.of_basic {ty : Option Ty} (h : AnnotationRead basic cs ty k) :
    AnnotationRead d cs ty k := by
  cases h with
  | none h => exact .none h
  | plain h hk => exact .plain h.of_basic hk
  | optional h => exact .optional h.of_basic

theorem IsName.of_basic {n : List Char} (h : IsName basic n) : IsName d n := by
  obtain ⟨hfirst, hfurther, hm⟩ := h
  refine .mk hfirst hfurther ?_
  intro hne
  cases hm hne

/-- A name goes on in another dialect only behind a point. -/
theorem Named.of_basic {n : List Char} (h : Named basic n k) :
    Named d n k ∨ Stuck k ∧ k.head? = some '.' := by
  obtain rfl | ⟨hn, hk⟩ := h
  · exact .inl (.inl rfl)
  by_cases hm : EndsMembers k
  · exact .inl (.inr ⟨hn.of_basic, hk.name, fun _ => hm⟩)
  · obtain ⟨t, rfl, ht⟩ : ∃ t, k = '.' :: t ∧ ¬ EndsName t := by
      simpa [EndsMembers] using hm
    refine .inr ⟨stuck_point fun hp => ht ?_, rfl⟩
    obtain ⟨u, rfl⟩ := hp
    exact .cons (by decide)

theorem AtomRead.of_basic {a : Atom} (h : AtomRead basic cs a k) :
    AtomRead d cs a k ∨ Stuck k := by
  obtain ⟨hn, hd, h⟩ := h
  obtain hn | ⟨hstuck, hpoint⟩ := hn.of_basic (d := d)
  · exact .inl (.mk hn hd h.of_basic)
  · cases h with
    | none h => exact .inr hstuck
    | plain h hk => cases hpoint
    | optional h => cases hpoint

/-! ### Nodes -/

theorem ItemsRead.extend {p q : Reads Value} {vs : List Value} (hpq : Extends p q)
    (h : ItemsRead p cs vs k) : ItemsRead q cs vs k ∨ Stuck k := by
  induction h with
  | done h => exact .inl (.done (hpq.backtracks _ h))
  | @item cs r k v vs h hs ih =>
    obtain hs' | hstuck := ih
    · obtain h' | hr := hpq.ok _ _ _ h
      · exact .inl (.item h' hs')
      -- No item was read behind the dead end, so it is where the items end.
      · have hk : k = r := hs.eq_of_stuck hr fun v' r' => hpq.stuck r v' r' hr
        rw [hk]
        exact .inr hr
    · exact .inr hstuck

/-- A list that is closed did not run into a dead end. -/
theorem ItemsRead.extend_closed {p q : Reads Value} {vs : List Value} (hpq : Extends p q)
    (h : ItemsRead p cs vs (')' :: k)) : ItemsRead q cs vs (')' :: k) :=
  (h.extend hpq).resolve_right Stuck.not_paren

theorem NodeRead.extend {element deeper element' deeper' : Reads Value} {v : Value}
    (he : Extends element element') (hd : Extends deeper deeper')
    (h : NodeRead basic element deeper cs v k) :
    NodeRead d element' deeper' cs v k ∨ Stuck k := by
  cases h with
  | string h => exact .inl (.string h)
  | character h => exact .inl (.character h)
  | quotedAtom hc h => exact h.of_basic.imp_left (.quotedAtom hc)
  | quotedList hc h => exact .inl (.quotedList hc (h.extend_closed hd))
  | list h => exact .inl (.list (h.extend_closed he))
  | literal hm h => exact .inl (.literal hm h)
  | atom hm hl h => exact h.of_basic.imp_left (.atom hm hl)

/-- The induction is on the levels. -/
theorem extends_node (d : Dialect) (n : Nat) : Extends (node basic n) (node d n) := by
  induction n using Nat.strongRecOn with
  | ind n ih =>
    refine ⟨?_, ?_, ?_⟩
    · intro cs v k h
      cases n with
      | zero => cases h
      | succ n =>
        have he := ih n n.lt_succ_self
        have hd := ih (n - 1) (by omega)
        rw [node_eq_ok_iff] at h ⊢
        exact h.extend he hd
    · intro cs h
      cases n with
      | zero =>
        obtain ⟨e, he⟩ := h
        cases he
      | succ n => rwa [backtracks_node_iff] at h ⊢
    · intro k v r hk
      exact hk.node_ne_ok basic n v r

end

/-! ### Programs -/

/-- Whatever the basic dialect reads as a program, every dialect, as that of an environment, reads
as the same program. -/
theorem readProgram_of_basic (d : Dialect) {text : String} {vs : List Value}
    (h : basic.readProgram text = .ok vs) : d.readProgram text = .ok vs := by
  rw [readProgram_eq_ok_iff] at h ⊢
  exact (h.extend (extends_node d maxReadDepth)).resolve_right Stuck.not_nil

/-- The variadic marker splits off a name before members are looked for. -/
theorem readProgram_of_basic_marker :
    basic.readProgram "(fn (f a...::any) 'a...)" =
        .ok [.list [.ofName "fn", .list [.ofName "f", .ofName "a", .ofName "..."],
          .quote (.ofName "a"), .ofName "..."]] ∧
      ((Environment.empty.defineType "row" .any).dialect.readProgram "(fn (f a...::any) 'a...)" =
        .ok [.list [.ofName "fn", .list [.ofName "f", .ofName "a", .ofName "..."],
          .quote (.ofName "a"), .ofName "..."]]) := by
  have h : basic.readProgram "(fn (f a...::any) 'a...)" =
      .ok [.list [.ofName "fn", .list [.ofName "f", .ofName "a", .ofName "..."],
        .quote (.ofName "a"), .ofName "..."]] := by cbv
  exact ⟨h, readProgram_of_basic _ h⟩

end HostLisp.Reader
