import HostLisp.Environment
import HostLisp.Proofs.Grammar.Program
import Mathlib

/-!
# Reading step by step

A program can also be read with `Dialect.read`: one node, then one from the text that is left over,
and so on until nothing is left.  Each step starts anew on a text of its own, knowing nothing of the
text before it, and takes at least one character.  Both ways split a text at the same places:

    OneByOne.readProgram_eq : OneByOne d text vs → d.readProgram text = .ok vs
    oneByOne_of_readProgram : d.readProgram text = .ok vs →
      OneByOne d (String.ofList (text.toList.dropWhile isSpacing)) vs

The one difference is a text of white space: there is no node to begin with, but it is a program.
-/

namespace HostLisp.Reader

open Parsing

/-- Nodes read one at a time, each from what the one before has left over, until nothing is left. -/
inductive OneByOne (d : Dialect) : String → List Value → Prop where
  | done : OneByOne d "" []
  | node {text rest : String} {v : Value} {vs : List Value} (h : d.read text = .ok (v, rest))
      (hs : OneByOne d rest vs) : OneByOne d text (v :: vs)

/-- There is nothing but blanks, tabs, carriage returns and line feeds. -/
def IsBlankText (text : String) : Prop := ∀ c ∈ text.toList, isSpacing c = true

section
variable {d : Dialect} {text rest : String} {v : Value} {vs : List Value} {cs : List Char}

/-! ### Steps -/

theorem read_eq_ok_iff : d.read text = .ok (v, rest) ↔
    ∃ k, topNode d (text.toList.dropWhile isSpacing) = .ok (v, k) ∧
      rest = String.ofList (k.dropWhile isSpacing) := by
  constructor
  · exact exists_of_readWithin
  · rintro ⟨k, h, rfl⟩
    exact readWithin_of_node d rfl h

/-- A step takes something, and leaves an end of the text over. -/
theorem read_takes (h : d.read text = .ok (v, rest)) :
    rest.toList <:+ text.toList ∧ rest.toList.length < text.toList.length := by
  obtain ⟨k, hnode, rfl⟩ := read_eq_ok_iff.1 h
  obtain ⟨hsuffix, hlt⟩ := takesSome_node d _ _ _ _ hnode
  have hk := List.dropWhile_suffix (l := k) isSpacing
  have htext := List.dropWhile_suffix (l := text.toList) isSpacing
  rw [String.toList_ofList]
  refine ⟨(hk.trans hsuffix).trans htext, ?_⟩
  calc (k.dropWhile isSpacing).length
      ≤ k.length := hk.length_le
    _ < (text.toList.dropWhile isSpacing).length := hlt
    _ ≤ text.toList.length := htext.length_le

/-- White space in front of a text makes no difference to a step. -/
theorem read_dropWhile (d : Dialect) (text : String) :
    d.read (String.ofList (text.toList.dropWhile isSpacing)) = .ok (v, rest) ↔
      d.read text = .ok (v, rest) := by
  rw [read_eq_ok_iff, read_eq_ok_iff, String.toList_ofList, List.dropWhile_idempotent]

/-! ### Programs -/

theorem OneByOne.items (h : OneByOne d text vs) : ItemsRead (topNode d) text.toList vs [] := by
  induction h with
  | done => exact .done (backtracks_node_iff.2 nodeless_nil)
  | @node text rest v vs h hs ih =>
    obtain ⟨k, hnode, rfl⟩ := read_eq_ok_iff.1 h
    rw [String.toList_ofList] at ih
    exact .item hnode (ih.of_dropWhile_eq (List.dropWhile_idempotent ..).symm)

/-- The induction is on the items; white space in front of each of them has been left out by the
step before. -/
theorem oneByOne_of_items (h : ItemsRead (topNode d) cs vs []) :
    OneByOne d (String.ofList (cs.dropWhile isSpacing)) vs := by
  generalize hk : ([] : List Char) = k at h
  induction h with
  | done h =>
    rw [← hk]
    exact .done
  | @item cs r k v vs h hs ih =>
    refine .node (read_eq_ok_iff.2 ⟨r, ?_, rfl⟩) (ih hk)
    rwa [String.toList_ofList, List.dropWhile_idempotent]

theorem OneByOne.readProgram_eq (h : OneByOne d text vs) : d.readProgram text = .ok vs :=
  readProgram_of_items h.items

theorem oneByOne_of_readProgram (h : d.readProgram text = .ok vs) :
    OneByOne d (String.ofList (text.toList.dropWhile isSpacing)) vs :=
  oneByOne_of_items (readProgram_eq_ok_iff.1 h)

theorem isBlankText_iff : IsBlankText text ↔ text.toList.dropWhile isSpacing = [] :=
  List.dropWhile_eq_nil_iff.symm

theorem readProgram_of_isBlankText (h : IsBlankText text) : d.readProgram text = .ok [] := by
  have hnil := isBlankText_iff.1 h
  refine readProgram_of_items ?_
  have hnone : Backtracks (topNode d) (text.toList.dropWhile isSpacing) := by
    rw [hnil]
    exact backtracks_node_iff.2 nodeless_nil
  have hitems := ItemsRead.done hnone
  rwa [hnil] at hitems

theorem readProgram_iff_oneByOne :
    d.readProgram text = .ok vs ↔ IsBlankText text ∧ vs = [] ∨ OneByOne d text vs := by
  constructor
  · intro h
    -- The items begin behind white space, which a first step skips by itself, if there is one.
    have hsteps := oneByOne_of_readProgram h
    generalize ht : String.ofList (text.toList.dropWhile isSpacing) = t at hsteps
    cases hsteps with
    | done => exact .inl ⟨isBlankText_iff.2 (String.ofList_injective ht), rfl⟩
    | node hread hs =>
      rw [← ht, read_dropWhile] at hread
      exact .inr (.node hread hs)
  · rintro (⟨hblank, rfl⟩ | h)
    · exact readProgram_of_isBlankText hblank
    · exact h.readProgram_eq

/-! ### One node -/

theorem readOne_eq_ok_iff : readOne text = .ok v ↔ basic.read text = .ok (v, "") := by
  unfold readOne Dialect.read
  cases run (spacedNode basic) text.toList with
  | error e => simp [Except.map]
  | ok x =>
    obtain ⟨w, rest⟩ := x
    cases rest with
    | nil => simp [Except.map]
    | cons c rest => simp [Except.map]

theorem oneByOne_singleton_iff : OneByOne d text [v] ↔ d.read text = .ok (v, "") := by
  constructor
  · intro h
    cases h with
    | node h hs =>
      cases hs
      exact h
  · intro h
    exact .node h .done

end

/-- In every dialect, the basic one and those of environments, a program is a text of white space
or what is read one by one; every step takes something; and a text is read as one node exactly if it
is a program of that node. -/
theorem readProgram_stepwise (d : Dialect) (text : String) :
    (∀ vs, d.readProgram text = .ok vs ↔ IsBlankText text ∧ vs = [] ∨ OneByOne d text vs) ∧
      (∀ v rest, d.read text = .ok (v, rest) →
        rest.toList <:+ text.toList ∧ rest.toList.length < text.toList.length) ∧
      ∀ v, readOne text = .ok v ↔ basic.readProgram text = .ok [v] := by
  refine ⟨fun vs => readProgram_iff_oneByOne, fun v rest => read_takes, fun v => ?_⟩
  rw [readOne_eq_ok_iff, readProgram_iff_oneByOne, oneByOne_singleton_iff]
  simp

/-- Two nodes that touch, in the dialect of an environment. -/
theorem readProgram_stepwise_touching :
    Environment.empty.dialect.read "\n'a.b(1)" = .ok (.quote (.ofName "a.b"), "(1)") ∧
      "(1)".toList <:+ "\n'a.b(1)".toList ∧
      OneByOne Environment.empty.dialect "\n'a.b(1)" [.quote (.ofName "a.b"), .list [.int 1]] := by
  have hread : Environment.empty.dialect.read "\n'a.b(1)" =
      .ok (.quote (.ofName "a.b"), "(1)") := by cbv
  have hprogram : Environment.empty.dialect.readProgram "\n'a.b(1)" =
      .ok [.quote (.ofName "a.b"), .list [.int 1]] := by cbv
  obtain ⟨hsteps, htakes, -⟩ := readProgram_stepwise Environment.empty.dialect "\n'a.b(1)"
  exact ⟨hread, (htakes _ _ hread).1, ((hsteps _).1 hprogram).resolve_left (by simp)⟩

end HostLisp.Reader
