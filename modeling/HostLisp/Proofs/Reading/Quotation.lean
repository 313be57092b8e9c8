import HostLisp.Proofs.Reading.Limit
import Mathlib

/-!
# Quoted lists

A quote mark in front of a list quotes the list, if there are levels enough; with one exception.  A
quote mark opens character literals, too, and these are tried first: if the list begins with another
quote mark, the parenthesis between the two is a character, and the list is not read at all.
-/

namespace HostLisp.Reader

open Parsing

section
variable {d : Dialect} {u k : List Char} {vs : List Value}

/-- The items of a list nest less deep than the list, so a quote, which leaves one level less for
them, can do with one level more than the list needs. -/
theorem list_of_node {n : Nat} (h : node d (n + 2) ('(' :: u) = .ok (.list vs, k))
    (hn : (Value.list vs).nesting ≤ n) : list (node d n) ('(' :: u) = .ok (vs, k) := by
  have hlist : list (node d (n + 1)) ('(' :: u) = .ok (vs, k) := by
    rw [node_succ, nodeOf_eq_list] at h
    obtain ⟨vs', hvs, hx⟩ := exists_of_map h
    cases hx
    exact hvs
  obtain heq | ⟨-, hle⟩ := limits_list (limits_node d (Nat.le_succ n))
    (fun cs => node_eq_of_backtracks d (Nat.le_succ n)) u
  · exact heq.trans hlist
  · rw [Value.nesting] at hn
    exact absurd (hle vs k hlist) (by omega)

/-- A mark in front of a list that begins with no mark. -/
theorem node_quote {n : Nat} (h : node d (n + 2) ('(' :: u) = .ok (.list vs, k))
    (hn : (Value.list vs).nesting ≤ n) (hu : ∀ c ∈ u.head?, c ≠ '\'') :
    node d (n + 2) ('\'' :: '(' :: u) = .ok (.quote (.list vs), k) := by
  rw [node_succ]
  exact nodeOf_quotedList d hu (list_of_node h hn)

/-- The parenthesis between two marks. -/
theorem node_character (d : Dialect) (n : Nat) (w : List Char) :
    node d (n + 1) ('\'' :: '(' :: '\'' :: w) = .ok (.char '(', w) := by
  have hmark : Stops ('\'' :: '(' :: '\'' :: w) := .cons (by decide)
  rw [node_succ]
  exact nodeOf_character d _ _ (backtracks_string (by rintro c ⟨⟩; decide))
    (noWord_of_endsName hmark.endsName) (character_append '(' w)

end

/-- A quote mark in front of the text of a list quotes the list, where two levels more are left than
the list nests, unless the list begins with a quote mark; then the reader takes the parenthesis for a
character and stops behind that mark. -/
theorem read_quote (d : Dialect) {u rest : String} {vs : List Value}
    (h : d.read ("(" ++ u) = .ok (.list vs, rest))
    (hn : (Value.list vs).nesting ≤ maxReadDepth - 2) :
    (u.toList.head? ≠ some '\'' → d.read ("'" ++ ("(" ++ u)) = .ok (.quote (.list vs), rest)) ∧
      (u.toList.head? = some '\'' → d.read ("'" ++ ("(" ++ u)) =
        .ok (.char '(', String.ofList (u.toList.tail.dropWhile isSpacing))) := by
  obtain ⟨k, hnode, rfl⟩ := exists_of_readWithin h
  have hmark : ("'" ++ ("(" ++ u)).toList.dropWhile isSpacing = '\'' :: '(' :: u.toList := by
    simp [isSpacing]
  have hparen : ("(" ++ u).toList.dropWhile isSpacing = '(' :: u.toList := by
    simp [isSpacing]
  rw [hparen] at hnode
  refine ⟨fun hu => ?_, fun hu => ?_⟩
  · refine readWithin_of_node d hmark (node_quote hnode hn ?_)
    rintro c hc rfl
    exact hu hc
  · obtain ⟨w, hw⟩ := List.head?_eq_some_iff.1 hu
    rw [hw] at hmark ⊢
    exact readWithin_of_node d hmark (node_character d 63 w)

/-- Marks inside the list do no harm. -/
theorem read_quote_inside :
    basic.read "'(f '(x) 'y')" =
      .ok (.quote (.list [.ofName "f", .quote (.list [.ofName "x"]), .char 'y']), "") := by
  have h : basic.read "(f '(x) 'y')" =
      .ok (.list [.ofName "f", .quote (.list [.ofName "x"]), .char 'y'], "") := by cbv
  exact (read_quote basic (u := "f '(x) 'y')") h (by decide)).1 (by decide)

/-- A list that begins with a quoted name is read, and not where it is quoted itself. -/
theorem read_quote_first :
    basic.read "('x)" = .ok (.list [.quote (.ofName "x")], "") ∧
      (Value.list [.quote (.ofName "x")]).nesting ≤ maxReadDepth - 2 ∧
      basic.read "'('x)" = .ok (.char '(', "x)") := by
  refine ⟨?_, by decide, ?_⟩
  · cbv
  · cbv

end HostLisp.Reader
