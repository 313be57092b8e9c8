import HostLisp.Proofs.Grammar.Node

/-!
# The grammar of programs

A program is a row of items that goes on to the end of the text.  It is refused at an item that is
broken, or in front of a text with which no node begins:

    readProgram_eq_ok_iff : d.readProgram text = .ok vs ↔ ItemsRead (topNode d) text.toList vs [].
-/

namespace HostLisp.Reader

open Parsing

section
variable {d : Dialect} {cs k : List Char} {vs : List Value} {f : Fault}

theorem program_apply (d : Dialect) (cs : List Char) :
    program d cs = terminated (many (terminated (topNode d) spacing) : Reads (List Value)) eof
      (cs.dropWhile isSpacing) := by
  unfold program terminated
  rw [bind_apply, bind_apply, preceded_spacing_apply]

theorem ItemsRead.program_eq (h : ItemsRead (topNode d) cs vs []) :
    program d cs = .ok (vs, []) := by
  rw [program_apply]
  exact terminated_of_ok (h.many_eq (takesSome_node d _)) rfl

theorem ItemsRead.program_trailing (h : ItemsRead (topNode d) cs vs k) (hk : k ≠ []) :
    program d cs = .error (.backtrack ⟨.trailing, k⟩) := by
  rw [program_apply]
  refine terminated_of_right_error (h.many_eq (takesSome_node d _)) ?_
  simp only [eof, remaining_list, List.length_eq_zero_iff, hk, if_false]
  rfl

theorem ItemsCut.program_eq (h : ItemsCut (topNode d) cs f) :
    program d cs = .error (.cut f) := by
  rw [program_apply]
  exact terminated_of_error (h.many_eq (takesSome_node d _))

end

section
variable {d : Dialect} {text : String} {vs : List Value} {f : Fault} {e : ReadError}

theorem readProgram_of_items (h : ItemsRead (topNode d) text.toList vs []) :
    d.readProgram text = .ok vs := by
  unfold Dialect.readProgram run
  rw [h.program_eq]
  rfl

/-- The program is refused with the fault of the broken item. -/
theorem readProgram_of_itemsCut (h : ItemsCut (topNode d) text.toList f) :
    d.readProgram text = .error (f.locate text.toList) := by
  unfold Dialect.readProgram run
  rw [h.program_eq]
  rfl

theorem readProgram_trailing {k : List Char} (h : ItemsRead (topNode d) text.toList vs k)
    (hk : k ≠ []) : ∃ e, d.readProgram text = .error e ∧ e.kind = .trailing := by
  unfold Dialect.readProgram run
  rw [h.program_trailing hk]
  exact ⟨_, rfl, rfl⟩

theorem readProgram_eq_ok_iff :
    d.readProgram text = .ok vs ↔ ItemsRead (topNode d) text.toList vs [] := by
  refine ⟨?_, readProgram_of_items⟩
  intro h
  obtain ⟨us, k, hread⟩ | ⟨f, hf⟩ := itemsRead_or_itemsCut (takesSome_node d _) text.toList
  · by_cases hk : k = []
    · subst hk
      rw [readProgram_of_items hread] at h
      cases h
      exact hread
    · obtain ⟨e, he, -⟩ := readProgram_trailing hread hk
      rw [he] at h
      cases h
  · rw [readProgram_of_itemsCut hf] at h
    cases h

/-- An error is either that of a broken item, or some text is left over. -/
theorem itemsCut_or_trailing (h : d.readProgram text = .error e) :
    (∃ f, ItemsCut (topNode d) text.toList f ∧ e.kind = f.cause.kind) ∨
      ∃ vs k, ItemsRead (topNode d) text.toList vs k ∧ k ≠ [] ∧ e.kind = .trailing := by
  obtain ⟨us, k, hread⟩ | ⟨f, hf⟩ := itemsRead_or_itemsCut (takesSome_node d _) text.toList
  · by_cases hk : k = []
    · subst hk
      rw [readProgram_of_items hread] at h
      cases h
    · obtain ⟨e', he, hkind⟩ := readProgram_trailing hread hk
      rw [he] at h
      cases h
      exact .inr ⟨us, k, hread, hk, hkind⟩
  · rw [readProgram_of_itemsCut hf] at h
    cases h
    exact .inl ⟨f, hf, rfl⟩

end

end HostLisp.Reader
