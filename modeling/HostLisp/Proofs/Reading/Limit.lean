import HostLisp.Proofs.Reading.Depth

/-!
# The limit on nesting

A whole text is read with `maxReadDepth` levels.  With more of them there would be one difference
only: a text that is refused as nesting too deep might be read, as something that does nest that
deep, or might be found broken further on.

The levels count lists and quotes.  Annotations have a recursion of their own, and no limit.
-/

namespace HostLisp.Reader

open Parsing

/-! ### Reading with any number of levels -/

/-- A node with `n` levels, and the white space around it. -/
def spacedWithin (d : Dialect) (n : Nat) : Reads Value :=
  terminated (preceded spacing (node d n)) spacing

/-- All nodes of a text, each with `n` levels. -/
def programWithin (d : Dialect) (n : Nat) : Reads (List Value) :=
  terminated (preceded spacing (many (terminated (node d n) spacing))) eof

namespace Dialect

/-- The first node of a text, read with `n` levels, and the text behind it. -/
def readWithin (d : Dialect) (n : Nat) (text : String) : Except ReadError (Value × String) :=
  (run (spacedWithin d n) text.toList).map fun (v, rest) => (v, String.ofList rest)

/-- All nodes of a text, each read with `n` levels. -/
def readProgramWithin (d : Dialect) (n : Nat) (text : String) : Except ReadError (List Value) :=
  (run (programWithin d n) text.toList).map (·.1)

theorem read_eq (d : Dialect) (text : String) : d.read text = d.readWithin maxReadDepth text := rfl

theorem readProgram_eq (d : Dialect) (text : String) :
    d.readProgram text = d.readProgramWithin maxReadDepth text := rfl

end Dialect

theorem preceded_spacing_apply {α : Type} (p : Reads α) (cs : List Char) :
    preceded spacing p cs = p (cs.dropWhile isSpacing) := preceded_of_ok rfl

/-- A result of a run comes from a result of the parser. -/
theorem exists_of_run_map {α β : Type} {p : Reads α} {cs : List Char} {f : α × List Char → β} {c : β}
    (h : (run p cs).map f = .ok c) : ∃ a k, p cs = .ok (a, k) ∧ f (a, k) = c := by
  unfold run at h
  cases hp : p cs with
  | error e =>
    rw [hp] at h
    cases h
  | ok x =>
    rw [hp] at h
    cases h
    exact ⟨x.1, x.2, rfl, rfl⟩

/-- A text is read as the node behind its leading white space. -/
theorem readWithin_of_node (d : Dialect) {n : Nat} {text : String} {cs k : List Char} {v : Value}
    (ht : text.toList.dropWhile isSpacing = cs) (h : node d n cs = .ok (v, k)) :
    d.readWithin n text = .ok (v, String.ofList (k.dropWhile isSpacing)) := by
  have hspaced : spacedWithin d n text.toList = .ok (v, k.dropWhile isSpacing) := by
    refine terminated_of_ok (r := k) ?_ rfl
    rw [preceded_spacing_apply, ht]
    exact h
  unfold Dialect.readWithin run
  rw [hspaced]
  rfl

theorem exists_of_readWithin {d : Dialect} {n : Nat} {text rest : String} {v : Value}
    (h : d.readWithin n text = .ok (v, rest)) :
    ∃ k, node d n (text.toList.dropWhile isSpacing) = .ok (v, k) ∧
      rest = String.ofList (k.dropWhile isSpacing) := by
  obtain ⟨v', r, hspaced, hx⟩ := exists_of_run_map h
  cases hx
  obtain ⟨k, _, hnode, hspacing⟩ := exists_of_terminated hspaced
  rw [preceded_spacing_apply] at hnode
  cases hspacing
  exact ⟨k, hnode, rfl⟩

theorem limits_spacedWithin (d : Dialect) {m n : Nat} (h : m ≤ n) (cs : List Char) :
    Limits m Value.nesting (spacedWithin d m) (spacedWithin d n) cs := by
  refine .terminated spacing ?_
  exact .of_eq (preceded_spacing_apply _ cs) (preceded_spacing_apply _ cs) (limits_node d h _)

theorem limits_programWithin (d : Dialect) {m n : Nat} (h : m ≤ n) (cs : List Char) :
    Limits m Value.nestingOfItems (programWithin d m) (programWithin d n) cs := by
  refine .terminated eof ?_
  refine .of_eq (preceded_spacing_apply _ cs) (preceded_spacing_apply _ cs) ?_
  exact limits_items (limits_node d h) (fun cs => node_eq_of_backtracks d h) _

theorem nesting_lt_of_spacedWithin (d : Dialect) {n : Nat} {cs k : List Char} {v : Value}
    (h : spacedWithin d n cs = .ok (v, k)) : v.nesting < n := by
  obtain ⟨r, -, hnode, -⟩ := exists_of_terminated h
  rw [preceded_spacing_apply] at hnode
  exact nesting_lt_of_node d hnode

theorem nestingOfItems_lt_of_programWithin (d : Dialect) {n : Nat} {cs k : List Char}
    {vs : List Value} (h : programWithin d n cs = .ok (vs, k)) : Value.nestingOfItems vs < n := by
  obtain ⟨r, -, hitems, -⟩ := exists_of_terminated h
  rw [preceded_spacing_apply] at hitems
  exact nestingOfItems_lt_of_items d (fun cs v k => nesting_lt_of_node d) hitems

/-! ### Outcomes -/

theorem nesting_le_of_mem {v : Value} {vs : List Value} (h : v ∈ vs) :
    v.nesting ≤ Value.nestingOfItems vs := by
  induction vs with
  | nil => cases h
  | cons w vs ih =>
    rw [Value.nestingOfItems]
    obtain rfl | h := List.mem_cons.1 h
    · exact Nat.le_max_left ..
    · exact Nat.le_trans (ih h) (Nat.le_max_right ..)

section
variable {α β : Type} {b : Nat}

/-- The text is refused because it nests too deep. -/
def IsTooDeep (outcome : Except ReadError α) : Prop := ∃ e, outcome = .error e ∧ e.kind = .tooDeep

/-- What becomes of an outcome when the nesting is limited: a value stays if it nests less deep than
the limit, and is refused otherwise; an error stays unless too many levels are open before it. -/
structure Limited (b : Nat) (depth : α → Nat) (free limited : Except ReadError α) : Prop where
  shallow : ∀ a, free = .ok a → depth a < b → limited = .ok a
  deep : ∀ a, free = .ok a → b ≤ depth a → IsTooDeep limited
  failed : ∀ e, free = .error e → limited = .error e ∨ IsTooDeep limited

/-- Outcomes of parsers of which one has fewer levels, after looking at the results. -/
theorem Limits.limited {depth : α → Nat} {depth' : β → Nat} {p q : Reads α} {cs : List Char}
    (h : Limits b depth p q cs) (hlt : ∀ a k, p cs = .ok (a, k) → depth a < b)
    {f : α × List Char → β} (hf : ∀ x, depth' (f x) = depth x.1) :
    Limited b depth' ((run q cs).map f) ((run p cs).map f) := by
  obtain heq | ⟨hdeep, hle⟩ := h
  · have hsame : (run q cs).map f = (run p cs).map f := by
      unfold run
      rw [heq]
    refine ⟨fun c hc _ => hsame.symm.trans hc, fun c hc hcb => ?_, fun e he =>
      .inl (hsame.symm.trans he)⟩
    obtain ⟨a, k, hp, rfl⟩ := exists_of_run_map (hsame.symm.trans hc)
    rw [hf] at hcb
    exact absurd (hlt a k hp) (Nat.not_lt.2 hcb)
  · obtain ⟨e, he, hkind⟩ := run_of_tooDeep hdeep
    have htoo : IsTooDeep ((run p cs).map f) := by
      rw [he]
      exact ⟨e, rfl, hkind⟩
    refine ⟨fun c hc hcb => ?_, fun _ _ _ => htoo, fun _ _ => .inr htoo⟩
    obtain ⟨a, k, hq, rfl⟩ := exists_of_run_map hc
    rw [hf] at hcb
    exact absurd (hle a k hq) (Nat.not_le.2 hcb)

end

/-- The text of a value is read back where there are more levels than the value nests. -/
theorem readWithin_text (d : Dialect) {n : Nat} {v : Value} (hv : v.isReadable = true)
    (hn : v.nesting < n) : d.readWithin n v.text = .ok (v, "") := by
  obtain ⟨c, cs, htext, hc, -⟩ := exists_cons_layout (Layout.chars v) hv
  have hspace : v.text.toList.dropWhile isSpacing = v.chars := by
    rw [Value.text, String.toList_ofList, htext]
    exact List.dropWhile_cons_of_neg (by simp [hc])
  have hnode := node_of_layout d (Layout.chars v) hv hn (.nil v)
  rw [List.append_nil] at hnode
  exact readWithin_of_node d hspace hnode

/-- In every dialect and on every text, what is read nests less than `maxReadDepth` deep.  With more
levels nothing else would be read in its place: a text of which a deeper value would be read is
refused as nesting too deep, and so is one that is refused so with more levels. -/
theorem read_limited (d : Dialect) (text : String) :
    (∀ v rest, d.read text = .ok (v, rest) → v.nesting < maxReadDepth) ∧
    (∀ vs, d.readProgram text = .ok vs → ∀ v ∈ vs, v.nesting < maxReadDepth) ∧
    ∀ n, maxReadDepth ≤ n →
      Limited maxReadDepth (fun x => x.1.nesting) (d.readWithin n text) (d.read text) ∧
      Limited maxReadDepth Value.nestingOfItems (d.readProgramWithin n text)
        (d.readProgram text) := by
  refine ⟨fun v rest h => ?_, fun vs h v hv => ?_, fun n hn => ⟨?_, ?_⟩⟩
  · obtain ⟨k, hnode, -⟩ := exists_of_readWithin h
    exact nesting_lt_of_node d hnode
  · obtain ⟨vs', k, hprogram, rfl⟩ := exists_of_run_map h
    exact Nat.lt_of_le_of_lt (nesting_le_of_mem hv)
      (nestingOfItems_lt_of_programWithin d hprogram)
  · exact (limits_spacedWithin d hn text.toList).limited
      (fun v k => nesting_lt_of_spacedWithin d) fun _ => rfl
  · exact (limits_programWithin d hn text.toList).limited
      (fun vs k => nestingOfItems_lt_of_programWithin d) fun _ => rfl

/-- A list in lists in lists and so on. -/
def nestedList : Nat → Value
  | 0 => .list []
  | n + 1 => .list [nestedList n]

theorem nesting_nestedList (n : Nat) : (nestedList n).nesting = n + 1 := by
  induction n with
  | zero => rfl
  | succ n ih => simp [nestedList, Value.nesting, Value.nestingOfItems, ih]

theorem isReadable_nestedList (n : Nat) : (nestedList n).isReadable = true := by
  induction n with
  | zero => rfl
  | succ n ih => simpa [nestedList, Value.isReadable, Value.areReadable] using ih

/-- One list too many. -/
theorem read_limited_lists : IsTooDeep (basic.read (nestedList 63).text) := by
  have hfree : basic.readWithin 65 (nestedList 63).text = .ok (nestedList 63, "") :=
    readWithin_text basic (isReadable_nestedList 63) (by rw [nesting_nestedList]; decide)
  exact ((read_limited basic _).2.2 65 (by decide)).1.deep _ hfree
    (by rw [nesting_nestedList]; decide)

end HostLisp.Reader

namespace HostLisp

open Reader

/-! ### Annotations -/

mutual
/-- How many slices and maps are written one inside the other. -/
def Ty.nesting : Ty → Nat
  | ⟨kind, _⟩ => kind.nesting
/-- How many slices and maps are written one inside the other. -/
def Kind.nesting : Kind → Nat
  | .slice element => element.nesting + 1
  | .map key value => max key.nesting value.nesting + 1
  | _ => 0
end

namespace Ty

theorem isReadable_kind {ty : Ty} (h : ty.isPlain = true) : ty.kind.isReadable = true := by
  obtain ⟨kind, optional⟩ := ty
  rw [Ty.isPlain, Bool.and_eq_true] at h
  exact h.2

/-- Integers in slices in slices and so on. -/
def slices : Nat → Ty
  | 0 => { kind := .int }
  | n + 1 => .sliceOf (slices n)

theorem nesting_slices (n : Nat) : (slices n).nesting = n := by
  induction n with
  | zero => rfl
  | succ n ih => simp [slices, sliceOf, Ty.nesting, Kind.nesting, ih]

theorem isPlain_slices (n : Nat) : (slices n).isPlain = true := by
  induction n with
  | zero => rfl
  | succ n ih => simpa [slices, sliceOf, Ty.isPlain, Kind.isReadable] using ih

end Ty

/-- An annotation is read however deep it nests, in every dialect. -/
theorem Reader.read_slices (d : Dialect) (n : Nat) :
    d.read (Value.atom ⟨"x", .slices n⟩).text = .ok (.atom ⟨"x", .slices n⟩, "") := by
  have hname : isReadableName ['x'] = true := by decide
  have hkind := Ty.isReadable_kind (Ty.isPlain_slices n)
  have hany : Ty.slices n ≠ Ty.any := by
    cases n with
    | zero => decide
    | succ n => simp [Ty.slices, Ty.sliceOf, Ty.any]
  exact readWithin_text d (by simp [Value.isReadable, Atom.isReadable, hname, hkind, hany])
    (by simp [Value.nesting, maxReadDepth])

/-- A type that nests deeper than lists and quotes may. -/
theorem Reader.read_slices_beyond :
    maxReadDepth < (Ty.slices 65).nesting ∧
      basic.read (Value.atom ⟨"x", .slices 65⟩).text = .ok (.atom ⟨"x", .slices 65⟩, "") :=
  ⟨by rw [Ty.nesting_slices]; decide, read_slices basic 65⟩

end HostLisp
