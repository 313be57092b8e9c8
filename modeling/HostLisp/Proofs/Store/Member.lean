import HostLisp.Toolkit
import Mathlib

/-!
# Members by name

A toolkit is bound under its own name, and a member is asked for by the name of the toolkit, a point
and its own name.  Looking up such a name has to find out where the toolkit's name ends, and takes
the first point for it.  So the members of a toolkit are reached, whatever points their own names
have, if the name of the toolkit has no point (`lookup_member`).  Otherwise only its part in front
of the first point matters: the rest is looked up in the toolkit bound to that part, if there is one
(`lookup_dotted`), and registering the toolkit has no effect on its members' qualified names
(`lookup_registerToolkit_dotted`).
-/

namespace HostLisp

namespace Environment

variable {env : Environment} {name outer inner member : String} {kit : Toolkit}

/-! ### Names with points -/

/-- A name is parted at its first point. -/
theorem splitMember?_append (h : '.' ∉ outer.toList) (inner : String) :
    splitMember? (outer ++ "." ++ inner) = some (outer, inner) := by
  have hne : ∀ c ∈ outer.toList, decide (c ≠ '.') = true := by
    intro c hc
    exact decide_eq_true fun heq => h (heq ▸ hc)
  have hlist : (outer ++ "." ++ inner).toList = outer.toList ++ '.' :: inner.toList := by simp
  have hpoint : decide ('.' ≠ '.') = false := by decide
  unfold splitMember?
  rw [hlist, List.dropWhile_append_of_pos hne, List.takeWhile_append_of_pos hne,
    List.dropWhile_cons, List.takeWhile_cons, hpoint]
  simp

/-- A name with a point has a first one. -/
theorem exists_of_dotted (h : '.' ∈ name.toList) :
    ∃ outer inner, '.' ∉ outer.toList ∧ name = outer ++ "." ++ inner := by
  obtain ⟨front, back, hname, hfront⟩ := List.eq_append_cons_of_mem h
  refine ⟨String.ofList front, String.ofList back, by simpa using hfront, ?_⟩
  apply String.toList_injective
  simpa using hname

/-! ### Toolkits in scope -/

/-- The toolkit that a name is bound to, if it is bound to one in the innermost frame that binds
it. -/
def toolkit? (env : Environment) (name : String) : Option Toolkit :=
  match env.get? name with
  | some (.toolkit kit) => some kit
  | _ => none

theorem toolkit?_eq_some_iff :
    env.toolkit? name = some kit ↔ env.get? name = some (.toolkit kit) := by
  unfold toolkit?
  constructor
  · intro h
    split at h
    · next kit' hget => rw [hget, Option.some.inj h]
    · exact absurd h nofun
  · intro h
    rw [h]

/-- A name stands for nothing if no frame binds it. -/
theorem get?_eq_none_iff :
    env.get? name = none ↔ ∀ f ∈ env.frames, f.bindings.find? name = none := by
  rw [get?, List.findSome?_eq_none_iff]

/-- Looking a name up yields a toolkit just if the name is bound to it, since members are values. -/
theorem lookup_eq_toolkit_iff :
    env.lookup name = some (.toolkit kit) ↔ env.toolkit? name = some kit := by
  rw [toolkit?_eq_some_iff]
  constructor
  · intro h
    unfold lookup at h
    split at h
    · next b hget => rw [hget, h]
    · split at h
      · exact absurd h nofun
      · split at h
        · obtain ⟨v, -, hv⟩ := Option.map_eq_some_iff.1 h
          cases hv
        · exact absurd h nofun
  · intro h
    rw [lookup, h]

/-- From when it is registered until its name is bound again, a toolkit is what its name yields. -/
theorem toolkit?_registerToolkit (env : Environment) (kit : Toolkit) (name : String) :
    (env.registerToolkit kit).toolkit? name =
      if name = kit.name then some kit else env.toolkit? name := by
  unfold toolkit? registerToolkit
  rw [get?_define]
  by_cases h : name = kit.name
  · rw [if_pos h, if_pos h]
  · rw [if_neg h, if_neg h]

/-! ### Members -/

/-- A name that no frame binds is looked up in the toolkit bound to its part in front of the first
point. -/
theorem lookup_append (houter : '.' ∉ outer.toList)
    (hfree : env.get? (outer ++ "." ++ inner) = none) :
    env.lookup (outer ++ "." ++ inner) =
      (env.toolkit? outer).bind fun kit => (kit.get? inner).map .value := by
  unfold lookup toolkit?
  simp only [hfree, splitMember?_append houter inner]
  cases env.get? outer with
  | none => rfl
  | some b => cases b <;> rfl

/-- The members of a toolkit whose name has no point are reached, whatever points their own names
have. -/
theorem lookup_member (hname : '.' ∉ kit.name.toList) (hkit : env.toolkit? kit.name = some kit)
    (hfree : env.get? (kit.qualified member) = none) :
    env.lookup (kit.qualified member) = (kit.get? member).map .value := by
  rw [Toolkit.qualified] at hfree ⊢
  rw [lookup_append hname hfree, hkit, Option.bind_some]

/-- Where the name of a toolkit has a point, the member is looked up in another toolkit, under a
longer name. -/
theorem lookup_dotted (houter : '.' ∉ outer.toList) (hname : kit.name = outer ++ "." ++ inner)
    (hfree : env.get? (kit.qualified member) = none) :
    env.lookup (kit.qualified member) =
      (env.toolkit? outer).bind fun k => (k.get? (inner ++ "." ++ member)).map .value := by
  have hqualified : kit.qualified member = outer ++ "." ++ (inner ++ "." ++ member) := by
    simp only [Toolkit.qualified, hname, String.append_assoc]
  rw [hqualified] at hfree ⊢
  exact lookup_append houter hfree

/-! ### Registration -/

theorem qualified_ne_name (kit : Toolkit) (member : String) : kit.qualified member ≠ kit.name := by
  intro heq
  have hlength := congrArg String.length heq
  have hpoint : ".".length = 1 := rfl
  simp only [Toolkit.qualified, String.length_append] at hlength
  omega

/-- Registering a toolkit leaves the qualified names of its members as they are bound. -/
theorem get?_registerToolkit_qualified (env : Environment) (kit : Toolkit) (member : String) :
    (env.registerToolkit kit).get? (kit.qualified member) = env.get? (kit.qualified member) := by
  rw [registerToolkit, get?_define, if_neg (qualified_ne_name kit member)]

/-- A toolkit whose name has no point gives access to all its members as soon as it is registered,
but to those whose qualified names are bound otherwise. -/
theorem lookup_registerToolkit (hname : '.' ∉ kit.name.toList)
    (hfree : env.get? (kit.qualified member) = none) :
    (env.registerToolkit kit).lookup (kit.qualified member) = (kit.get? member).map .value := by
  apply lookup_member hname
  · rw [toolkit?_registerToolkit, if_pos rfl]
  · rw [get?_registerToolkit_qualified, hfree]

/-- A toolkit whose name has a point gives access to none of its members: registering it makes no
difference to what their qualified names yield. -/
theorem lookup_registerToolkit_dotted (hname : '.' ∈ kit.name.toList) (env : Environment)
    (member : String) :
    (env.registerToolkit kit).lookup (kit.qualified member) =
      env.lookup (kit.qualified member) := by
  obtain ⟨outer, inner, houter, heq⟩ := exists_of_dotted hname
  -- The lookup goes by the toolkit bound to the part in front, and that is another name.
  have hne : outer ≠ kit.name := by
    rintro rfl
    exact houter hname
  have hget := get?_registerToolkit_qualified env kit member
  cases hfree : env.get? (kit.qualified member) with
  | some b =>
    rw [hfree] at hget
    rw [lookup, lookup, hget, hfree]
  | none =>
    rw [hfree] at hget
    rw [lookup_dotted houter heq hget, lookup_dotted houter heq hfree, toolkit?_registerToolkit,
      if_neg hne]

/-- What the qualified name of a member yields, while the name of its toolkit yields the toolkit and
no frame binds the qualified name: the member, if the toolkit's name has no point, and otherwise
what the toolkit bound to the part in front of the first point has under the rest. -/
theorem lookup_qualified (hkit : env.lookup kit.name = some (.toolkit kit))
    (hfree : ∀ f ∈ env.frames, f.bindings.find? (kit.qualified member) = none) :
    ('.' ∉ kit.name.toList →
        env.lookup (kit.qualified member) = (kit.get? member).map .value) ∧
      ∀ outer inner, '.' ∉ outer.toList → kit.name = outer ++ "." ++ inner →
        env.lookup (kit.qualified member) =
          (env.toolkit? outer).bind fun k => (k.get? (inner ++ "." ++ member)).map .value := by
  have hget : env.get? (kit.qualified member) = none := get?_eq_none_iff.2 hfree
  constructor
  · intro hname
    exact lookup_member hname (lookup_eq_toolkit_iff.1 hkit) hget
  · intro outer inner houter hname
    exact lookup_dotted houter hname hget

/-- Two toolkits that share the qualified name of a member: both ways it is that of the first. -/
theorem lookup_qualified_shared :
    let first := (Toolkit.named "a").withValue "b.c" (.int 1)
    let second := (Toolkit.named "a.b").withValue "c" (.int 2)
    let env := ((empty.registerToolkit first).registerToolkit second).pushFrame
    first.qualified "b.c" = "a.b.c" ∧ second.qualified "c" = "a.b.c" ∧
      env.lookup (first.qualified "b.c") = some (.value (.int 1)) ∧
      env.lookup (second.qualified "c") = some (.value (.int 1)) := by
  intro first second env
  have hfirst : env.lookup first.name = some (.toolkit first) := by cbv
  have hsecond : env.lookup second.name = some (.toolkit second) := by cbv
  have hfree : env.get? (first.qualified "b.c") = none := by cbv
  have hfree' : env.get? (second.qualified "c") = none := by cbv
  refine ⟨rfl, rfl, ?_, ?_⟩
  · rw [(lookup_qualified hfirst (get?_eq_none_iff.1 hfree)).1 (by decide)]
    cbv
  · rw [(lookup_qualified hsecond (get?_eq_none_iff.1 hfree')).2 "a" "b" (by decide) rfl]
    cbv

/-- A toolkit whose name has a point, and a member that can be written and is not reached. -/
theorem lookup_qualified_unreached :
    let kit := (Toolkit.named "a.b").withValue "c" (.int 1)
    let env := empty.registerToolkit kit
    env.dialect.read (kit.qualified "c") = .ok (.ofName "a.b.c", "") ∧
      env.lookup kit.name = some (.toolkit kit) ∧
      (∀ f ∈ env.frames, f.bindings.find? (kit.qualified "c") = none) ∧
      kit.get? "c" = some (.int 1) ∧ env.lookup (kit.qualified "c") = none := by
  intro kit env
  have hfree : env.get? (kit.qualified "c") = none := by cbv
  refine ⟨?_, ?_, get?_eq_none_iff.1 hfree, ?_, ?_⟩
  · cbv
  · cbv
  · cbv
  · cbv

end Environment

end HostLisp
