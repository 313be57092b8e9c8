import HostLisp.Proofs.Capture.Walk
import HostLisp.Proofs.Store.Member
import HostLisp.Proofs.Store.Reach

/-!
# All bindings in a list

The bindings of all frames can be had in a list.  It is made from the outermost frame inwards, each
frame replacing what the outer ones have put under the same names, and sorted in the end; looking a
name up goes from the innermost frame outwards and stops at the first one that binds it.  If no
frame binds a name twice, both come to the same:

    mem_allBindings_iff : (name, b) ∈ env.allBindings ↔ env.get? name = some b.

No operation makes a frame bind a name twice (`Step.bindsOnce`, `Reachable.bindsOnce`), so the list
has all that looking names up can yield: a name that is not in it stands for a member of a toolkit
that is, or for nothing.
-/

namespace HostLisp

/-! ### Names that occur once -/

namespace Names

variable {α : Type} {ns ms : Names α} {name : String} {a : α}

/-- No name occurs twice. -/
def Once (ns : Names α) : Prop := (ns.map Prod.fst).Nodup

theorem once_nil : Once ([] : Names α) := List.nodup_nil

theorem Once.insert (h : Once ns) (name : String) (a : α) : Once (Names.insert ns name a) := by
  unfold Once Names.insert
  rw [List.map_cons, List.nodup_cons]
  refine ⟨fun hmem => ?_, List.Nodup.sublist (List.filter_sublist.map Prod.fst) h⟩
  obtain ⟨e, he, hname⟩ := List.mem_map.1 hmem
  have hne := (List.mem_filter.1 he).2
  simp [hname] at hne

/-- What a name stands for is what it is paired with. -/
theorem Once.mem_iff (h : Once ns) : (name, a) ∈ ns ↔ find? ns name = some a := by
  refine ⟨fun hmem => ?_, mem_of_find?⟩
  induction ns with
  | nil => cases hmem
  | cons e ns ih =>
    obtain ⟨k, b⟩ := e
    unfold Once at h
    rw [List.map_cons, List.nodup_cons] at h
    unfold find? at ih ⊢
    rcases List.mem_cons.1 hmem with heq | htail
    · cases heq
      exact List.lookup_cons_self
    · have hne : name ≠ k := by
        rintro rfl
        exact h.1 (List.mem_map.2 ⟨_, htail, rfl⟩)
      rw [List.lookup_cons, beq_eq_false_iff_ne.2 hne]
      exact ih h.2 htail

theorem find?_eq_none_iff : find? ns name = none ↔ name ∉ ns.map Prod.fst := by
  unfold find?
  rw [List.lookup_eq_none_iff]
  constructor
  · intro h hmem
    obtain ⟨e, he, rfl⟩ := List.mem_map.1 hmem
    exact bne_iff_ne.1 (h e he) rfl
  · intro h e he
    refine bne_iff_ne.2 ?_
    rintro rfl
    exact h (List.mem_map_of_mem he)

/-- Lets every name of `ms` stand for what it does there, whatever it stood for before. -/
def insertAll (ns ms : Names α) : Names α := ms.foldl (fun ns e => Names.insert ns e.1 e.2) ns

theorem Once.insertAll (h : Once ns) (ms : Names α) : Once (Names.insertAll ns ms) :=
  List.foldlRecOn ms _ h fun _ hns e _ => hns.insert e.1 e.2

theorem find?_insertAll (hms : Once ms) :
    find? (insertAll ns ms) name = (find? ms name).or (find? ns name) := by
  induction ms generalizing ns with
  | nil => rfl
  | cons e ms ih =>
    obtain ⟨k, a⟩ := e
    unfold Once at hms
    rw [List.map_cons, List.nodup_cons] at hms
    have htail : find? (insertAll ns ((k, a) :: ms)) name =
        (find? ms name).or (find? (Names.insert ns k a) name) := ih hms.2
    rw [htail, find?_insert]
    unfold find?
    by_cases hk : name = k
    · -- The name does not come again, so it is not replaced any more.
      subst hk
      have hnone : List.lookup name ms = none := find?_eq_none_iff.2 hms.1
      rw [hnone, List.lookup_cons_self, if_pos rfl]
      rfl
    · rw [List.lookup_cons, beq_eq_false_iff_ne.2 hk, if_neg hk]

theorem mem_sorted {e : String × α} : e ∈ sorted ns ↔ e ∈ ns := List.mem_mergeSort

/-- Names that occur once are in strictly increasing order when they are sorted. -/
theorem Once.pairwise_sorted (h : Once ns) : ((sorted ns).map Prod.fst).Pairwise (· < ·) := by
  have hperm : (sorted ns).Perm ns := List.mergeSort_perm ns _
  have hle : (sorted ns).Pairwise fun a b => decide (a.1 ≤ b.1) = true := by
    refine List.pairwise_mergeSort (fun a b c hab hbc => ?_) (fun a b => ?_) ns
    · exact decide_eq_true (le_trans (of_decide_eq_true hab) (of_decide_eq_true hbc))
    · rw [Bool.or_eq_true, decide_eq_true_iff, decide_eq_true_iff]
      exact le_total a.1 b.1
  -- Sorting only rearranges, so the names are still different from each other.
  have hne : (sorted ns).Pairwise fun a b => a.1 ≠ b.1 :=
    List.pairwise_map.1 ((hperm.map Prod.fst).nodup_iff.2 h)
  rw [List.pairwise_map]
  exact hle.imp₂ (fun a b hle hne => lt_of_le_of_ne (of_decide_eq_true hle) hne) hne

end Names

/-! ### The list of all bindings -/

namespace Environment

variable {env env' : Environment} {name : String} {b : Binding}

/-- The bindings of some frames, the first one innermost. -/
def overlay (fs : List Frame) : Names Binding :=
  fs.foldr (fun f ns => Names.insertAll ns f.bindings) []

theorem allBindings_eq (env : Environment) : env.allBindings = Names.sorted (overlay env.frames) :=
  rfl

theorem once_overlay (fs : List Frame) : Names.Once (overlay fs) := by
  induction fs with
  | nil => exact Names.once_nil
  | cons f fs ih => exact ih.insertAll f.bindings

/-- The innermost frame that binds a name is the last one to put something under it. -/
theorem find?_overlay {fs : List Frame} (h : ∀ f ∈ fs, Names.Once f.bindings) :
    (overlay fs).find? name = fs.findSome? fun f => f.bindings.find? name := by
  induction fs with
  | nil => rfl
  | cons f fs ih =>
    obtain ⟨hf, hfs⟩ := List.forall_mem_cons.1 h
    have hcons : (overlay (f :: fs)).find? name =
        (f.bindings.find? name).or ((overlay fs).find? name) := Names.find?_insertAll hf
    rw [hcons, ih hfs, List.findSome?_cons]
    cases f.bindings.find? name with
    | none => rfl
    | some b => rfl

/-- The names of all bindings are in strictly increasing order. -/
theorem pairwise_allBindings (env : Environment) :
    (env.allBindings.map Prod.fst).Pairwise (· < ·) :=
  (once_overlay env.frames).pairwise_sorted

/-- No frame binds a name twice. -/
def BindsOnce (env : Environment) : Prop := ∀ f ∈ env.frames, Names.Once f.bindings

/-- The list has for a name what the innermost frame that binds it has. -/
theorem mem_allBindings_iff (h : env.BindsOnce) :
    (name, b) ∈ env.allBindings ↔ env.get? name = some b := by
  rw [allBindings_eq, Names.mem_sorted, (once_overlay env.frames).mem_iff, find?_overlay h]
  rfl

/-- What is not in the list has no frame that binds it. -/
theorem not_mem_names_allBindings_iff (h : env.BindsOnce) :
    name ∉ env.allBindings.map Prod.fst ↔ env.get? name = none := by
  constructor
  · intro hunlisted
    cases hget : env.get? name with
    | none => rfl
    | some b => exact absurd (List.mem_map_of_mem ((mem_allBindings_iff h).2 hget)) hunlisted
  · intro hfree hmem
    obtain ⟨⟨name, b⟩, hb, rfl⟩ := List.mem_map.1 hmem
    rw [mem_allBindings_iff h, hfree] at hb
    cases hb

/-! ### Names that some frame binds -/

theorem get?_ne_none_iff :
    env.get? name ≠ none ↔ ∃ f ∈ env.frames, name ∈ f.bindings.map Prod.fst := by
  rw [Ne, get?_eq_none_iff]
  simp only [Names.find?_eq_none_iff, not_forall, not_not, exists_prop]

/-- A name that some frame binds is looked up in the frames alone. -/
theorem get?_eq_some_iff :
    env.get? name = some b ↔
      (∃ f ∈ env.frames, name ∈ f.bindings.map Prod.fst) ∧ env.lookup name = some b := by
  rw [← get?_ne_none_iff]
  unfold lookup
  cases env.get? name with
  | none => simp
  | some b' => simp

/-! ### Names that no frame binds -/

/-- A name without a point has no parts. -/
theorem splitMember?_eq_none (h : '.' ∉ name.toList) : splitMember? name = none := by
  have hall : name.toList.dropWhile (fun c => decide (c ≠ '.')) = [] := by
    rw [List.dropWhile_eq_nil_iff]
    intro c hc
    exact decide_eq_true fun heq => h (heq ▸ hc)
  unfold splitMember?
  rw [hall]

/-- A name that no frame binds stands for a member of the toolkit bound to its part in front of the
first point, or for nothing. -/
theorem lookup_eq_some_iff_of_unbound (hfree : env.get? name = none) :
    env.lookup name = some b ↔ ∃ outer inner kit v, '.' ∉ outer.toList ∧
      name = outer ++ "." ++ inner ∧ env.toolkit? outer = some kit ∧ kit.get? inner = some v ∧
        b = .value v := by
  constructor
  · intro h
    have hpoint : '.' ∈ name.toList := by
      by_contra hpoint
      rw [lookup, hfree, splitMember?_eq_none hpoint] at h
      cases h
    obtain ⟨outer, inner, houter, rfl⟩ := exists_of_dotted hpoint
    rw [lookup_append houter hfree] at h
    obtain ⟨kit, hkit, hmember⟩ := Option.bind_eq_some_iff.1 h
    obtain ⟨v, hv, rfl⟩ := Option.map_eq_some_iff.1 hmember
    exact ⟨outer, inner, kit, v, houter, rfl, hkit, hv, rfl⟩
  · rintro ⟨outer, inner, kit, v, houter, rfl, hkit, hv, rfl⟩
    rw [lookup_append houter hfree, hkit, Option.bind_some, hv]
    rfl

/-! ### One operation after the other -/

theorem BindsOnce.define (h : env.BindsOnce) (name : String) (b : Binding) :
    (env.define name b).BindsOnce := by
  obtain ⟨hinnermost, henclosing⟩ := List.forall_mem_cons.1 h
  exact List.forall_mem_cons.2 ⟨hinnermost.insert name b, henclosing⟩

theorem BindsOnce.pushFrame (h : env.BindsOnce) : env.pushFrame.BindsOnce :=
  List.forall_mem_cons.2 ⟨Names.once_nil, h⟩

theorem BindsOnce.popFrame (h : env.BindsOnce) : env.popFrame.BindsOnce := by
  unfold Environment.popFrame
  split
  · exact h
  · next f fs henclosing =>
    intro g hg
    refine h g (List.mem_cons_of_mem _ ?_)
    rw [henclosing]
    exact hg

theorem BindsOnce.of_frames_eq (h : env.BindsOnce) (hframes : env'.frames = env.frames) :
    env'.BindsOnce := by
  unfold BindsOnce
  rw [hframes]
  exact h

theorem BindsOnce.newVar {name : String} {ty : Ty} {v : Value} {handle : Handle}
    (h : env.BindsOnce) (hnew : env.newVar name ty v = .ok (handle, env')) : env'.BindsOnce := by
  obtain ⟨-, -, rfl⟩ := newVar_eq_ok_iff.1 hnew
  exact h.of_frames_eq rfl

theorem Step.bindsOnce (hstep : Step env env') (h : env.BindsOnce) : env'.BindsOnce := by
  cases hstep with
  | define name hb => exact h.define name _
  | newVar hnew => exact h.newVar hnew
  | defineVar hdefine =>
    obtain ⟨env₁, hnew, rfl⟩ := exists_newVar_of_defineVar hdefine
    exact (h.newVar hnew).define _ _
  | setVar hset =>
    obtain ⟨cell, -, rfl⟩ := exists_of_setVar hset
    exact h.of_frames_eq rfl
  | pushFrame => exact h.pushFrame
  | popFrame => exact h.popFrame

/-! ### From the beginning -/

theorem bindsOnce_empty : empty.BindsOnce := by
  intro f hf
  rw [List.mem_singleton.1 hf]
  exact Names.once_nil

theorem bindsOnce_global : global.BindsOnce := by
  have hbuiltins : withBuiltins.BindsOnce :=
    withBuiltins_induction bindsOnce_empty fun env henv op _ name _ => henv.define name _
  exact hbuiltins.define _ _

/-- A closure takes each of its free names along once. -/
theorem once_captured {s : Signature} {body : List Value} {closure : Lambda}
    (hbuild : Lambda.build env s body = .ok closure) : Names.Once closure.captured := by
  obtain ⟨captured, hcaptured, rfl⟩ := Lambda.exists_of_build hbuild
  show (captured.map Prod.fst).Nodup
  rw [(names_of_captureAll hcaptured).1]
  exact nodup_eraseDups _

theorem Initial.bindsOnce (h : env.Initial) : env.BindsOnce := by
  cases h with
  | empty => exact bindsOnce_empty
  | global => exact bindsOnce_global
  | activation hbuild hbind =>
    have hcaptured : (ofCaptured _).BindsOnce :=
      fun f hf => List.mem_singleton.1 hf ▸ once_captured hbuild
    -- The parameters become variables of the inner frame by single operations.
    have hcourse : Course (ofCaptured _).pushFrame env := Signature.next_bind (D := .steps) hbind
    exact hcourse.induct Step.bindsOnce hcaptured.pushFrame

/-- Environments that come about from the beginning by any operations, in any order: scopes are
entered and left, names are bound to whatever there is, also to variables that have names already,
and variables are made and assigned. -/
inductive Reachable : Environment → Prop where
  | initial {env : Environment} (h : env.Initial) : Reachable env
  | define {env : Environment} (h : Reachable env) (name : String) (b : Binding) :
      Reachable (env.define name b)
  | step {env env' : Environment} (h : Reachable env) (hstep : Step env env') : Reachable env'

theorem Reachable.bindsOnce (h : env.Reachable) : env.BindsOnce := by
  induction h with
  | initial h => exact h.bindsOnce
  | define h name b ih => exact ih.define name b
  | step h hstep ih => exact hstep.bindsOnce ih

/-- Whatever a host does from the beginning, evaluation included, such an environment comes about. -/
theorem reachable_runAll {host : Host} (hhost : host.Obeys .steps) {m : Machine}
    (hstart : m.env.Initial) (cs : List Command) :
    (Command.runAll (eval host) cs m).env.Reachable := by
  have hcourse : Course m.env (Command.runAll (eval host) cs m).env :=
    (Command.tracks_runAll (fun n => tracks_eval hhost (eval host 0) n) cs trivial).2
  exact hcourse.induct (fun hstep h => .step h hstep) (.initial hstart)

/-- The list of all bindings and looking names up agree in every environment that comes about.  The
list has each name once, in strictly increasing order; it pairs a name with a binding just if some
frame binds the name and looking it up yields that binding; and a name it does not have stands for
exactly what a toolkit that it does have, bound to the part in front of the first point, has under
the rest. -/
theorem allBindings_agree (h : env.Reachable) :
    (env.allBindings.map Prod.fst).Pairwise (· < ·) ∧
      (∀ name b, (name, b) ∈ env.allBindings ↔
        (∃ f ∈ env.frames, name ∈ f.bindings.map Prod.fst) ∧ env.lookup name = some b) ∧
      ∀ name b, name ∉ env.allBindings.map Prod.fst →
        (env.lookup name = some b ↔ ∃ outer inner kit v, '.' ∉ outer.toList ∧
          name = outer ++ "." ++ inner ∧ (outer, .toolkit kit) ∈ env.allBindings ∧
            kit.get? inner = some v ∧ b = .value v) := by
  have honce := h.bindsOnce
  refine ⟨pairwise_allBindings env, fun name b => ?_, fun name b hunlisted => ?_⟩
  · rw [mem_allBindings_iff honce]
    exact get?_eq_some_iff
  · have hfree : env.get? name = none := (not_mem_names_allBindings_iff honce).1 hunlisted
    simp only [lookup_eq_some_iff_of_unbound hfree, toolkit?_eq_some_iff, mem_allBindings_iff honce]

/-- A binding that an inner one hides, one that has gone with its scope, and a member. -/
theorem allBindings_agree_shadowed :
    let kit := (Toolkit.named "t").withValue "m.n" (.int 1)
    let env := ((((empty.registerToolkit kit).defineValue "b" (.int 2)).pushFrame.defineValue "b"
      (.int 3)).pushFrame.defineValue "c" (.int 4)).popFrame.define "a" (.var ⟨0⟩)
    env.Reachable ∧ (env.allBindings.map Prod.fst).Pairwise (· < ·) ∧
      ("b", .value (.int 3)) ∈ env.allBindings ∧ ("b", .value (.int 2)) ∉ env.allBindings ∧
      "c" ∉ env.allBindings.map Prod.fst ∧ "t.m.n" ∉ env.allBindings.map Prod.fst ∧
      ∃ outer inner kit v, '.' ∉ outer.toList ∧ "t.m.n" = outer ++ "." ++ inner ∧
        (outer, .toolkit kit) ∈ env.allBindings ∧ kit.get? inner = some v ∧
          Binding.value (.int 1) = .value v := by
  intro kit env
  have hkit : (empty.registerToolkit kit).Reachable := .define (.initial .empty) _ _
  have hscope := (hkit.define "b" (.value (.int 2))).step (.pushFrame _)
  have hinside := (hscope.define "b" (.value (.int 3))).step (.pushFrame _)
  have hback := (hinside.define "c" (.value (.int 4))).step (.popFrame _)
  have hreachable : env.Reachable := hback.define "a" (.var ⟨0⟩)
  obtain ⟨hsorted, hlisted, hunlisted⟩ := allBindings_agree hreachable
  have hunbound : ∀ name ∈ ["c", "t.m.n"], ∀ f ∈ env.frames, name ∉ f.bindings.map Prod.fst := by
    decide
  have hmissing : ∀ name ∈ ["c", "t.m.n"], name ∉ env.allBindings.map Prod.fst := by
    intro name hname hmem
    obtain ⟨⟨name, b⟩, hb, rfl⟩ := List.mem_map.1 hmem
    obtain ⟨⟨f, hf, hbound⟩, -⟩ := (hlisted name b).1 hb
    exact hunbound name hname f hf hbound
  have hinner : env.lookup "b" = some (.value (.int 3)) := by cbv
  refine ⟨hreachable, hsorted, ?_, ?_, hmissing _ (by decide), hmissing _ (by decide), ?_⟩
  · exact (hlisted "b" _).2 ⟨⟨env.innermost, List.mem_cons_self, by decide⟩, hinner⟩
  · intro hmem
    have houter := ((hlisted "b" _).1 hmem).2
    rw [hinner] at houter
    cases houter
  · have hmember : env.lookup "t.m.n" = some (.value (.int 1)) := by cbv
    exact (hunlisted "t.m.n" _ (hmissing _ (by decide))).1 hmember

end Environment

end HostLisp
