import HostLisp.Proofs.Store.Command
import HostLisp.Proofs.Store.Ownership

/-!
# What names reach

Whatever a host does with an environment that it has got empty or with the built-in operations, and
whatever the body of a closure does in its activation, a name that stands for a variable reaches a
live cell, and no other name of any frame reaches the same.
-/

namespace HostLisp

namespace Frame

variable {limit : Nat}

theorem AllOwn.firstCell_le {fs : List Frame} (h : AllOwn limit fs) :
    ∀ f ∈ fs, f.firstCell ≤ limit := by
  induction fs generalizing limit with
  | nil => exact nofun
  | cons f fs ih =>
    intro g hg
    rcases List.mem_cons.1 hg with rfl | hg
    · exact h.1.mark
    · exact (ih h.2 g hg).trans h.1.mark

/-- From the innermost frame outwards marks do not increase. -/
theorem AllOwn.pairwise_marks {fs : List Frame} (h : AllOwn limit fs) :
    (fs.map firstCell).Pairwise (· ≥ ·) := by
  induction fs generalizing limit with
  | nil => exact .nil
  | cons f fs ih =>
    rw [List.map_cons, List.pairwise_cons]
    refine ⟨fun mark hmark => ?_, ih h.2⟩
    obtain ⟨g, hg, rfl⟩ := List.mem_map.1 hmark
    exact h.2.firstCell_le g hg

/-- The mark of the outermost frame is zero. -/
theorem AllOwn.outermost_mark {fs : List Frame} (h : AllOwn limit fs) (hne : fs ≠ []) :
    (fs.getLast hne).firstCell = 0 := by
  induction fs generalizing limit with
  | nil => exact absurd rfl hne
  | cons f fs ih =>
    cases fs with
    | nil => exact h.2
    | cons g gs =>
      rw [List.getLast_cons (List.cons_ne_nil g gs)]
      exact ih h.2 (List.cons_ne_nil g gs)

end Frame

namespace Environment

variable {env env' : Environment}

/-- A name that stands for a variable evaluates to its contents. -/
theorem Owned.evalName (h : env.Owned) {name : String} {handle : Handle}
    (hlookup : env.lookup name = some (.var handle)) :
    ∃ v, env.var? handle = some v ∧
      ∀ host level (m : Machine), m.env = env → evalName host level name m = (.ok v, m) := by
  obtain ⟨k, hb⟩ := exists_bindsVarAt hlookup
  obtain ⟨v, hv⟩ := h.exists_var? hb
  refine ⟨v, hv, fun host level m hm => ?_⟩
  subst hm
  have hname : Run.lookup name m = (.ok (some (.var handle)), m) := by
    rw [Run.lookup, hlookup]
  have henv : Run.environment m = (.ok m.env, m) := rfl
  unfold HostLisp.evalName
  rw [Run.bind_of_ok hname]
  show (Run.environment >>= _) m = _
  rw [Run.bind_of_ok henv, hv]
  rfl

/-- Assigning to a variable changes what one name of one frame reaches. -/
theorem Owned.setVar_eq (h : env.Owned) {name : String} {handle : Handle} {v : Value}
    (hlookup : env.lookup name = some (.var handle)) (hs : env.setVar handle v = .ok env') :
    env'.frames = env.frames ∧ ∃ k, env.BindsVarAt k name handle ∧
      ∀ k' name' handle', env.BindsVarAt k' name' handle' →
        env'.var? handle' = if k' = k ∧ name' = name then some v else env.var? handle' := by
  obtain ⟨k, hb⟩ := exists_bindsVarAt hlookup
  refine ⟨frames_setVar hs, k, hb, fun k' name' handle' hb' => ?_⟩
  rw [var?_setVar hs]
  -- The cell is the one assigned to just if the name and the frame are, since none is shared.
  by_cases heq : handle' = handle
  · subst heq
    rw [if_pos rfl, if_pos (h.eq_of_bindsVarAt hb' hb)]
  · have hne : ¬ (k' = k ∧ name' = name) := by
      intro hsame
      obtain ⟨rfl, rfl⟩ := hsame
      obtain ⟨f, hf, hb⟩ := hb
      obtain ⟨f', hf', hb'⟩ := hb'
      cases hf.symm.trans hf'
      cases hb.symm.trans hb'
      exact heq rfl
    rw [if_neg heq, if_neg hne]

/-! ### Activations -/

/-- Nothing that a closure takes along is a variable. -/
theorem ne_var_of_mem_captureAll {names : List String} {captured : Names Binding}
    (h : env.captureAll names = .ok captured) :
    ∀ x ∈ captured, ∀ handle, x.2 ≠ .var handle := by
  intro x hx handle heq
  have hcapture := capture?_of_mem_captureAll h x hx
  rw [heq] at hcapture
  unfold capture? at hcapture
  split at hcapture
  · obtain ⟨v, -, hv⟩ := Option.map_eq_some_iff.1 hcapture
    cases hv
  · next hnot => exact hnot handle hcapture

/-- The activation of a closure starts with what the closure has taken along, where each parameter
has a cell of its own. -/
theorem owned_activation {s : Signature} {body actuals : List Value} {closure : Lambda}
    {bound : List (String × Handle)} (hbuild : Lambda.build env s body = .ok closure)
    (hbind : s.bind (ofCaptured closure.captured).pushFrame actuals = .ok (bound, env')) :
    env'.Owned := by
  obtain ⟨captured, hc, rfl⟩ := Lambda.exists_of_build hbuild
  -- Without variables the outermost frame needs no cells, and those of the parameters are new.
  have hvar : ∀ name handle, Names.find? captured name ≠ some (.var handle) := by
    intro name handle hfind
    exact ne_var_of_mem_captureAll hc _ (Names.mem_of_find? hfind) handle rfl
  have hframe : Frame.Owns { bindings := captured } 0 :=
    ⟨Nat.le_refl 0, fun name handle h => absurd h (hvar name handle),
      fun name name' handle h => absurd h (hvar name handle)⟩
  have hstart : (ofCaptured captured).pushFrame.Owned := Owned.pushFrame ⟨hframe, rfl⟩
  have hcourse : Course (ofCaptured captured).pushFrame env' :=
    Signature.next_bind (D := .steps) hbind
  exact hcourse.induct Step.owned hstart

/-- Where evaluation begins: in an environment that a host has got, and in the activation of a
closure. -/
inductive Initial : Environment → Prop where
  | empty : Initial .empty
  | global : Initial .global
  | activation {env env' : Environment} {s : Signature} {body actuals : List Value}
      {closure : Lambda} {bound : List (String × Handle)}
      (hbuild : Lambda.build env s body = .ok closure)
      (hbind : s.bind (ofCaptured closure.captured).pushFrame actuals = .ok (bound, env')) :
      Initial env'

theorem Initial.owned (h : env.Initial) : env.Owned := by
  cases h with
  | empty => exact owned_empty
  | global => exact owned_global
  | activation hbuild hbind => exact owned_activation hbuild hbind

end Environment

/-! ### From the beginning -/

/-- Whatever is done from the beginning, each variable of each frame has a live cell of its own in
the range of the frame, at each step.  So a name never reaches a cell that has been released, and
assigning changes what exactly one name of one frame reaches. -/
theorem Command.runAll_owned {host : Host} (hhost : host.Obeys .steps) {m : Machine}
    (hstart : m.env.Initial) (cs : List Command) :
    let env := (runAll (eval host) cs m).env
    Relation.ReflTransGen (fun env env' => env.Step env' ∧ env'.Owned) m.env env ∧
      ((env.frames.map Frame.firstCell).Pairwise (· ≥ ·) ∧
        (env.frames.getLast (List.cons_ne_nil _ _)).firstCell = 0 ∧
        ∀ f ∈ env.frames, f.firstCell ≤ env.cells.length) ∧
      (∀ k f name handle, env.frames[k]? = some f →
        f.bindings.find? name = some (.var handle) →
        f.firstCell ≤ handle.index ∧ handle.index < env.cellsEnd k) ∧
      (∀ k name k' name' handle, env.BindsVarAt k name handle → env.BindsVarAt k' name' handle →
        k = k' ∧ name = name') ∧
      (∀ name handle, env.lookup name = some (.var handle) →
        ∃ v, env.var? handle = some v ∧
          ∀ host level (m : Machine), m.env = env → evalName host level name m = (.ok v, m)) ∧
      ∀ name handle v env', env.lookup name = some (.var handle) → env.setVar handle v = .ok env' →
        env'.frames = env.frames ∧ ∃ k, env.BindsVarAt k name handle ∧
          ∀ k' name' handle', env.BindsVarAt k' name' handle' →
            env'.var? handle' = if k' = k ∧ name' = name then some v else env.var? handle' := by
  intro env
  have hcourse : Environment.Course m.env env :=
    (tracks_runAll (fun n => tracks_eval hhost (eval host 0) n) cs trivial).2
  have hm : m.env.Owned := hstart.owned
  have howned : env.Owned := hcourse.induct Environment.Step.owned hm
  refine ⟨?_, ⟨?_, ?_, ?_⟩, ?_, ?_, ?_, ?_⟩
  · exact hcourse.all_along Environment.Step.owned hm
  · exact Frame.AllOwn.pairwise_marks howned
  · exact Frame.AllOwn.outermost_mark howned (List.cons_ne_nil _ _)
  · exact Frame.AllOwn.firstCell_le howned
  · intro k f name handle hf hb
    exact (Frame.AllOwn.owns howned hf).range name handle hb
  · intro k name k' name' handle hb hb'
    exact howned.eq_of_bindsVarAt hb hb'
  · intro name handle hlookup
    exact howned.evalName hlookup
  · intro name handle v env' hlookup hs
    exact howned.setVar_eq hlookup hs

/-- A variable of an inner scope goes with it, and the name reaches the outer one again. -/
theorem Command.runAll_owned_shadowed :
    ∃ v, (runAll (eval Host.Sample.host)
      [.defineVar "x" .any (.int 1), .pushFrame, .defineVar "x" .any (.int 2), .popFrame]
      (.bare default)).env.var? ⟨0⟩ = some v := by
  have hstart : (Machine.bare default).env.Initial := .empty
  have howned := runAll_owned (Host.Sample.obeys .steps) hstart
    [.defineVar "x" .any (.int 1), .pushFrame, .defineVar "x" .any (.int 2), .popFrame]
  obtain ⟨v, hv, -⟩ := howned.2.2.2.2.1 "x" ⟨0⟩ rfl
  exact ⟨v, hv⟩

end HostLisp
