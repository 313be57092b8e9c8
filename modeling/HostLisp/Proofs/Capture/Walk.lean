import HostLisp.Global
import HostLisp.Proofs.Capture.Free
import HostLisp.Proofs.Evaluation.Activation

/-!
# What a closure captures

The free names of a body are found by a look at the body alone, and captured then.  One walk through
the body that looks names up as it meets them, and passes over those that it has captured, does the
same (`walkBody_eq`).  So a closure can be made wherever its free names stand for something; it takes
along these names and no others; and where the forms of the body are well formed, they are the names
that occur in it where nothing binds them.
-/

namespace HostLisp

namespace Capture

/-! ### Capturing on the way -/

/-- Captures a name that is not captured yet. -/
def note (env : Environment) (captured : Names Binding) (name : String) :
    Except Error (Names Binding) :=
  if name ∈ captured.map Prod.fst then .ok captured
  else
    match env.capture? name with
    | none => .error (.unbound name)
    | some b => .ok (captured ++ [(name, b)])

mutual
/-- Captures the free names of an expression; also says which names are bound behind it. -/
def walk (env : Environment) (captured : Names Binding) (bound : List String) :
    Value → Except Error (Names Binding × List String)
  | .atom a =>
    if a.name ∈ bound then .ok (captured, bound)
    else (note env captured a.name).map (·, bound)
  | .list (head :: args) =>
    (walk env captured bound head).bind fun (captured, inner) =>
      walkForm env captured inner (Binder.ofHead bound head) args
  | _ => .ok (captured, bound)
termination_by structural e => e
/-- Captures the free names behind the head of a list. -/
def walkForm (env : Environment) (captured : Names Binding) (bound : List String) :
    Binder → List Value → Except Error (Names Binding × List String)
  | .quote, _ => .ok (captured, bound)
  | .lambda, formals :: body =>
    (walkBody env captured (parameterNames formals ++ bound) body).map fun (captured, _) =>
      (captured, bound)
  | .bindings, .list pairs :: body =>
    (walkPairs env captured bound pairs).bind fun (captured, inner) =>
      (walkBody env captured inner body).map fun (captured, _) => (captured, bound)
  | .declare, .atom a :: init =>
    (walkBody env captured bound init).map fun (captured, inner) => (captured, a.name :: inner)
  | _, [] => .ok (captured, bound)
  | _, e :: es =>
    (walk env captured bound e).bind fun (captured, inner) => walkBody env captured inner es
termination_by structural _ es => es
/-- Captures the free names of expressions one after the other. -/
def walkBody (env : Environment) (captured : Names Binding) (bound : List String) :
    List Value → Except Error (Names Binding × List String)
  | [] => .ok (captured, bound)
  | e :: es =>
    (walk env captured bound e).bind fun (captured, inner) => walkBody env captured inner es
termination_by structural es => es
/-- Captures the free names of the bindings of a `let` form, and binds its names. -/
def walkPairs (env : Environment) (captured : Names Binding) (bound : List String) :
    List Value → Except Error (Names Binding × List String)
  | [] => .ok (captured, bound)
  | .list (target :: init) :: rest =>
    (walkBody env captured bound init).bind fun (captured, inner) =>
      walkPairs env captured (atomNames [target] ++ inner) rest
  | e :: rest =>
    (walk env captured bound e).bind fun (captured, inner) => walkPairs env captured inner rest
termination_by structural pairs => pairs
end

/-! ### Looking first -/

section
variable {env : Environment}

/-- Captures names one after the other. -/
def noteAll (env : Environment) (captured : Names Binding) (names : List String) :
    Except Error (Names Binding) :=
  names.foldlM (note env) captured

/-- Captures the names that were met; what is bound behind them does not depend on the environment. -/
def resolve (env : Environment) (captured : Names Binding) (met : List String × List String) :
    Except Error (Names Binding × List String) :=
  (noteAll env captured met.1).map (·, met.2)

theorem resolve_nil (captured : Names Binding) (bound : List String) :
    resolve env captured ([], bound) = .ok (captured, bound) := rfl

theorem resolve_singleton (captured : Names Binding) (name : String) (bound : List String) :
    resolve env captured ([name], bound) = (note env captured name).map (·, bound) := by
  have hone : noteAll env captured [name] = note env captured name := bind_pure _
  rw [resolve, hone]

theorem resolve_bind {captured : Names Binding} {met : List String × List String}
    {f : List String → List String × List String}
    {k : Names Binding × List String → Except Error (Names Binding × List String)}
    (hk : ∀ captured bound, k (captured, bound) = resolve env captured (f bound)) :
    (resolve env captured met).bind k =
      resolve env captured (met.1 ++ (f met.2).1, (f met.2).2) := by
  unfold resolve noteAll
  rw [List.foldlM_append]
  cases hmet : met.1.foldlM (note env) captured with
  | error e => rfl
  | ok captured' => exact hk captured' met.2

theorem resolve_map {captured : Names Binding} {met : List String × List String}
    (g : List String → List String) :
    (resolve env captured met).map (fun x => (x.1, g x.2)) =
      resolve env captured (met.1, g met.2) := by
  unfold resolve
  cases noteAll env captured met.1 <;> rfl

/-- The walk captures what the look at an expression meets, in that order.  The induction is on the
walk, one case for each of its ways. -/
theorem walk_eq_resolve (env : Environment) :
    (∀ captured bound e,
      walk env captured bound e = resolve env captured (Free.inExpr bound e)) ∧
    (∀ captured bound b es,
      walkForm env captured bound b es = resolve env captured (Free.inForm bound b es)) ∧
    (∀ captured bound pairs,
      walkPairs env captured bound pairs = resolve env captured (Free.inBindings bound pairs)) ∧
    ∀ captured bound es,
      walkBody env captured bound es = resolve env captured (Free.inBody bound es) := by
  apply walk.mutual_induct
    (fun captured bound e =>
      walk env captured bound e = resolve env captured (Free.inExpr bound e))
    (fun captured bound b es =>
      walkForm env captured bound b es = resolve env captured (Free.inForm bound b es))
    (fun captured bound pairs =>
      walkPairs env captured bound pairs = resolve env captured (Free.inBindings bound pairs))
    (fun captured bound es =>
      walkBody env captured bound es = resolve env captured (Free.inBody bound es))
  case _ => -- a bound name
    intro captured bound a h
    rw [walk, Free.inExpr, if_pos h, if_pos h, resolve_nil]
  case _ => -- another name
    intro captured bound a h
    rw [walk, Free.inExpr, if_neg h, if_neg h, resolve_singleton]
  case _ => -- a list
    intro captured bound head args ihhead ihargs
    rw [walk, ihhead]
    exact resolve_bind (f := fun inner => Free.inForm inner (Binder.ofHead bound head) args) ihargs
  case _ => -- anything else
    intro e captured bound ha hl
    rw [walk, Free.inExpr, resolve_nil] <;> assumption
  case _ => -- `quote`
    intro es captured bound
    cases es <;> rfl
  case _ => -- `lambda`
    intro captured bound formals body ih
    rw [walkForm, ih]
    exact resolve_map fun _ => bound
  case _ => -- `let`
    intro captured bound pairs body ihpairs ihbody
    rw [walkForm, ihpairs]
    refine resolve_bind (f := fun inner => ((Free.inBody inner body).1, bound))
      fun captured inner => ?_
    show (walkBody env captured inner body).map (fun x => (x.1, bound)) = _
    rw [ihbody]
    exact resolve_map fun _ => bound
  case _ => -- `var`
    intro captured bound a init ih
    rw [walkForm, ih]
    exact resolve_map (a.name :: ·)
  case _ => -- an application without arguments
    intro captured bound b hb
    rw [walkForm, Free.inForm, resolve_nil] <;> assumption
  case _ => -- an application
    intro captured bound b e es hquote hlambda hlet hvar ihe ihes
    rw [walkForm, Free.inForm, ihe]
    · exact resolve_bind (f := fun inner => Free.inBody inner es) ihes
    all_goals assumption
  case _ => -- no bindings
    intro captured bound
    rfl
  case _ => -- a binding, whose name is bound behind its initial value
    intro captured bound target init rest ihinit ihrest
    rw [walkPairs, ihinit]
    exact resolve_bind (f := fun inner => Free.inBindings (atomNames [target] ++ inner) rest)
      fun captured inner => ihrest captured _
  case _ => -- a pair that is none
    intro captured bound e rest he ihe ihrest
    rw [walkPairs, Free.inBindings, ihe]
    · exact resolve_bind (f := fun inner => Free.inBindings inner rest) ihrest
    all_goals assumption
  case _ => -- no expressions
    intro captured bound
    rfl
  case _ => -- an expression and those behind it
    intro captured bound e es ihe ihes
    rw [walkBody, ihe]
    exact resolve_bind (f := fun inner => Free.inBody inner es) ihes

/-- Names that are captured already are passed over, so each is captured where it is met first. -/
theorem noteAll_eq_captureAll (names : List String) (captured : Names Binding) :
    noteAll env captured names =
      (env.captureAll (names.filter (· ∉ captured.map Prod.fst)).eraseDups).map (captured ++ ·) := by
  induction names generalizing captured with
  | nil => exact congrArg Except.ok (List.append_nil captured).symm
  | cons name names ih =>
    rw [noteAll, List.foldlM_cons]
    by_cases hmem : name ∈ captured.map Prod.fst
    · rw [note, if_pos hmem, List.filter_cons_of_neg (by simpa using hmem)]
      exact ih captured
    rw [note, if_neg hmem, List.filter_cons_of_pos (by simpa using hmem), List.eraseDups_cons,
      Environment.captureAll]
    cases hb : env.capture? name with
    | none => rfl
    | some b =>
      -- From here on `name` is passed over like the names that were captured before.
      have hfilter : (names.filter (· ∉ captured.map Prod.fst)).filter (fun n => !n == name) =
          names.filter (· ∉ (captured ++ [(name, b)]).map Prod.fst) := by
        rw [List.filter_filter]
        refine List.filter_congr fun n _ => ?_
        rw [Bool.eq_iff_iff]
        simp [and_comm]
      rw [hfilter]
      refine (ih (captured ++ [(name, b)])).trans ?_
      cases env.captureAll (names.filter (· ∉ (captured ++ [(name, b)]).map Prod.fst)).eraseDups with
      | error e => rfl
      | ok rest => exact congrArg Except.ok (List.append_assoc captured [(name, b)] rest)

end

/-- The walk through a body captures its free names, each where it is met first. -/
theorem walkBody_eq (env : Environment) (formals : List Atom) (body : List Value) :
    (walkBody env [] (formals.map Atom.name) body).map Prod.fst =
      env.captureAll (freeNames formals body) := by
  have hnames : (Free.inBody (formals.map Atom.name) body).1.filter (· ∉ []) =
      (Free.inBody (formals.map Atom.name) body).1 := by simp
  have hnote := @noteAll_eq_captureAll env (Free.inBody (formals.map Atom.name) body).1 []
  rw [List.map_nil, hnames] at hnote
  rw [(walk_eq_resolve env).2.2.2, resolve, hnote, freeNames]
  cases env.captureAll (Free.inBody (formals.map Atom.name) body).1.eraseDups <;> rfl

end Capture

/-! ### Names that stand for something -/

namespace Environment

variable {env : Environment} {name : String} {names : List String}

/-- A name stands for something, and if that is a variable, it still exists. -/
def Resolves (env : Environment) (name : String) : Prop :=
  ∃ b, env.lookup name = some b ∧ ∀ h, b = .var h → (env.var? h).isSome

theorem resolves_iff : env.Resolves name ↔ (env.capture? name).isSome := by
  unfold Resolves Environment.capture?
  cases env.lookup name with
  | none => simp
  | some b => cases b <;> simp

theorem not_resolves_iff : ¬ env.Resolves name ↔ env.capture? name = none := by
  rw [resolves_iff, Bool.not_eq_true, Option.isSome_eq_false_iff, Option.isNone_iff_eq_none]

theorem captureAll_cons {b : Binding} (hb : env.capture? name = some b) :
    env.captureAll (name :: names) = (env.captureAll names).map ((name, b) :: ·) := by
  rw [captureAll, hb]

theorem exists_captureAll_iff :
    (∃ captured, env.captureAll names = .ok captured) ↔ ∀ name ∈ names, env.Resolves name := by
  constructor
  · rintro ⟨captured, h⟩ name hname
    obtain ⟨hnames, -⟩ := names_of_captureAll h
    rw [← hnames] at hname
    obtain ⟨x, hx, rfl⟩ := List.mem_map.1 hname
    rw [resolves_iff, capture?_of_mem_captureAll h x hx, Option.isSome_some]
  · intro h
    cases hcapture : env.captureAll names with
    | ok captured => exact ⟨captured, rfl⟩
    | error e =>
      obtain ⟨name, hname, hnone, -⟩ := exists_of_captureAll_eq_error hcapture
      exact absurd (h name hname) (not_resolves_iff.2 hnone)

/-- Names up to the first one that stands for nothing. -/
theorem captureAll_unbound {before after : List String} (hbefore : ∀ n ∈ before, env.Resolves n)
    (hname : ¬ env.Resolves name) :
    env.captureAll (before ++ name :: after) = .error (.unbound name) := by
  induction before with
  | nil => rw [List.nil_append, captureAll, not_resolves_iff.1 hname]
  | cons n before ih =>
    obtain ⟨hn, hbefore⟩ := List.forall_mem_cons.1 hbefore
    obtain ⟨b, hb⟩ := Option.isSome_iff_exists.1 (resolves_iff.1 hn)
    rw [List.cons_append, captureAll_cons hb, ih hbefore]
    rfl

end Environment

theorem nodup_eraseDups (names : List String) : names.eraseDups.Nodup := by
  induction hlen : names.length using Nat.strongRecOn generalizing names with
  | ind n ih =>
    subst hlen
    cases names with
    | nil => exact List.nodup_nil
    | cons name names =>
      rw [List.eraseDups_cons, List.nodup_cons]
      refine ⟨fun hmem => ?_, ih _ ?_ _ rfl⟩
      · simp [List.mem_eraseDups] at hmem
      · exact Nat.lt_succ_of_le (List.length_filter_le _ names)

/-! ### Making closures -/

namespace Lambda

variable {env : Environment} {s : Signature} {body : List Value} {closure : Lambda}

theorem perm_capturedNames (h : Lambda.build env s body = .ok closure) :
    closure.capturedNames.Perm (freeNames s.formals body) := by
  obtain ⟨captured, hcaptured, rfl⟩ := exists_of_build h
  obtain ⟨hnames, -⟩ := Environment.names_of_captureAll hcaptured
  rw [← hnames]
  exact (List.mergeSort_perm captured _).map Prod.fst

theorem exists_build_iff :
    (∃ closure, Lambda.build env s body = .ok closure) ↔
      ∀ name ∈ freeNames s.formals body, env.Resolves name := by
  rw [← Environment.exists_captureAll_iff, Lambda.build]
  cases env.captureAll (freeNames s.formals body) <;> simp [Except.map]

/-- What a closure captures is read off its parameters and its body.  Wherever it is made, one walk
through the body captures these names; it can be made just if they all stand for something, and then
they are what it has captured; otherwise the first one that stands for nothing is unbound.  Where the
forms of the body are well formed they are the names that occur in it where nothing binds them. -/
theorem build_captures_free (s : Signature) (body : List Value) :
    (freeNames s.formals body).Nodup ∧
    (∀ env : Environment,
      Lambda.build env s body =
        (Capture.walkBody env [] (s.formals.map Atom.name) body).map (fun x => ⟨s, x.1, body⟩) ∧
      ((∃ closure, Lambda.build env s body = .ok closure) ↔
        ∀ name ∈ freeNames s.formals body, env.Resolves name) ∧
      (∀ closure, Lambda.build env s body = .ok closure →
        closure.capturedNames.Perm (freeNames s.formals body)) ∧
      ∀ before name after, freeNames s.formals body = before ++ name :: after →
        (∀ n ∈ before, env.Resolves n) → ¬ env.Resolves name →
        Lambda.build env s body = .error (.unbound name)) ∧
    ∀ scope', Free.LeavesAll (s.formals.map Atom.name) body scope' →
      ∀ name, name ∈ freeNames s.formals body ↔
        Free.OccursIn name (s.formals.map Atom.name) body := by
  refine ⟨nodup_eraseDups _, fun env => ⟨?_, exists_build_iff, fun _ => perm_capturedNames, ?_⟩, ?_⟩
  · rw [Lambda.build, ← Capture.walkBody_eq]
    cases Capture.walkBody env [] (s.formals.map Atom.name) body <;> rfl
  · intro before name after hnames hbefore hname
    rw [Lambda.build, hnames, Environment.captureAll_unbound hbefore hname]
    rfl
  · intro scope' hbody name
    rw [freeNames, List.mem_eraseDups, Free.mem_inBody_iff hbody]

/-- The initial value of `x` is evaluated before `x` is bound; parameters are not captured. -/
theorem build_captures_free_let :
    let s : Signature := { fixed := [{ name := "a" }] }
    let body := [Value.list [.ofName "let", .list [.list [.ofName "x", .ofName "x"]],
      .list [.ofName "list", .ofName "x", .ofName "a"]]]
    Lambda.build .withBuiltins s body = .error (.unbound "x") ∧
      Free.OccursIn "x" ["a"] body ∧ ¬ Free.OccursIn "a" ["a"] body := by
  intro s body
  obtain ⟨-, hbuild, hfree⟩ := build_captures_free s body
  have hnames : freeNames s.formals body = ["let"] ++ "x" :: ["list"] := by decide
  have hlet : Environment.withBuiltins.Resolves "let" := Environment.resolves_iff.2 (by decide)
  have hx : ¬ Environment.withBuiltins.Resolves "x" := Environment.not_resolves_iff.2 (by decide)
  have hlist : Free.OpensNone ["x", "a"] (.ofName "list") := by
    rintro form hform ⟨a, ha, rfl, -⟩
    cases ha
    revert hform
    decide
  have hinner : Free.LeavesAll ["x", "a"] [.list [.ofName "list", .ofName "x", .ofName "a"]]
      ["x", "a"] :=
    .cons (.application hlist (.cons .atom (.cons .atom (.cons .atom .nil)))) .nil
  have hleaves : Free.LeavesAll ["a"] body ["a"] :=
    .cons (.bindings ⟨_, rfl, rfl, by decide⟩ (.cons (.cons .atom .nil) .nil) hinner) .nil
  have hiff := hfree ["a"] hleaves
  refine ⟨(hbuild .withBuiltins).2.2.2 ["let"] "x" ["list"] hnames (by simpa using hlet) hx,
    (hiff "x").1 (by decide), fun ha => ?_⟩
  exact absurd ((hiff "a").2 ha) (by decide)

end Lambda

end HostLisp

