import HostLisp.Proofs.Evaluation.Late
import HostLisp.Proofs.Evaluation.MirroredEval

/-!
# What capturing leaves out

A closure without parameters is made of an expression, and then it is called where it was made.  It
goes the same way as the expression there, unless a name is missing that was not captured.  Names are
captured by a look at the expression alone, in which only the names of forms stand for forms; so that
does happen where a form goes by another name.
-/

namespace HostLisp

open Run (Mirrors)

/-- Built-in operations and closures over them. -/
def Repertoire.plain : Repertoire where
  native f := ∃ op, f.body = .builtin op
  task _ := False

theorem Host.serves_plain (host : Host) : host.Serves .plain where
  closure _ := trivial
  named _ _ := id
  ordinary _ := trivial
  raw _ _ _ := by
    rintro ⟨op, h⟩
    cases h
  operation _ _ _ _ := by
    rintro ⟨op, h⟩
    cases h
  task _ _ _ := False.elim

namespace Environment

/-- Every visible name stands for a plain value, a comparator's name for the built-in one. -/
structure IsPlain (env : Environment) : Prop where
  value : ∀ name b, env.get? name = some b → ∃ v, b = .value v ∧ v.Within .plain
  comparator : ∀ lenient b, env.get? (HostLisp.comparator lenient) = some b → b.IsComparator lenient

variable {env : Environment} {captured : Names Binding}

theorem IsPlain.lookup (h : env.IsPlain) (name : String) : env.lookup name = env.get? name := by
  refine lookup_of_no_toolkit (fun other kit hkit => ?_) name
  obtain ⟨v, hv, -⟩ := h.value other _ hkit
  cases hv

/-- In a plain environment names are captured as they are bound. -/
theorem IsPlain.capture? (h : env.IsPlain) (name : String) : env.capture? name = env.get? name := by
  unfold Environment.capture?
  rw [h.lookup]
  cases hb : env.get? name with
  | none => rfl
  | some b =>
    obtain ⟨v, rfl, -⟩ := h.value name b hb
    rfl

/-- A plain environment is mirrored by what is captured from it; missing is what is not. -/
theorem IsPlain.mirrors (h : env.IsPlain) {names : List String}
    (hcaptured : env.captureAll names = .ok captured) :
    (ofCaptured captured).pushFrame.Mirrors
      (fun name => env.get? name ≠ none ∧ captured.find? name = none) env.cells.length env where
  get? name := by
    rw [get?_pushFrame, get?_ofCaptured]
    cases hfind : captured.find? name with
    | none =>
      cases hget : env.get? name with
      | none => exact .inl rfl
      | some b => exact .inr ⟨rfl, nofun, rfl⟩
    | some b =>
      left
      have hb := capture?_of_mem_captureAll hcaptured _ (Names.mem_of_find? hfind)
      rw [h.capture?] at hb
      obtain ⟨v, rfl, -⟩ := h.value name b hb
      exact hb
  plain name _ other b hb := by
    obtain ⟨v, rfl, hv⟩ := h.value other b hb
    refine ⟨nofun, ?_⟩
    rintro t ⟨⟩
    rw [Value.Within] at hv
    exact hv
  comparator lenient b _ hb := h.comparator lenient b hb
  cells := ⟨env.cells, rfl, (List.append_nil _).symm⟩

theorem IsPlain.within_captured (h : env.IsPlain) {names : List String}
    (hcaptured : env.captureAll names = .ok captured) :
    Binding.AllWithin .plain captured := by
  refine Binding.allWithin_iff.2 fun x hx => ?_
  have hb := capture?_of_mem_captureAll hcaptured x hx
  rw [h.capture?] at hb
  obtain ⟨v, hv, hwithin⟩ := h.value x.1 x.2 hb
  rw [hv]
  exact .inr ⟨trivial, Binding.within_value.2 hwithin⟩

end Environment

/-! ### Calling a closure where it was made -/

section
variable {host : Host} {n : Nat} {m : Machine} {e : Value} {closure : Lambda}

/-- The body of a closure without parameters runs in what was captured. -/
theorem Lambda.call_nil (eval : Evaluator) (captured : Names Binding) (body : List Value) :
    Lambda.call eval ⟨{ fixed := [] }, captured, body⟩ [] =
      Run.inEnvironment (Environment.ofCaptured captured).pushFrame
        (Run.through (.inLambda body) (evalSequence eval .nil body)) :=
  rfl

/-- Where nothing else follows, the outcome of an expression is that of the sequence. -/
theorem through_evalSequence (p : Passage) (eval : Evaluator) (e : Value) (m : Machine) :
    (Run.through p (evalSequence eval .nil [e]) m).1 =
      (eval e m).1.mapError fun e' => e'.through p := by
  have hseq : evalSequence eval .nil [e] = eval e := bind_pure (eval e)
  unfold Run.through
  rw [hseq]
  rcases eval e m with ⟨e' | v, m'⟩
  · rfl
  · rfl

/-- A sequence goes the same way in two environments of which one mirrors the other. -/
theorem mirrors_body {missing : String → Prop} {k : Nat} {body : List Value}
    (hbody : ∀ e ∈ body, e.Within .plain) :
    Mirrors .plain n missing missing k
      (Run.through (.inLambda body) (evalSequence (eval host n) .nil body))
      (Run.through (.inLambda body) (evalSequence (eval host n) .nil body)) :=
  .through _ (mirrors_evalSequence (mirrored_eval host.serves_plain (fun _ => id) n) hbody)

/-- The machine on which a closure without parameters runs its body. -/
theorem Machine.ready_ofCaptured {captured : Names Binding} (hdepth : m.depth + n = maxEvalDepth)
    (hcaptured : Binding.AllWithin .plain captured) :
    Machine.Ready .plain n
      { m with env := (Environment.ofCaptured captured).pushFrame, deepest := m.depth } :=
  ⟨hdepth, show m.depth ≤ maxEvalDepth by omega,
    (Environment.within_ofCaptured hcaptured).pushFrame⟩

/-- How the body ends does not depend on how deep evaluations once were. -/
theorem Lambda.call_nil_deepest {captured : Names Binding} {body : List Value} (deepest : Nat)
    (hdepth : m.depth + n = maxEvalDepth) (hcaptured : Binding.AllWithin .plain captured)
    (hbody : ∀ e ∈ body, e.Within .plain) :
    (Lambda.call (eval host n) ⟨{ fixed := [] }, captured, body⟩ [] { m with deepest }).1 =
      (Run.through (.inLambda body) (evalSequence (eval host n) .nil body)
        { m with env := (Environment.ofCaptured captured).pushFrame, deepest := m.depth }).1 := by
  rw [Lambda.call_nil]
  obtain ⟨_, hname, -⟩ | ⟨heq, -⟩ :=
    @mirrors_body host n (fun _ => False) 0 body hbody _
      { m with env := (Environment.ofCaptured captured).pushFrame, deepest }
      (Machine.ready_ofCaptured hdepth hcaptured) ⟨.refl _, rfl, rfl⟩
  · exact hname.elim
  · exact heq

/-- The body of a closure meets a name that was not captured, or goes as its expression does. -/
theorem Lambda.call_or_unbound (hdepth : m.depth + n = maxEvalDepth) (henv : m.env.IsPlain)
    (he : e.Within .plain) (hbuild : Lambda.build m.env { fixed := [] } [e] = .ok closure) :
    (∃ name, m.env.get? name ≠ none ∧ Names.find? closure.captured name = none ∧
        (closure.call (eval host n) [] m).1 = .error (.unbound name)) ∨
      (closure.call (eval host n) [] m).1 =
        (eval host n e m).1.mapError fun e' => e'.through (.inLambda [e]) := by
  obtain ⟨captured, hcaptured, rfl⟩ := Lambda.exists_of_build hbuild
  have hwithin := henv.within_captured hcaptured
  have hbody : ∀ e' ∈ [e], e'.Within .plain := by simpa
  have hcall := @Lambda.call_nil_deepest host n m captured [e] m.deepest hdepth hwithin hbody
  rw [← through_evalSequence, hcall]
  obtain ⟨name, ⟨hbound, hfind⟩, hfails⟩ | ⟨heq, -⟩ :=
    mirrors_body hbody _ m (Machine.ready_ofCaptured hdepth hwithin)
      ⟨henv.mirrors hcaptured, rfl, rfl⟩
  · exact .inl ⟨name, hbound, hfind, hfails⟩
  · exact .inr heq.symm

/-- Nothing is missing where forms go by their own names only and all that is evaluated is captured
or declared on every path. -/
theorem Lambda.call_of_covers (hdepth : m.depth + n = maxEvalDepth) (henv : m.env.IsPlain)
    (he : e.Within .plain) (hbuild : Lambda.build m.env { fixed := [] } [e] = .ok closure)
    (hscoped : m.env.Within (.scoped [])) (he' : e.Within (.scoped []))
    (hcovers : Scope.Covers [] [] (freeNames [] [e]) [e]) :
    (closure.call (eval host n) [] m).1 =
      (eval host n e m).1.mapError fun e' => e'.through (.inLambda [e]) := by
  refine (@Lambda.call_or_unbound host n m e closure hdepth henv he hbuild).resolve_left ?_
  rintro ⟨name, -, -, hfails⟩
  have hclosure : closure.Within (.scoped []) :=
    Lambda.within_build_scoped (s := { fixed := [] }) hscoped (by simpa) hcovers hbuild
  obtain ⟨captured, hcaptured, rfl⟩ := Lambda.exists_of_build hbuild
  have hcall := fun deepest => @Lambda.call_nil_deepest host n m captured [e] deepest hdepth
    (henv.within_captured hcaptured) (by simpa)
  obtain ⟨hne, -⟩ := @Lambda.call_within host n { m with deepest := m.depth } [] _ [] hclosure nofun
    hdepth (show m.depth ≤ maxEvalDepth by omega)
  exact hne name List.not_mem_nil ((hcall m.depth).trans ((hcall m.deepest).symm.trans hfails))

/-- Passages leave the error that a name is unbound as it is. -/
theorem Error.eq_unbound_of_through {e : Error} {p : Passage} {name : String}
    (h : e.through p = .unbound name) : e = .unbound name := by
  cases e with
  | misfit => cases h
  | failure => cases h
  | _ => exact h

/-- A closure without parameters that is called where it was made has another outcome than its
expression just if it fails because a name is unbound that stands for something there and was not
captured.  That never happens where forms go by their own names only and what the expression
evaluates is captured or declared on every path. -/
theorem Lambda.call_of_build (hdepth : m.depth + n = maxEvalDepth) (henv : m.env.IsPlain)
    (he : e.Within .plain) (hbuild : Lambda.build m.env { fixed := [] } [e] = .ok closure) :
    ((closure.call (eval host n) [] m).1 ≠
        ((eval host n e m).1.mapError fun e' => e'.through (.inLambda [e])) ↔
      ∃ name, m.env.get? name ≠ none ∧ Names.find? closure.captured name = none ∧
        (closure.call (eval host n) [] m).1 = .error (.unbound name) ∧
        (eval host n e m).1 ≠ .error (.unbound name)) ∧
    (m.env.Within (.scoped []) → e.Within (.scoped []) →
      Scope.Covers [] [] (freeNames [] [e]) [e] →
      (closure.call (eval host n) [] m).1 =
        (eval host n e m).1.mapError fun e' => e'.through (.inLambda [e])) := by
  refine ⟨⟨fun hne => ?_, ?_⟩, Lambda.call_of_covers hdepth henv he hbuild⟩
  · obtain ⟨name, hbound, hfind, hfails⟩ :=
      (Lambda.call_or_unbound hdepth henv he hbuild).resolve_right hne
    refine ⟨name, hbound, hfind, hfails, fun heval => hne ?_⟩
    rw [hfails, heval]
    rfl
  · rintro ⟨name, -, -, hfails, heval⟩ heq
    rw [hfails] at heq
    cases hresult : (eval host n e m).1 with
    | ok v =>
      rw [hresult] at heq
      cases heq
    | error e' =>
      rw [hresult] at heq heval
      have hthrough := (Except.error.inj heq).symm
      exact heval (congrArg Except.error (Error.eq_unbound_of_through hthrough))

end

theorem Environment.isPlain_withBuiltins : withBuiltins.IsPlain where
  value name b h := by
    obtain ⟨op, -, -, rfl⟩ := exists_of_get?_withBuiltins h
    refine ⟨_, rfl, ?_⟩
    rw [Value.Within]
    exact ⟨op, rfl⟩
  comparator lenient b h := by
    obtain ⟨op, hop, hname, rfl⟩ := exists_of_get?_withBuiltins h
    obtain rfl := Builtin.eq_of_comparator_mem op hop lenient hname
    exact ⟨_, rfl⟩

/-- A `let` form behind its name goes the same way in the closure. -/
theorem Lambda.call_of_build_let :
    let e := Value.list [.ofName "let", .list [.list [.ofName "x", .int 1]],
      .list [.ofName "list", .ofName "x"]]
    let m : Machine := { env := .withBuiltins }
    ∃ closure, Lambda.build m.env { fixed := [] } [e] = .ok closure ∧
      (closure.call (eval Host.Sample.host maxEvalDepth) [] m).1 =
        (eval Host.Sample.host maxEvalDepth e m).1.mapError fun e' =>
          e'.through (.inLambda [e]) := by
  intro e m
  have he : ∀ R, e.Within R := by simp [e, Value.Within, Value.AllWithin, Value.ofName]
  have hbuild : Lambda.build m.env { fixed := [] } [e] = .ok ⟨{ fixed := [] },
      [("let", .value (.native ⟨"let", .builtin (.form .bindings)⟩)),
        ("list", .value (.native ⟨"list", .builtin (.primitive .list)⟩))], [e]⟩ := by cbv
  have hcovers : Scope.Covers [] [] (freeNames [] [e]) [e] := by decide
  exact ⟨_, hbuild, (Lambda.call_of_build rfl Environment.isPlain_withBuiltins (he _) hbuild).2
    (Environment.within_withBuiltins []) (he _) hcovers⟩

/-- A `let` form behind another name looks like an application of that name, so what a binding named
like a form evaluates is not captured: the expression is 1, and the closure fails late. -/
theorem Lambda.call_of_build_alias :
    let e := Value.list [.ofName "let", .list [.list [.ofName "bind", .ofName "let"]],
      .list [.ofName "bind", .list [.list [.ofName "quote", .ofName "list"]], .int 1]]
    let m : Machine := { env := .withBuiltins }
    ∃ closure, Lambda.build m.env { fixed := [] } [e] = .ok closure ∧
      (eval Host.Sample.host maxEvalDepth e m).1 = .ok (.int 1) ∧
      (closure.call (eval Host.Sample.host maxEvalDepth) [] m).1 = .error (.unbound "list") := by
  intro e m
  refine ⟨⟨{ fixed := [] }, [("let", .value (.native ⟨"let", .builtin (.form .bindings)⟩)),
    ("quote", .value (.native ⟨"quote", .builtin (.form .quote)⟩))], [e]⟩, ?_, ?_, ?_⟩
  · cbv
  · cbv
  · cbv

end HostLisp
