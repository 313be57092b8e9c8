import HostLisp.Proofs.Evaluation.Repertoire
import HostLisp.Proofs.Parsing.Outcome

/-!
# Activations

What binding arguments to parameters gives: as many values as there are variables, each of them an
argument or a list of arguments; and environments that stay in a repertoire with their arguments.
Whatever is wrong with arguments or parameters, it is never that a name is unbound.
-/

namespace HostLisp

open Parsing

/-- The error of a name that stands for nothing. -/
def Error.IsUnbound : Error → Prop
  | .unbound _ => True
  | _ => False

theorem Environment.not_isUnbound_of_defineVar {env : Environment} {name : String} {ty : Ty}
    {v : Value} {e : Error} (h : env.defineVar name ty v = .error e) : ¬ e.IsUnbound := by
  unfold Environment.defineVar Environment.newVar checkFormal at h
  by_cases ha : ty.admits v = true
  · simp [ha, bind, Except.bind, Pure.pure, Except.pure] at h
  · simp only [ha, bind, Except.bind] at h
    cases h
    exact id

theorem Environment.not_isUnbound_of_setVar {env : Environment} {handle : Handle} {v : Value}
    {e : Error} (h : env.setVar handle v = .error e) : ¬ e.IsUnbound := by
  unfold Environment.setVar checkFormal at h
  cases hc : env.cell? handle with
  | none =>
    rw [hc] at h
    cases h
    exact id
  | some cell =>
    by_cases ha : cell.ty.admits v = true
    · simp [hc, ha, bind, Except.bind, Pure.pure, Except.pure] at h
    · simp only [hc, ha, bind, Except.bind] at h
      cases h
      exact id

namespace Signature

/-- An argument, or a list of arguments. -/
def IsDrawn (actuals : List Value) (v : Value) : Prop :=
  v ∈ actuals ∨ ∃ items, v = .list items ∧ ∀ a ∈ items, a ∈ actuals

/-- Whatever the parser takes from among the actuals has the property. -/
def Draws {α : Type} (actuals : List Value) (p : ArgumentParser α) (P : α → Prop) : Prop :=
  ∀ c a c', (∀ v ∈ c.rest, v ∈ actuals) → p c = .ok (a, c') →
    P a ∧ ∀ v ∈ c'.rest, v ∈ actuals

variable {actuals : List Value}

theorem draws_one (formal : Atom) : Draws actuals (one formal) (· ∈ actuals) := by
  rintro ⟨n, rest⟩ a c' hc h
  cases rest with
  | nil => cases h
  | cons v rest =>
    unfold one satisfyMap at h
    simp only [next?_cursor_cons] at h
    cases hf : checkFormal formal.name formal.ty v with
    | error e =>
      rw [hf] at h
      cases h
    | ok u =>
      rw [hf] at h
      cases h
      exact ⟨hc v List.mem_cons_self, fun w hw => hc w (List.mem_cons_of_mem _ hw)⟩

/-- The end of the arguments takes nothing. -/
theorem eq_of_eof {c c' : Cursor Value} {u : Unit}
    (h : (eof : ArgumentParser Unit) c = .ok (u, c')) : c' = c := by
  unfold eof at h
  split at h
  · cases h
    rfl
  · cases h

theorem draws_manyTill {p : ArgumentParser Value} (hp : Draws actuals p (· ∈ actuals)) :
    Draws actuals (manyTill p (eof : ArgumentParser Unit)) (∀ v ∈ ·, v ∈ actuals) := by
  intro c
  fun_induction manyTill p (eof : ArgumentParser Unit) c with
  | case1 c u rest hstop =>
    rintro vs c' hc ⟨⟩
    rw [eq_of_eof hstop]
    exact ⟨nofun, hc⟩
  | case2 c e hstop => rintro vs c' hc ⟨⟩
  | case3 c e hstop e' hp' => rintro vs c' hc ⟨⟩
  | case4 c e hstop a rest hp' hlt as rest' hrest ih =>
    rintro vs c' hc ⟨⟩
    obtain ⟨ha, hc⟩ := hp c a rest hc hp'
    obtain ⟨has, hc⟩ := ih as rest' hc hrest
    refine ⟨fun v hv => ?_, hc⟩
    obtain rfl | hv := List.mem_cons.1 hv
    · exact ha
    · exact has v hv
  | case5 c e hstop a rest hp' hlt e' hrest ih => rintro vs c' hc ⟨⟩
  | case6 c e hstop a rest hp' hlt => rintro vs c' hc ⟨⟩

theorem draws_further (ty : Ty) : Draws actuals (further ty) (IsDrawn actuals) := by
  intro c v c' hc h
  unfold further at h
  cases hm : manyTill (one ⟨variadicMarker, ty⟩) (eof : ArgumentParser Unit) c with
  | error e =>
    rw [map_of_error _ hm] at h
    cases h
  | ok x =>
    obtain ⟨items, rest⟩ := x
    rw [map_of_ok _ hm] at h
    cases h
    obtain ⟨hitems, hrest⟩ := draws_manyTill (draws_one _) c items c' hc hm
    exact ⟨.inr ⟨items, rfl, hitems⟩, hrest⟩

theorem draws_inOrder {ps : List (ArgumentParser Value)}
    (hps : ∀ p ∈ ps, Draws actuals p (IsDrawn actuals)) :
    Draws actuals (inOrder ps) fun vs =>
      vs.length = ps.length ∧ ∀ v ∈ vs, IsDrawn actuals v := by
  induction ps with
  | nil =>
    rintro c vs c' hc ⟨⟩
    exact ⟨⟨rfl, nofun⟩, hc⟩
  | cons p ps ih =>
    intro c vs c' hc h
    unfold inOrder at h
    cases hp : p c with
    | error e =>
      rw [bind_of_error hp] at h
      cases h
    | ok x =>
      obtain ⟨a, rest⟩ := x
      rw [bind_of_ok hp] at h
      cases hr : inOrder ps rest with
      | error e =>
        rw [bind_of_error hr] at h
        cases h
      | ok y =>
        obtain ⟨as, rest'⟩ := y
        rw [bind_of_ok hr] at h
        cases h
        obtain ⟨ha, hc⟩ := hps p List.mem_cons_self c a rest hc hp
        obtain ⟨⟨hlen, has⟩, hc⟩ :=
          ih (fun q hq => hps q (List.mem_cons_of_mem _ hq)) rest as _ hc hr
        refine ⟨⟨by simp [hlen], fun v hv => ?_⟩, hc⟩
        obtain rfl | hv := List.mem_cons.1 hv
        · exact ha
        · exact has v hv

/-- Matched values come from the arguments, one for each variable. -/
theorem isDrawn_of_matchArguments {s : Signature} {values : List Value}
    (h : s.matchArguments actuals = .ok values) :
    values.length = s.cellTypes.length ∧ ∀ v ∈ values, IsDrawn actuals v := by
  have hps : ∀ p ∈ s.validators, Draws actuals p (IsDrawn actuals) := by
    intro p hp
    obtain hp | hp := List.mem_append.1 hp
    · obtain ⟨formal, -, rfl⟩ := List.mem_map.1 hp
      intro c a c' hc h
      obtain ⟨ha, hrest⟩ := draws_one formal c a c' hc h
      exact ⟨.inl ha, hrest⟩
    · obtain ⟨ty, -, rfl⟩ := Option.map_eq_some_iff.1 (Option.mem_toList.1 hp)
      exact draws_further ty
  have hlen : s.validators.length = s.cellTypes.length := by
    cases hr : s.rest <;> simp [validators, cellTypes, hr]
  unfold matchArguments at h
  split at h
  · next values' rest hmatch =>
    cases h
    unfold terminated at hmatch
    cases hi : inOrder s.validators (Cursor.ofList actuals) with
    | error e =>
      rw [bind_of_error hi] at hmatch
      cases hmatch
    | ok x =>
      obtain ⟨vs, c⟩ := x
      rw [bind_of_ok hi] at hmatch
      cases he : (eof : ArgumentParser Unit) c with
      | error e =>
        rw [bind_of_error he] at hmatch
        cases hmatch
      | ok y =>
        rw [bind_of_ok he] at hmatch
        cases hmatch
        rw [← hlen]
        exact (draws_inOrder hps _ _ _ (fun v hv => hv) hi).1
  · next failure _ => split at h <;> cases h

/-! ### Outcomes of steps -/

/-- What a step and the rest succeed with. -/
theorem exists_of_bind_eq_ok {α β : Type} {x : Except Error α} {f : α → Except Error β} {b : β}
    (h : (x >>= f) = .ok b) : ∃ a, x = .ok a ∧ f a = .ok b := by
  cases x with
  | error e => cases h
  | ok a => exact ⟨a, rfl, h⟩

/-- Where the failure of a step and the rest is from. -/
theorem error_of_bind_eq_error {α β : Type} {x : Except Error α} {f : α → Except Error β}
    {e : Error} (h : (x >>= f) = .error e) : x = .error e ∨ ∃ a, x = .ok a ∧ f a = .error e := by
  cases x with
  | error e' =>
    cases h
    exact .inl rfl
  | ok a => exact .inr ⟨a, rfl, h⟩

/-! ### Failures -/

/-- Whatever the parser fails with, it is not that a name is unbound. -/
def LooksNothingUp {α : Type} (p : ArgumentParser α) : Prop :=
  ∀ c f, p c = .error f → ¬ f.error.IsUnbound

theorem looksNothingUp_one (formal : Atom) : LooksNothingUp (one formal) := by
  rintro ⟨n, _ | ⟨v, rest⟩⟩ f h
  · cases h
    exact id
  · unfold one satisfyMap checkFormal at h
    simp only [next?_cursor_cons] at h
    split at h
    · next heq => split at heq <;> cases heq; cases h
    · next e heq =>
      split at heq
      · cases heq
      · cases heq
        cases h
        exact id

theorem looksNothingUp_eof : LooksNothingUp (eof : ArgumentParser Unit) := by
  intro c f h
  unfold eof at h
  split at h
  · cases h
  · cases h
    exact id

theorem looksNothingUp_manyTill {p : ArgumentParser Value} (hp : LooksNothingUp p) :
    LooksNothingUp (manyTill p (eof : ArgumentParser Unit)) := by
  intro c
  fun_induction manyTill p (eof : ArgumentParser Unit) c with
  | case1 c u rest hstop => exact nofun
  | case2 c e hstop =>
    rintro f ⟨⟩
    exact looksNothingUp_eof c (.cut e) hstop
  | case3 c e hstop e' hp' =>
    rintro f ⟨⟩
    exact hp c e' hp'
  | case4 c e hstop a rest hp' hlt as rest' hrest ih => exact nofun
  | case5 c e hstop a rest hp' hlt e' hrest ih =>
    rintro f ⟨⟩
    exact ih e' hrest
  | case6 c e hstop a rest hp' hlt =>
    rintro f ⟨⟩
    obtain ⟨n, _ | ⟨v, vs⟩⟩ := c
    · exact id
    · exact id

theorem looksNothingUp_inOrder {ps : List (ArgumentParser Value)}
    (hps : ∀ p ∈ ps, LooksNothingUp p) : LooksNothingUp (inOrder ps) := by
  induction ps with
  | nil => exact nofun
  | cons p ps ih =>
    obtain ⟨hp, hps⟩ := List.forall_mem_cons.1 hps
    intro c f h
    unfold inOrder at h
    cases hc : p c with
    | error e =>
      rw [bind_of_error hc] at h
      cases h
      exact hp c f hc
    | ok x =>
      obtain ⟨a, rest⟩ := x
      rw [bind_of_ok hc] at h
      cases hr : inOrder ps rest with
      | error e =>
        rw [bind_of_error hr] at h
        cases h
        exact ih hps rest f hr
      | ok y =>
        obtain ⟨as, rest'⟩ := y
        rw [bind_of_ok hr] at h
        cases h

theorem looksNothingUp_validators (s : Signature) :
    ∀ p ∈ s.validators, LooksNothingUp p := by
  intro p hp
  obtain hp | hp := List.mem_append.1 hp
  · obtain ⟨formal, -, rfl⟩ := List.mem_map.1 hp
    exact looksNothingUp_one formal
  · obtain ⟨ty, -, rfl⟩ := Option.map_eq_some_iff.1 (Option.mem_toList.1 hp)
    intro c f h
    unfold further at h
    cases hm : manyTill (one ⟨variadicMarker, ty⟩) (eof : ArgumentParser Unit) c with
    | error e =>
      rw [map_of_error _ hm] at h
      cases h
      exact looksNothingUp_manyTill (looksNothingUp_one _) c _ hm
    | ok x =>
      rw [map_of_ok _ hm] at h
      cases h

theorem not_isUnbound_of_matchArguments {s : Signature} {actuals : List Value} {e : Error}
    (h : s.matchArguments actuals = .error e) : ¬ e.IsUnbound := by
  have hfails : ∀ f, terminated (inOrder s.validators) eof (Cursor.ofList actuals) = .error f →
      ¬ f.error.IsUnbound := by
    intro f hf
    unfold terminated at hf
    cases hi : inOrder s.validators (Cursor.ofList actuals) with
    | error e =>
      rw [bind_of_error hi] at hf
      cases hf
      exact looksNothingUp_inOrder (looksNothingUp_validators s) _ f hi
    | ok x =>
      obtain ⟨vs, c⟩ := x
      rw [bind_of_ok hi] at hf
      cases he : (eof : ArgumentParser Unit) c with
      | error e =>
        rw [bind_of_error he] at hf
        cases hf
        exact looksNothingUp_eof c f he
      | ok y =>
        rw [bind_of_ok he] at hf
        cases hf
  unfold matchArguments at h
  split at h
  · cases h
  · next f hf =>
    split at h
    · cases h
      exact id
    · cases h
      exact hfails f hf

/-! ### Names of parameters -/

theorem formals_of_extend {seen fs : List Atom} {s : Signature} (h : extend seen fs = .ok s) :
    s.formals = seen ++ fs := by
  induction fs generalizing seen with
  | nil =>
    cases h
    exact (List.append_nil seen).symm
  | cons f fs ih =>
    unfold extend at h
    split at h
    · cases h
    split at h
    · next hname =>
      split at h
      · next hempty =>
        cases h
        obtain ⟨name, ty⟩ := f
        obtain rfl : name = variadicMarker := hname
        rw [List.isEmpty_iff.1 hempty]
        rfl
      · cases h
    · rw [ih h, List.append_assoc]
      rfl

theorem not_isUnbound_of_extend {seen fs : List Atom} {e : Error}
    (h : extend seen fs = .error e) : ¬ e.IsUnbound := by
  induction fs generalizing seen with
  | nil => cases h
  | cons f fs ih =>
    unfold extend at h
    split at h
    · cases h
      exact id
    split at h
    · split at h
      · cases h
      · cases h
        exact id
    · exact ih h

theorem not_isUnbound_of_parameters {vs : List Value} {e : Error}
    (h : parameters vs = .error e) : ¬ e.IsUnbound := by
  induction vs with
  | nil => cases h
  | cons v vs ih =>
    unfold parameters at h
    split at h
    · next hv => cases hv
    · next a vs' hv =>
      cases hv
      cases hrest : parameters vs with
      | error e' =>
        rw [hrest] at h
        cases h
        exact ih hrest
      | ok rest =>
        rw [hrest] at h
        cases h
    · cases h
      exact id

theorem not_isUnbound_of_ofValue {v : Value} {e : Error} (h : ofValue v = .error e) :
    ¬ e.IsUnbound := by
  unfold ofValue at h
  split at h
  · obtain hp | ⟨formals, -, hx⟩ := error_of_bind_eq_error h
    · exact not_isUnbound_of_parameters hp
    · exact not_isUnbound_of_extend hx
  · cases h
    exact id

theorem atomNames_of_parameters {vs : List Value} {formals : List Atom}
    (h : parameters vs = .ok formals) : atomNames vs = formals.map Atom.name := by
  induction vs generalizing formals with
  | nil =>
    cases h
    rfl
  | cons v vs ih =>
    unfold parameters at h
    split at h
    · next hv => cases hv
    · next a vs' hv =>
      cases hv
      cases hrest : parameters vs with
      | error e =>
        rw [hrest] at h
        cases h
      | ok rest =>
        rw [hrest] at h
        cases h
        show a.name :: atomNames vs = _
        rw [ih hrest]
        rfl
    · cases h

/-- The parameters of a signature are those that its value names. -/
theorem parameterNames_of_ofValue {v : Value} {s : Signature} (h : ofValue v = .ok s) :
    parameterNames v = s.formals.map Atom.name := by
  unfold ofValue at h
  split at h
  · obtain ⟨formals, hp, hx⟩ := exists_of_bind_eq_ok h
    rw [formals_of_extend hx]
    exact atomNames_of_parameters hp
  · cases h

theorem names_cellTypes (s : Signature) : s.cellTypes.map Prod.fst = s.formals.map Atom.name := by
  unfold cellTypes formals
  cases s.rest with
  | none => simp [Function.comp_def]
  | some ty => simp [Function.comp_def]

/-! ### Binding -/

theorem exists_of_allocate_cons {env env' : Environment} {name : String} {ty : Ty} {v : Value}
    {cells : List ((String × Ty) × Value)} {bound : List (String × Handle)}
    (h : allocate env (((name, ty), v) :: cells) = .ok (bound, env')) :
    ∃ handle env₁ bound', env.defineVar name ty v = .ok (handle, env₁) ∧
      allocate env₁ cells = .ok (bound', env') := by
  obtain ⟨⟨handle, env₁⟩, hd, h⟩ := exists_of_bind_eq_ok h
  obtain ⟨⟨bound', env₂⟩, ha, h⟩ := exists_of_bind_eq_ok h
  cases h
  exact ⟨handle, env₁, bound', hd, ha⟩

theorem exists_of_bind {s : Signature} {env env' : Environment} {bound : List (String × Handle)}
    (h : s.bind env actuals = .ok (bound, env')) :
    ∃ values, s.matchArguments actuals = .ok values ∧
      allocate env (s.cellTypes.zip values) = .ok (bound, env') :=
  exists_of_bind_eq_ok h

theorem not_isUnbound_of_allocate {env : Environment} {cells : List ((String × Ty) × Value)}
    {e : Error} (h : allocate env cells = .error e) : ¬ e.IsUnbound := by
  induction cells generalizing env with
  | nil => cases h
  | cons c cells ih =>
    obtain hd | ⟨⟨handle, env₁⟩, -, h⟩ := error_of_bind_eq_error h
    · exact Environment.not_isUnbound_of_defineVar hd
    obtain ha | ⟨⟨bound, env₂⟩, -, h⟩ := error_of_bind_eq_error h
    · exact ih ha
    · cases h

theorem not_isUnbound_of_bind {s : Signature} {env : Environment} {actuals : List Value}
    {e : Error} (h : s.bind env actuals = .error e) : ¬ e.IsUnbound := by
  obtain hm | ⟨values, -, ha⟩ := error_of_bind_eq_error h
  · exact not_isUnbound_of_matchArguments hm
  · exact not_isUnbound_of_allocate ha

section
variable {R : Repertoire} {env env' : Environment} {bound : List (String × Handle)}

theorem IsDrawn.within {v : Value} (h : IsDrawn actuals v) (hactuals : ∀ a ∈ actuals, a.Within R) :
    v.Within R := by
  obtain hv | ⟨items, rfl, hitems⟩ := h
  · exact hactuals v hv
  · rw [Value.Within, Value.allWithin_iff]
    exact fun a ha => hactuals a (hitems a ha)

theorem within_allocate {cells : List ((String × Ty) × Value)} (henv : env.Within R)
    (hnames : ∀ c ∈ cells, R.ordinary c.1.1) (hcells : ∀ c ∈ cells, c.2.Within R)
    (h : allocate env cells = .ok (bound, env')) : env'.Within R := by
  induction cells generalizing env bound with
  | nil =>
    cases h
    exact henv
  | cons c cells ih =>
    obtain ⟨handle, env₁, bound', hd, ha⟩ := exists_of_allocate_cons h
    obtain ⟨hname, hnames⟩ := List.forall_mem_cons.1 hnames
    obtain ⟨hv, hcells⟩ := List.forall_mem_cons.1 hcells
    exact ih (henv.defineVar hname hv hd) hnames hcells ha

theorem within_bind {s : Signature} (henv : env.Within R)
    (hnames : ∀ c ∈ s.cellTypes, R.ordinary c.1) (hactuals : ∀ a ∈ actuals, a.Within R)
    (h : s.bind env actuals = .ok (bound, env')) : env'.Within R := by
  obtain ⟨values, hvalues, ha⟩ := exists_of_bind h
  obtain ⟨-, hdrawn⟩ := isDrawn_of_matchArguments hvalues
  refine within_allocate henv (fun c hc => ?_) (fun c hc => ?_) ha
  · exact hnames c.1 (List.of_mem_zip hc).1
  · exact (hdrawn c.2 (List.of_mem_zip hc).2).within hactuals

end

end Signature

/-! ### Making closures -/

namespace Environment

variable {R : Repertoire} {env : Environment}

theorem Within.capture? (h : env.Within R) {name : String} {b : Binding}
    (hb : env.capture? name = some b) : Binding.FitsAt R name b := by
  unfold Environment.capture? at hb
  split at hb
  · next handle hlookup =>
    obtain ⟨f, hf, -⟩ | ⟨hname, -⟩ := h.fitsAt_lookup hlookup
    · cases hf
    · obtain ⟨v, hv, rfl⟩ := Option.map_eq_some_iff.1 hb
      exact .inr ⟨hname, Binding.within_value.2 (h.var? hv)⟩
  · exact h.fitsAt_lookup hb

theorem exists_of_captureAll_cons {name : String} {names : List String} {captured : Names Binding}
    (h : env.captureAll (name :: names) = .ok captured) :
    ∃ b rest, env.capture? name = some b ∧ env.captureAll names = .ok rest ∧
      captured = (name, b) :: rest := by
  unfold Environment.captureAll at h
  split at h
  · cases h
  · next b hb =>
    cases hrest : env.captureAll names with
    | error e =>
      rw [hrest] at h
      cases h
    | ok rest =>
      rw [hrest] at h
      cases h
      exact ⟨b, rest, hb, rfl, rfl⟩

/-- What is captured for a name is what can be captured for it. -/
theorem capture?_of_mem_captureAll {names : List String} {captured : Names Binding}
    (h : env.captureAll names = .ok captured) :
    ∀ x ∈ captured, env.capture? x.1 = some x.2 := by
  induction names generalizing captured with
  | nil =>
    cases h
    exact nofun
  | cons name names ih =>
    obtain ⟨b, rest, hb, hrest, rfl⟩ := exists_of_captureAll_cons h
    exact List.forall_mem_cons.2 ⟨hb, ih hrest⟩

/-- Capturing fails for the first name that stands for nothing. -/
theorem exists_of_captureAll_eq_error {names : List String} {e : Error}
    (h : env.captureAll names = .error e) :
    ∃ name ∈ names, env.capture? name = none ∧ e = .unbound name := by
  induction names with
  | nil => cases h
  | cons name names ih =>
    unfold Environment.captureAll at h
    split at h
    · next hnone =>
      cases h
      exact ⟨name, List.mem_cons_self, hnone, rfl⟩
    · cases hrest : env.captureAll names with
      | error e' =>
        rw [hrest] at h
        cases h
        obtain ⟨other, hother, hnone, he⟩ := ih hrest
        exact ⟨other, List.mem_cons_of_mem _ hother, hnone, he⟩
      | ok rest =>
        rw [hrest] at h
        cases h

/-- What is captured is captured in order, and never as a variable. -/
theorem names_of_captureAll {names : List String} {captured : Names Binding}
    (h : env.captureAll names = .ok captured) :
    captured.map Prod.fst = names ∧ ∀ x ∈ captured, ∀ handle, x.2 ≠ .var handle := by
  induction names generalizing captured with
  | nil =>
    cases h
    exact ⟨rfl, nofun⟩
  | cons name names ih =>
    obtain ⟨b, rest, hb, hrest, rfl⟩ := exists_of_captureAll_cons h
    obtain ⟨hnames, hvars⟩ := ih hrest
    refine ⟨by rw [List.map_cons, hnames], List.forall_mem_cons.2 ⟨?_, hvars⟩⟩
    rintro handle (rfl : b = _)
    unfold Environment.capture? at hb
    split at hb
    · obtain ⟨v, -, hv⟩ := Option.map_eq_some_iff.1 hb
      cases hv
    · next hne => exact hne handle hb

theorem get?_ofCaptured (captured : Names Binding) (name : String) :
    (ofCaptured captured).get? name = captured.find? name := by
  show List.findSome? _ [_] = _
  simp
  rfl

theorem Within.captureAll (h : env.Within R) {names : List String} {captured : Names Binding}
    (hc : env.captureAll names = .ok captured) : Binding.AllWithin R captured :=
  Binding.allWithin_iff.2 fun x hx => h.capture? (capture?_of_mem_captureAll hc x hx)

end Environment

namespace Lambda

variable {env : Environment} {s : Signature} {body : List Value} {closure : Lambda}

theorem exists_of_build (h : Lambda.build env s body = .ok closure) :
    ∃ captured, env.captureAll (freeNames s.formals body) = .ok captured ∧
      closure = ⟨s, captured, body⟩ := by
  unfold Lambda.build at h
  cases hc : env.captureAll (freeNames s.formals body) with
  | error e =>
    rw [hc] at h
    cases h
  | ok captured =>
    rw [hc] at h
    cases h
    exact ⟨captured, rfl, rfl⟩

/-- A closure is not made only where one of its free names stands for nothing. -/
theorem exists_of_build_eq_error {e : Error} (h : Lambda.build env s body = .error e) :
    ∃ name ∈ freeNames s.formals body, env.capture? name = none ∧ e = .unbound name := by
  unfold Lambda.build at h
  cases hc : env.captureAll (freeNames s.formals body) with
  | error e' =>
    rw [hc] at h
    cases h
    exact Environment.exists_of_captureAll_eq_error hc
  | ok captured =>
    rw [hc] at h
    cases h

/-- A closure contains what its environment and its body contain. -/
theorem within_build {R : Repertoire} (henv : env.Within R) (hbody : ∀ e ∈ body, e.Within R)
    (hclosure : R.closure closure) (h : Lambda.build env s body = .ok closure) :
    closure.Within R := by
  obtain ⟨captured, hc, rfl⟩ := exists_of_build h
  exact ⟨hclosure, henv.captureAll hc, Value.allWithin_iff.2 hbody⟩

end Lambda

end HostLisp
