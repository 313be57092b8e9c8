import HostLisp.Closure

/-!
# Machines

What a running program can change: the environment it runs in, and a world outside all environments
that hands out identities and keeps what the computations of the host remember.  A `Run` is a
computation on machines that may fail; what it changed before it failed stays changed.
-/

namespace HostLisp

/-- What lies outside all environments. -/
structure World where
  /-- The next identity that is free. -/
  nextIdentity : Nat := 1
  /-- A counter for each identity that has one. -/
  counters : List (Nat × Nat) := []
  /-- The current time. -/
  now : Instant := default

namespace World

/-- The counter of an identity, zero at first. -/
def counter (w : World) (identity : Nat) : Nat := (w.counters.lookup identity).getD 0

/-- Sets the counter of an identity. -/
def setCounter (w : World) (identity n : Nat) : World :=
  { w with counters := (identity, n) :: w.counters.filter fun e => e.1 != identity }

end World

/-- An environment and the world, with a count of the evaluations under way. -/
structure Machine where
  env : Environment
  world : World := {}
  /-- How many evaluations are under way. -/
  depth : Nat := 0
  /-- The most evaluations that have ever been under way at once. -/
  deepest : Nat := 0

/-- Computations on machines that may fail. -/
def Run (α : Type) : Type := Machine → Except Error α × Machine

namespace Run

variable {α β : Type}

/-- An answer that changes nothing. -/
def answer (a : α) : Run α := fun m => (.ok a, m)

/-- One computation after the other; a failure ends both. -/
def andThen (x : Run α) (f : α → Run β) : Run β := fun m =>
  match x m with
  | (.ok a, m) => f a m
  | (.error e, m) => (.error e, m)

instance : Monad Run where
  pure := answer
  bind := andThen

/-- Fails. -/
def fail (e : Error) : Run α := fun m => (.error e, m)

/-- Goes on with an outcome. -/
def ofExcept (outcome : Except Error α) : Run α := fun m => (outcome, m)

/-- The outcome of a computation as its answer, so that a failure does not end what follows. -/
def attempt (x : Run α) : Run (Except Error α) := fun m =>
  let (outcome, m) := x m
  (.ok outcome, m)

/-- A computation whose errors pass a place. -/
def through (p : Passage) (x : Run α) : Run α := fun m =>
  match x m with
  | (.error e, m) => (.error (e.through p), m)
  | done => done

/-- A computation during which one more evaluation is under way, however it ends. -/
def nested (x : Run α) : Run α := fun m =>
  let (outcome, m') := x { m with depth := m.depth + 1, deepest := max m.deepest (m.depth + 1) }
  (outcome, { m' with depth := m'.depth - 1 })

/-! ### The environment and the world -/

/-- The environment. -/
def environment : Run Environment := fun m => (.ok m.env, m)

/-- Replaces the environment. -/
def setEnvironment (env : Environment) : Run Unit := fun m => (.ok (), { m with env })

/-- Changes the environment, or fails and leaves it. -/
def update (f : Environment → Except Error (α × Environment)) : Run α := fun m =>
  match f m.env with
  | .ok (a, env) => (.ok a, { m with env })
  | .error e => (.error e, m)

/-- What a name is bound to. -/
def lookup (name : String) : Run (Option Binding) := fun m => (.ok (m.env.lookup name), m)

/-- A computation inside a scope of its own, which is left in any case. -/
def inFrame (x : Run α) : Run α := fun m =>
  let (outcome, m) := x { m with env := m.env.pushFrame }
  (outcome, { m with env := m.env.popFrame })

/-- A computation in another environment, which is given up afterwards. -/
def inEnvironment (env : Environment) (x : Run α) : Run α := fun m =>
  let (outcome, m') := x { m with env }
  (outcome, { m' with env := m.env })

/-- The world. -/
def world : Run World := fun m => (.ok m.world, m)

/-- Replaces the world. -/
def setWorld (w : World) : Run Unit := fun m => (.ok (), { m with world := w })

/-- An identity that nothing else has. -/
def freshIdentity : Run Nat := fun m =>
  (.ok m.world.nextIdentity,
    { m with world := { m.world with nextIdentity := m.world.nextIdentity + 1 } })

/-! ### How computations run -/

@[simp] theorem pure_apply (a : α) (m : Machine) : (pure a : Run α) m = (.ok a, m) := rfl

theorem bind_apply (x : Run α) (f : α → Run β) (m : Machine) :
    (x >>= f) m =
      match x m with
      | (.ok a, m) => f a m
      | (.error e, m) => (.error e, m) := rfl

theorem bind_of_ok {x : Run α} {f : α → Run β} {m m' : Machine} {a : α} (h : x m = (.ok a, m')) :
    (x >>= f) m = f a m' := by rw [bind_apply, h]

theorem bind_of_error {x : Run α} {f : α → Run β} {m m' : Machine} {e : Error}
    (h : x m = (.error e, m')) : (x >>= f) m = (.error e, m') := by rw [bind_apply, h]

@[simp] theorem fail_apply (e : Error) (m : Machine) : (fail e : Run α) m = (.error e, m) := rfl

/-! A change of the environment, with what is made of its result. -/

section
variable {γ : Type} {change : Environment → Except Error γ} {k : γ → α × Environment} {m : Machine}

theorem update_map_of_ok {c : γ} (h : change m.env = .ok c) :
    update (fun env => (change env).map k) m = (.ok (k c).1, { m with env := (k c).2 }) := by
  unfold update
  dsimp only
  rw [h]
  rfl

theorem update_map_of_error {e : Error} (h : change m.env = .error e) :
    update (fun env => (change env).map k) m = (.error e, m) := by
  unfold update
  dsimp only
  rw [h]
  rfl

end

end Run

end HostLisp
