import HostLisp.Eval
import HostLisp.Toolkit.Time

/-!
# The global environment

Every name of a built-in operation is bound to a native of its own, and the time toolkit is there.
-/

namespace HostLisp

/-- The native behind one name of a built-in operation. -/
def Builtin.native (op : Builtin) (name : String) : Native := ⟨name, .builtin op⟩

namespace Environment

/-- An environment with all built-in operations. -/
def withBuiltins : Environment :=
  Builtin.registry.foldl
    (fun env op => op.names.foldl (fun env n => env.defineValue n (.native (op.native n))) env)
    empty

/-- The environment a program starts in. The identity 0 is that of `time.now`. -/
def global : Environment := withBuiltins.registerToolkit (Toolkit.Time.kit 0)

end Environment

/-- A machine in the global environment. -/
def Machine.global (now : Instant) : Machine where
  env := Environment.global
  world := { now }

/-- A machine in an environment that binds nothing. -/
def Machine.bare (now : Instant) : Machine where
  env := Environment.empty
  world := { now }

end HostLisp
