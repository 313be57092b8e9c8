/-!
# Arities

How many arguments a callable takes.
-/

namespace HostLisp

/-- A condition on a number of arguments. -/
inductive Arity where
  | exactly (n : Nat)
  | atLeast (n : Nat)
  | any
deriving DecidableEq, Repr

namespace Arity

/-- `count` arguments are allowed. -/
def accepts (arity : Arity) (count : Nat) : Bool :=
  match arity with
  | exactly n => count = n
  | atLeast n => n ≤ count
  | any => true

/-- The condition in words. -/
def text : Arity → String
  | exactly n => toString n
  | atLeast n => "at least " ++ toString n
  | any => "any number of"

end Arity

end HostLisp
