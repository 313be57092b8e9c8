import HostLisp.Error
import HostLisp.Reader

/-!
# Environments

An environment is a stack of frames that bind names, and an arena of cells that hold the contents of
variables.  Looking a name up goes from the innermost frame outwards.  A frame remembers how many
cells there were when it was pushed, so popping it releases exactly the cells made since.

Bindings are kept as a list of pairs in which a name occurs at most once:

    find?_insert : (bs.insert n b).find? m = if m = n then some b else bs.find? m.
-/

namespace HostLisp

/-! ### Named things -/

/-- Pairs of a name and what it stands for. -/
abbrev Names (α : Type) := List (String × α)

namespace Names

variable {α : Type}

/-- What a name stands for. -/
def find? (ns : Names α) (name : String) : Option α := ns.lookup name

/-- Lets a name stand for something, whatever it stood for before. -/
def insert (ns : Names α) (name : String) (a : α) : Names α :=
  (name, a) :: ns.filter fun e => e.1 != name

/-- The pairs by name, in the order of the characters' code points. -/
def sorted (ns : Names α) : Names α := ns.mergeSort fun a b => decide (a.1 ≤ b.1)

@[simp] theorem find?_nil (name : String) : find? ([] : Names α) name = none := rfl

theorem find?_filter_ne (ns : Names α) {m n : String} (h : m ≠ n) :
    find? (ns.filter fun e => e.1 != n) m = find? ns m := by
  induction ns with
  | nil => rfl
  | cons e ns ih =>
    obtain ⟨k, a⟩ := e
    simp only [find?] at ih ⊢
    by_cases hk : k = n
    · subst hk
      have hb : (m == k) = false := beq_eq_false_iff_ne.2 h
      simp [List.lookup_cons, hb, ih]
    · by_cases hm : m = k <;> simp [List.lookup_cons, hk, hm, ih]

theorem find?_insert (ns : Names α) (m n : String) (a : α) :
    find? (insert ns n a) m = if m = n then some a else find? ns m := by
  by_cases h : m = n
  · simp [find?, insert, h]
  · have := find?_filter_ne ns h
    simp only [find?] at this
    have hb : (m == n) = false := beq_eq_false_iff_ne.2 h
    simp [find?, insert, List.lookup_cons, h, hb, this]

end Names

/-! ### Frames and cells -/

/-- The contents of a variable. A cell keeps the name and the type it was made with. -/
structure Cell where
  name : String
  ty : Ty
  value : Value

/-- Bindings of one scope, and the number of cells when it was entered. -/
structure Frame where
  bindings : Names Binding := []
  firstCell : Nat := 0

/-- Scopes, innermost first, and the cells of all of them. -/
structure Environment where
  innermost : Frame := {}
  enclosing : List Frame := []
  cells : List Cell := []

namespace Environment

/-- An environment with one frame that binds nothing. -/
def empty : Environment := {}

/-- All frames, innermost first. -/
def frames (env : Environment) : List Frame := env.innermost :: env.enclosing

/-- The number of frames. -/
def frameCount (env : Environment) : Nat := env.frames.length

/-! ### Looking names up -/

/-- What the innermost frame that binds the name binds it to. -/
def get? (env : Environment) (name : String) : Option Binding :=
  env.frames.findSome? fun f => f.bindings.find? name

/-- The parts of a name in front of its first point and behind it. -/
def splitMember? (name : String) : Option (String × String) :=
  match name.toList.dropWhile (· ≠ '.') with
  | [] => none
  | _ :: member => some (String.ofList (name.toList.takeWhile (· ≠ '.')), String.ofList member)

/-- What a name is bound to; a name that no frame binds may be a member of a toolkit. -/
def lookup (env : Environment) (name : String) : Option Binding :=
  match env.get? name with
  | some b => some b
  | none =>
    match splitMember? name with
    | none => none
    | some (kit, member) =>
      match env.get? kit with
      | some (.toolkit kit) => (Names.find? kit.members member).map .value
      | _ => none

/-- Every name bound in some frame, with what it is bound to, in the order of the names. -/
def allBindings (env : Environment) : Names Binding :=
  Names.sorted <|
    env.frames.foldr (fun f ns => f.bindings.foldl (fun ns (n, b) => ns.insert n b) ns) []

/-! ### Binding names -/

/-- Binds a name in the innermost frame. -/
def define (env : Environment) (name : String) (b : Binding) : Environment :=
  { env with
    innermost := { env.innermost with bindings := Names.insert env.innermost.bindings name b } }

/-- Binds a name to a value. -/
def defineValue (env : Environment) (name : String) (v : Value) : Environment :=
  env.define name (.value v)

/-- Makes a name the name of a type. -/
def defineType (env : Environment) (name : String) (ty : Ty) : Environment :=
  env.define name (.type ty)

/-- Binds a toolkit under its own name. -/
def registerToolkit (env : Environment) (kit : Toolkit) : Environment :=
  env.define kit.name (.toolkit kit)

/-! ### Variables -/

/-- The cell behind a handle, unless it has been released. -/
def cell? (env : Environment) (h : Handle) : Option Cell := env.cells[h.index]?

/-- The contents of a variable. -/
def var? (env : Environment) (h : Handle) : Option Value := (env.cell? h).map Cell.value

/-- The type of a variable. -/
def varType? (env : Environment) (h : Handle) : Option Ty := (env.cell? h).map Cell.ty

/-- Makes a cell without binding a name to it. -/
def newVar (env : Environment) (name : String) (ty : Ty) (v : Value) :
    Except Error (Handle × Environment) := do
  checkFormal name ty v
  return (⟨env.cells.length⟩, { env with cells := env.cells ++ [⟨name, ty, v⟩] })

/-- Makes a cell and binds the name to it in the innermost frame. -/
def defineVar (env : Environment) (name : String) (ty : Ty) (v : Value) :
    Except Error (Handle × Environment) := do
  let (h, env) ← env.newVar name ty v
  return (h, env.define name (.var h))

/-- Replaces the contents of a variable; its type still holds. -/
def setVar (env : Environment) (h : Handle) (v : Value) : Except Error Environment := do
  match env.cell? h with
  | none => throw (.ofFailure .deadHandle)
  | some cell =>
    checkFormal cell.name cell.ty v
    return { env with cells := env.cells.set h.index { cell with value := v } }

/-! ### Scopes -/

/-- Enters a scope. -/
def pushFrame (env : Environment) : Environment where
  innermost := { bindings := [], firstCell := env.cells.length }
  enclosing := env.frames
  cells := env.cells

/-- Leaves a scope and releases its cells; the outermost scope cannot be left. -/
def popFrame (env : Environment) : Environment :=
  match env.enclosing with
  | [] => env
  | f :: fs =>
    { innermost := f, enclosing := fs, cells := env.cells.take env.innermost.firstCell }

/-- The environment of an activation: the captured bindings, and no cells. -/
def ofCaptured (captured : Names Binding) : Environment where
  innermost := { bindings := captured }

/-! ### What the operations do -/

@[simp] theorem cells_define (env : Environment) (name : String) (b : Binding) :
    (env.define name b).cells = env.cells := rfl

@[simp] theorem frameCount_define (env : Environment) (name : String) (b : Binding) :
    (env.define name b).frameCount = env.frameCount := rfl

@[simp] theorem cells_pushFrame (env : Environment) : env.pushFrame.cells = env.cells := rfl

@[simp] theorem frameCount_pushFrame (env : Environment) :
    env.pushFrame.frameCount = env.frameCount + 1 := rfl

/-- Entering a scope and leaving it at once changes nothing. -/
@[simp] theorem popFrame_pushFrame (env : Environment) : env.pushFrame.popFrame = env := by
  obtain ⟨innermost, enclosing, cells⟩ := env
  simp [pushFrame, popFrame, frames]

/-- The last definition of a name in the innermost frame is what it stands for. -/
theorem get?_define (env : Environment) (m n : String) (b : Binding) :
    (env.define n b).get? m = if m = n then some b else env.get? m := by
  by_cases h : m = n <;> simp [get?, frames, define, List.findSome?_cons, Names.find?_insert, h]

/-- A new scope binds nothing, so every name stands for what it stood for. -/
theorem get?_pushFrame (env : Environment) (name : String) :
    env.pushFrame.get? name = env.get? name := by
  simp [get?, frames, pushFrame, List.findSome?_cons]

/-- A cell is made exactly when its type admits its contents, and goes to the end. -/
theorem newVar_eq_ok_iff {env env' : Environment} {name : String} {ty : Ty} {v : Value}
    {h : Handle} :
    env.newVar name ty v = .ok (h, env') ↔
      ty.admits v = true ∧ h = ⟨env.cells.length⟩ ∧
        env' = { env with cells := env.cells ++ [⟨name, ty, v⟩] } := by
  unfold newVar checkFormal
  split
  · next ha => simp [ha, bind, Except.bind, pure, Except.pure, eq_comm]
  · next ha => simp [ha, bind, Except.bind]

/-! ### Reading with an environment -/

/-- The dialect that knows the types an environment names. -/
def dialect (env : Environment) : Reader.Dialect where
  members := true
  named name :=
    match env.lookup name with
    | some (.type ty) => .known ty
    | some _ => .other
    | none => .unknown

end Environment

end HostLisp
