/-!
# Inputs of parsers

An input is something whose items can be taken from the front, one by one.  Two are provided: a
list, of which only the unread rest matters, and a `Cursor`, which also counts the items taken.
-/

namespace HostLisp.Parsing

/-- Inputs `ι` made of items `τ`. -/
class Input (ι : Type) (τ : outParam Type) where
  /-- The first item and the input behind it. -/
  next? : ι → Option (τ × ι)
  /-- How much is left; taking an item leaves less. -/
  remaining : ι → Nat
  remaining_lt : ∀ {i r : ι} {t : τ}, next? i = some (t, r) → remaining r < remaining i

/-- The errors that parsers of inputs `ι` have to be able to make. -/
class InputError (ι ε : Type) where
  /-- An item was needed where the input ends. -/
  endOfInput : ι → ε
  /-- The input should have ended here. -/
  trailing : ι → ε
  /-- The next item is not accepted. -/
  unexpected : ι → ε

/-- The first item of a list and the rest. -/
def uncons? {α : Type} : List α → Option (α × List α)
  | [] => none
  | a :: as => some (a, as)

instance {α : Type} : Input (List α) α where
  next? := uncons?
  remaining := List.length
  remaining_lt {i r t} h := by
    cases i with
    | nil => cases h
    | cons a as => cases h; simp

/-- The unread items of a list together with the number of items already taken. -/
structure Cursor (α : Type) where
  taken : Nat
  rest : List α
deriving DecidableEq

namespace Cursor

variable {α : Type}

/-- A cursor in front of all items. -/
def ofList (items : List α) : Cursor α := ⟨0, items⟩

/-- The first unread item and the cursor behind it. -/
def next? : Cursor α → Option (α × Cursor α)
  | ⟨_, []⟩ => none
  | ⟨n, a :: as⟩ => some (a, ⟨n + 1, as⟩)

instance : Input (Cursor α) α where
  next? := next?
  remaining c := c.rest.length
  remaining_lt {i r t} h := by
    obtain ⟨n, _ | ⟨a, as⟩⟩ := i
    · cases h
    · cases h; simp

end Cursor

/-! ### What the inputs do -/

section
variable {α : Type}

@[simp] theorem next?_nil : Input.next? ([] : List α) = none := rfl

@[simp] theorem next?_cons (a : α) (as : List α) : Input.next? (a :: as) = some (a, as) := rfl

@[simp] theorem remaining_list (as : List α) : Input.remaining as = as.length := rfl

@[simp] theorem next?_cursor_nil (n : Nat) :
    Input.next? (⟨n, []⟩ : Cursor α) = none := rfl

@[simp] theorem next?_cursor_cons (n : Nat) (a : α) (as : List α) :
    Input.next? (⟨n, a :: as⟩ : Cursor α) = some (a, ⟨n + 1, as⟩) := rfl

@[simp] theorem remaining_cursor (c : Cursor α) : Input.remaining c = c.rest.length := rfl

end

end HostLisp.Parsing
