import HostLisp.Environment

/-!
# Toolkits

A toolkit is built up member by member; a member added again replaces the one before.  Natives in a
toolkit have the toolkit's name in their id.
-/

namespace HostLisp.Toolkit

/-- A toolkit without members. -/
def named (name : String) : Toolkit := ⟨name, []⟩

/-- The member with this name. -/
def get? (kit : Toolkit) (member : String) : Option Value := Names.find? kit.members member

/-- Adds a value. -/
def withValue (kit : Toolkit) (member : String) (v : Value) : Toolkit :=
  { kit with members := Names.insert kit.members member v }

/-- The id of a native in the toolkit. -/
def qualified (kit : Toolkit) (member : String) : String := kit.name ++ "." ++ member

/-- Adds a native. -/
def withNative (kit : Toolkit) (member : String) (body : Callable) : Toolkit :=
  kit.withValue member (.native ⟨kit.qualified member, body⟩)

/-- The number of members. -/
def size (kit : Toolkit) : Nat := kit.members.length

/-- The names of the members, in order. -/
def memberNames (kit : Toolkit) : List String := (Names.sorted kit.members).map (·.1)

end HostLisp.Toolkit
