import HostLisp.Value

/-!
# Values of a type

Nil belongs to the optional types and to no other, `any` included.  Every other value belongs to a
type if it is of its kind.
-/

namespace HostLisp

mutual
/-- `v` may be stored where `ty` is asked for. -/
def Ty.admits : Ty → Value → Bool
  | ⟨_, optional⟩, .nil => optional
  | ⟨kind, _⟩, v => kind.admits v
/-- `v`, which is not nil, is of this kind. -/
def Kind.admits : Kind → Value → Bool
  | .any, _ => true
  | .bool, .bool _ | .int, .int _ | .float, .float _ | .string, .string _ | .time, .time _
  | .duration, .duration _ | .atom, .atom _ | .list, .list _ | .quote, .quote _ => true
  | .slice element, .list items => items.all element.admits
  | .alias name, .host object => object.typeName == name
  | _, _ => false
end

end HostLisp
