import HostLisp.Text.CharClass

/-!
# White space

The characters that separate tokens: the Unicode property White_Space.  Names, numbers and type
keywords end at any of them, while only the four ASCII ones may be skipped between nodes.
-/

namespace HostLisp.Text

/-- The characters with the property White_Space. -/
def blankClass : CharClass where
  ranges := [
    (0x9, 0xD), (0x20, 0x20), (0x85, 0x85), (0xA0, 0xA0), (0x1680, 0x1680), (0x2000, 0x200A),
    (0x2028, 0x2029), (0x202F, 0x202F), (0x205F, 0x205F), (0x3000, 0x3000)]

/-- A white-space character. -/
def isBlank (c : Char) : Bool := blankClass.has c

theorem isBlank_of_isWhitespace {c : Char} (h : c.isWhitespace = true) : isBlank c = true := by
  simp only [Char.isWhitespace, Bool.or_eq_true, decide_eq_true_eq] at h
  rcases h with ((rfl | rfl) | rfl) | rfl <;> decide

end HostLisp.Text
