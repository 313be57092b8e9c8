import HostLisp.Text.Graphic

/-!
# Quoted text

A text between delimiters, with what cannot be shown as it is written as an escape: a backslash,
the delimiter, the usual control characters by a letter, and every other character without a shape
of its own by its code point, `\u{…}`.
-/

namespace HostLisp.Text

/-- One character inside `delimiter`s. -/
def quotedChar (delimiter c : Char) : List Char :=
  if c = '\\' then ['\\', '\\']
  else if c = '\n' then ['\\', 'n']
  else if c = '\r' then ['\\', 'r']
  else if c = '\t' then ['\\', 't']
  else if c = Char.ofNat 0 then ['\\', '0']
  else if c = delimiter then ['\\', c]
  else if isShown c then [c]
  else ['\\', 'u', '{'] ++ Nat.toDigits 16 c.toNat ++ ['}']

/-- A text between `delimiter`s. -/
def quoted (delimiter : Char) (cs : List Char) : List Char :=
  delimiter :: (cs.flatMap (quotedChar delimiter) ++ [delimiter])

/-- A text between double quotes. -/
def quotedString (s : String) : String := String.ofList (quoted '"' s.toList)

end HostLisp.Text
