/-!
# Escapes in literals

Inside a string or character literal a backslash, the delimiter and three control characters are
written with a backslash.  A reader also knows the other delimiter's escape.  Undoing an escape
gives the character it was made for:

    unescape?_of_escaped : escaped d c = ['\\', e] → unescape? e = some c   (for a quote d).
-/

namespace HostLisp.Text

/-- A character of a literal between `delimiter`s. -/
def escaped (delimiter c : Char) : List Char :=
  if c = '\\' then ['\\', '\\']
  else if c = '\n' then ['\\', 'n']
  else if c = '\t' then ['\\', 't']
  else if c = '\r' then ['\\', 'r']
  else if c = delimiter then ['\\', c]
  else [c]

/-- The character meant by a backslash and this letter. -/
def unescape? : Char → Option Char
  | 'n' => some '\n'
  | 'r' => some '\r'
  | 't' => some '\t'
  | '"' => some '"'
  | '\'' => some '\''
  | '\\' => some '\\'
  | _ => none

theorem unescape?_of_escaped {d c e : Char} (hd : d = '"' ∨ d = '\'')
    (h : escaped d c = ['\\', e]) : unescape? e = some c := by
  unfold escaped at h
  split at h
  · next hc => cases h; subst hc; rfl
  split at h
  · next hc => cases h; subst hc; rfl
  split at h
  · next hc => cases h; subst hc; rfl
  split at h
  · next hc => cases h; subst hc; rfl
  split at h
  · next hc =>
    cases h
    subst hc
    rcases hd with rfl | rfl <;> rfl
  · simp at h

end HostLisp.Text
