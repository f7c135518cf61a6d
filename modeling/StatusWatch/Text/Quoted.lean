import StatusWatch.Text.Hidden

/-!
# Quoted text

How a text is shown inside a message: between double quotes, with a backslash
before a quote or backslash, a letter escape for the common controls, and
`\u` with the hexadecimal code point for every other character that would not be
visible on its own. An apostrophe stays as it is.

- `escapeChar`: what one character becomes.
- `quoted`: the whole text in quotes.
-/

namespace StatusWatch.Text

/-- The hexadecimal code point of `c` as a braced escape. -/
def codePointEscape (c : Char) : List Char :=
  ['\\', 'u', '\x7b'] ++ Nat.toDigits 16 c.toNat ++ ['\x7d']

/-- What one character of a quoted text is written as. -/
def escapeChar (c : Char) : List Char :=
  if c = '"' then ['\\', '"']
  else if c = '\\' then ['\\', '\\']
  else if c = '\n' then ['\\', 'n']
  else if c = '\r' then ['\\', 'r']
  else if c = '\t' then ['\\', 't']
  else if c = '\x00' then ['\\', '0']
  else if c.toNat < 0x20 then codePointEscape c
  else if c.toNat < 0x7f then [c]
  else if isHidden c then codePointEscape c
  else [c]

/-- The text between double quotes, with everything that could be misread escaped. -/
def quoted (s : String) : String :=
  String.ofList ('"' :: (s.toList.flatMap escapeChar ++ ['"']))

end StatusWatch.Text
