import TimedCache.Text.Unprintable

/-!
# Quoted text

Text in double quotes as diagnostic output writes it: the quote, the backslash and four
control characters have short escapes, other characters without a glyph of their own are
written by their hexadecimal code point, and everything else stands for itself.
-/

namespace TimedCache.Text

/-- The hexadecimal escape of a code point. -/
def codePointEscape (c : Char) : List Char :=
  ['\\', 'u', '\x7b'] ++ Nat.toDigits 16 c.toNat ++ ['\x7d']

/-- How one character is written between quotes. -/
def quotedChar (c : Char) : List Char :=
  if c.toNat = 0 then ['\\', '0']
  else if c = '\t' then ['\\', 't']
  else if c = '\n' then ['\\', 'n']
  else if c = '\r' then ['\\', 'r']
  else if c.toNat = 34 then ['\\', c]
  else if c = '\\' then ['\\', '\\']
  else if 32 ≤ c.toNat && c.toNat < 127 then [c]
  else if isUnprintable c then codePointEscape c
  else [c]

/-- Text in double quotes. -/
def quoted (s : String) : String :=
  "\"" ++ String.ofList (s.toList.flatMap quotedChar) ++ "\""

end TimedCache.Text
