/-!
# Compact JSON text

The values that answers are made of, and their text without any blank. Quote, backslash
and five control characters have short escapes, the other control characters are written
as four lower-case hexadecimal digits, and every other character stands for itself.
-/

namespace TimedCache

/-- A JSON value as answers use them: numbers are natural, members keep their order. -/
inductive Json where
  | number (n : Nat)
  | string (s : String)
  | record (members : List (String × Json))

namespace Json

/-- A hexadecimal digit in lower case. -/
def hexDigit (n : Nat) : Char := Nat.digitChar (n % 16)

/-- How one character is written inside a JSON string. -/
def escapedChar (c : Char) : List Char :=
  let n := c.toNat
  if n = 34 then ['\\', c]
  else if n = 92 then ['\\', '\\']
  else if n = 8 then ['\\', 'b']
  else if n = 9 then ['\\', 't']
  else if n = 10 then ['\\', 'n']
  else if n = 12 then ['\\', 'f']
  else if n = 13 then ['\\', 'r']
  else if n < 32 then ['\\', 'u', '0', '0', hexDigit (n / 16), hexDigit n]
  else [c]

/-- A JSON string. -/
def stringText (s : String) : String :=
  "\"" ++ String.ofList (s.toList.flatMap escapedChar) ++ "\""

mutual

/-- The compact text of a value. -/
def text : Json → String
  | .number n => String.ofList (Nat.toDigits 10 n)
  | .string s => stringText s
  | .record members => "\x7b" ++ ",".intercalate (memberTexts members) ++ "\x7d"

/-- The texts of the members of a record. -/
def memberTexts : List (String × Json) → List String
  | [] => []
  | (name, value) :: rest => (stringText name ++ ":" ++ value.text) :: memberTexts rest

end

end Json

end TimedCache
