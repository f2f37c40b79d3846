/-!
# Percent-encoded path segments

A percent sign and two hexadecimal digits stand for one byte; a percent sign that is not
followed by two such digits stands for itself. The bytes must then be UTF-8. A plus sign
has no special meaning in a path.
-/

namespace TimedCache.Text.Percent

/-- The value of a hexadecimal digit. -/
def hexValue? (b : UInt8) : Option UInt8 :=
  if 48 ≤ b && b ≤ 57 then some (b - 48)
  else if 97 ≤ b && b ≤ 102 then some (b - 87)
  else if 65 ≤ b && b ≤ 70 then some (b - 55)
  else none

/-- The bytes that percent-encoded bytes stand for. -/
def decodeBytes : List UInt8 → List UInt8
  | [] => []
  | [a] => [a]
  | [a, b] => [a, b]
  | a :: b :: c :: rest =>
    if a = 37 then
      match hexValue? b, hexValue? c with
      | some h, some l => (h * 16 + l) :: decodeBytes rest
      | _, _ => a :: decodeBytes (b :: c :: rest)
    else a :: decodeBytes (b :: c :: rest)

/-- The text that a percent-encoded segment stands for, if its bytes are UTF-8. -/
def decode? (segment : String) : Option String :=
  String.fromUTF8? (decodeBytes segment.toUTF8.toList).toByteArray

end TimedCache.Text.Percent
