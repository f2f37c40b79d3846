import TimedCache.Numeric.Binary64
import TimedCache.Numeric.Word
import TimedCache.Text.Numeral

/-!
# Scanning JSON

The tokens of a JSON text, read off its bytes from left to right. A text is either
malformed, or well formed so far but of the wrong shape; which of the two is found first
decides. Text that is read must be valid UTF-8 with paired surrogate escapes, while text
that is skipped need not be.
-/

namespace TimedCache.Json

/-- What is wrong with a JSON text. -/
inductive Defect where
  /-- The text is not JSON, or ends too early. -/
  | malformed
  /-- The text is JSON so far, but not of the shape that is wanted. -/
  | shape
deriving DecidableEq, Repr

/-- The bytes that are still to be read. -/
abbrev Input := List UInt8

/-- Something read off the front of the input, and what is left. -/
abbrev Scanned (α : Type) := α × Input

/-- Blank, line feed, carriage return and tab. -/
def isSpace (b : UInt8) : Bool := b == 32 || b == 10 || b == 13 || b == 9

/-- The input from the first byte on that is not white space. -/
def skipSpace (input : Input) : Input := input.dropWhile isSpace

def quote : UInt8 := 34
def comma : UInt8 := 44
def minus : UInt8 := 45
def colon : UInt8 := 58
def openBracket : UInt8 := 91
def backslash : UInt8 := 92
def closeBracket : UInt8 := 93
def openBrace : UInt8 := 123
def closeBrace : UInt8 := 125

/-- A decimal digit. -/
def isDigit (b : UInt8) : Bool := 48 ≤ b && b ≤ 57

/-- The value of a hexadecimal digit. -/
def hexValue? (b : UInt8) : Option Nat :=
  if isDigit b then some (b.toNat - 48)
  else if 97 ≤ b && b ≤ 102 then some (b.toNat - 87)
  else if 65 ≤ b && b ≤ 70 then some (b.toNat - 55)
  else none

/-- Reads the rest of one of the three words. -/
def scanWord : (rest : List UInt8) → Input → Except Defect Input
  | [], input => .ok input
  | _ :: _, [] => .error .malformed
  | w :: ws, b :: input => if w = b then scanWord ws input else .error .malformed

/-! ## Strings -/

/-- Where a scan stands inside a string. -/
inductive StringState where
  | plain
  /-- After a backslash. -/
  | escape
  /-- Inside a hexadecimal escape, possibly the second half of a surrogate pair. -/
  | hex (missing value : Nat) (lead : Option Nat)
  /-- After the first half of a surrogate pair, before the backslash of the second. -/
  | pair (lead : Nat)
  /-- After that backslash. -/
  | pairEscape (lead : Nat)
deriving DecidableEq, Repr

/-- The byte that a one-letter escape stands for. -/
def shortEscape? (b : UInt8) : Option UInt8 :=
  if b = quote || b = backslash || b = 47 then some b
  else if b = 98 then some 8
  else if b = 102 then some 12
  else if b = 110 then some 10
  else if b = 114 then some 13
  else if b = 116 then some 9
  else none

/-- The UTF-8 bytes of a code point, the last one first. -/
def utf8Reversed (n : Nat) : List UInt8 := (String.utf8EncodeChar (Char.ofNat n)).reverse

/-- What a completed hexadecimal escape leads to: the next state and the bytes it adds. -/
def completeEscape (value : Nat) (lead : Option Nat) : Except Defect (StringState × List UInt8) :=
  let isLead := 0xd800 ≤ value && value < 0xdc00
  let isTrail := 0xdc00 ≤ value && value < 0xe000
  match lead with
  | some high =>
    if isTrail then
      .ok (.plain, utf8Reversed (0x10000 + (high - 0xd800) * 0x400 + (value - 0xdc00)))
    else .error .malformed
  | none =>
    if isTrail then .error .malformed
    else if isLead then .ok (.pair value, [])
    else .ok (.plain, utf8Reversed value)

/-- One byte inside a string that is read: the next state and the bytes it adds. -/
def stepString (state : StringState) (b : UInt8) : Except Defect (StringState × List UInt8) :=
  match state with
  | .plain =>
    if b = backslash then .ok (.escape, [])
    else if b < 32 then .error .malformed
    else .ok (.plain, [b])
  | .escape =>
    match shortEscape? b with
    | some byte => .ok (.plain, [byte])
    | none => if b = 117 then .ok (.hex 4 0 none, []) else .error .malformed
  | .hex missing value lead =>
    match hexValue? b with
    | none => .error .malformed
    | some digit =>
      let value := value * 16 + digit
      if missing ≤ 1 then completeEscape value lead else .ok (.hex (missing - 1) value lead, [])
  | .pair lead => if b = backslash then .ok (.pairEscape lead, []) else .error .malformed
  | .pairEscape lead => if b = 117 then .ok (.hex 4 0 (some lead), []) else .error .malformed

/-- The bytes up to the closing quote with their escapes resolved; `read` holds those read
so far, the last one first. -/
def scanStringBytes (state : StringState) (read : List UInt8) :
    Input → Except Defect (Scanned (List UInt8))
  | [] => .error .malformed
  | b :: rest =>
    if state = .plain && b = quote then .ok (read.reverse, rest)
    else
      match stepString state b with
      | .error d => .error d
      | .ok (state, bytes) => scanStringBytes state (bytes ++ read) rest

/-- The string after an opening quote. -/
def scanString (input : Input) : Except Defect (Scanned String) :=
  match scanStringBytes .plain [] input with
  | .error d => .error d
  | .ok (bytes, rest) =>
    match String.fromUTF8? bytes.toByteArray with
    | some s => .ok (s, rest)
    | none => .error .malformed

/-- One byte inside a string that is skipped: escapes must be complete, but need not stand
for characters. -/
def stepSkippedString (state : StringState) (b : UInt8) : Except Defect StringState :=
  match state with
  | .hex missing _ _ =>
    match hexValue? b with
    | none => .error .malformed
    | some _ => .ok (if missing ≤ 1 then .plain else .hex (missing - 1) 0 none)
  | state => (stepString state b).map Prod.fst

/-- Skips to the end of a string. -/
def skipString (state : StringState) : Input → Except Defect Input
  | [] => .error .malformed
  | b :: rest =>
    if state = .plain && b = quote then .ok rest
    else
      match stepSkippedString state b with
      | .error d => .error d
      | .ok state => skipString state rest

/-! ## Numbers -/

/-- A number as it is written: its digits and, if there is one, its exponent. -/
structure Numeral where
  negative : Bool
  whole : List Nat
  decimals : Option (List Nat)
  exponent : Option Int
deriving DecidableEq, Repr

/-- The digits at the front of the input; `read` holds those read so far, the last one first. -/
def scanDigits (read : List Nat) : Input → List Nat × Input
  | [] => (read.reverse, [])
  | b :: rest =>
    if isDigit b then scanDigits ((b.toNat - 48) :: read) rest else (read.reverse, b :: rest)

/-- At least one digit. -/
def scanSomeDigits (input : Input) : Except Defect (Scanned (List Nat)) :=
  match scanDigits [] input with
  | ([], _) => .error .malformed
  | (digits, rest) => .ok (digits, rest)

/-- The digits before the point: a zero must stand alone. -/
def scanWhole (input : Input) : Except Defect (Scanned (List Nat)) := do
  let (digits, rest) ← scanSomeDigits input
  if digits.head? = some 0 && 1 < digits.length then .error .malformed else .ok (digits, rest)

/-- The point and the digits after it, if there is a point. -/
def scanDecimals : Input → Except Defect (Scanned (Option (List Nat)))
  | 46 :: rest => do
    let (digits, rest) ← scanSomeDigits rest
    .ok (some digits, rest)
  | input => .ok (none, input)

/-- The sign at the front of an exponent. -/
def scanExponentSign : Input → Bool × Input
  | 43 :: rest => (false, rest)
  | 45 :: rest => (true, rest)
  | input => (false, input)

/-- The largest exponent that is told apart: the places of no text can make up for it. -/
def largestExponent : Nat := 2147483648

/-- The exponent, if there is one. -/
def scanExponent : Input → Except Defect (Scanned (Option Int))
  | [] => .ok (none, [])
  | b :: rest =>
    if b = 101 || b = 69 then do
      let (negative, rest) := scanExponentSign rest
      let (digits, rest) ← scanSomeDigits rest
      let n : Int := Text.ofDigits 10 largestExponent digits
      .ok (some (if negative then -n else n), rest)
    else .ok (none, b :: rest)

/-- A number after its sign. -/
def scanNumeral (negative : Bool) (input : Input) : Except Defect (Scanned Numeral) := do
  let (whole, rest) ← scanWhole input
  let (decimals, rest) ← scanDecimals rest
  let (exponent, rest) ← scanExponent rest
  .ok ({ negative, whole, decimals, exponent }, rest)

/-- A number read so far: the digits kept, the power of ten they are to be multiplied by,
and whether all digits were kept. -/
structure Magnitude where
  significand : Nat := 0
  power : Int := 0
  exact : Bool := true

/-- Takes in a digit before the point. From the first digit on that would make the
significand too long for a word, digits only count as places. -/
def Magnitude.pushWhole (m : Magnitude) (d : Nat) : Magnitude :=
  if m.exact && m.significand * 10 + d < Word.bound then
    { m with significand := m.significand * 10 + d }
  else { m with power := m.power + 1, exact := false }

/-- Takes in the digits after the point, up to the first that would make the significand
too long for a word. -/
def Magnitude.pushDecimals (m : Magnitude) : List Nat → Magnitude
  | [] => m
  | d :: rest =>
    if m.significand * 10 + d < Word.bound then
      { m with significand := m.significand * 10 + d, power := m.power - 1 }.pushDecimals rest
    else m

/-- The value of a number if it is a word written without point and exponent; malformed if
it is too large for a double. -/
def Numeral.word? (n : Numeral) : Except Defect (Option Nat) :=
  let m := n.whole.foldl Magnitude.pushWhole {}
  if n.decimals.isNone && n.exponent.isNone && m.exact then
    .ok (if n.negative then none else some m.significand)
  else
    let m := m.pushDecimals (n.decimals.getD [])
    if Binary64.overflows m.significand (m.power + n.exponent.getD 0) then .error .malformed
    else .ok none

/-! ## Skipping values -/

/-- A list or a record whose end has not been reached. -/
inductive Frame where
  | list
  | record
deriving DecidableEq, Repr

/-- What is expected next while skipping. -/
inductive Expecting where
  | value
  /-- The first item, or the end, of the innermost frame. -/
  | first
  /-- A comma, or the end, after an item of the innermost frame. -/
  | more
deriving DecidableEq, Repr

/-- Skips a value that is no list or record and starts with the given byte. -/
def skipScalar (b : UInt8) (rest : Input) : Except Defect Input :=
  if b = 110 then scanWord [117, 108, 108] rest
  else if b = 116 then scanWord [114, 117, 101] rest
  else if b = 102 then scanWord [97, 108, 115, 101] rest
  else if b = minus then (scanNumeral true rest).map Prod.snd
  else if isDigit b then (scanNumeral false (b :: rest)).map Prod.snd
  else if b = quote then skipString .plain rest
  else .error .malformed

/-- The input after a colon. -/
def scanColon (input : Input) : Except Defect Input :=
  match skipSpace input with
  | b :: rest => if b = colon then .ok rest else .error .malformed
  | [] => .error .malformed

/-- Skips a member name and its colon. -/
def skipName (input : Input) : Except Defect Input :=
  match skipSpace input with
  | b :: rest =>
    if b = quote then (skipString .plain rest).bind scanColon else .error .malformed
  | [] => .error .malformed

/-- What comes after a completed value: the end, or more of the innermost frame. -/
inductive Skipped where
  | done (rest : Input)
  | more (expecting : Expecting) (frames : List Frame) (rest : Input)

/-- What comes after a value inside the given frames. -/
def Skipped.after (frames : List Frame) (rest : Input) : Skipped :=
  if frames.isEmpty then .done rest else .more .more frames rest

/-- Starts a value at the given byte; one that is no list or record is skipped at once. -/
def skipStart (frames : List Frame) (b : UInt8) (rest : Input) : Except Defect Skipped :=
  if b = openBracket then .ok (.more .first (.list :: frames) rest)
  else if b = openBrace then .ok (.more .first (.record :: frames) rest)
  else (skipScalar b rest).map (.after frames)

/-- Starts an item of a frame at the given input, in a record behind its name. -/
def skipItem (frame : Frame) (outer : List Frame) (input : Input) : Except Defect Skipped :=
  match frame with
  | .list => .ok (.more .value (frame :: outer) input)
  | .record => (skipName input).map (.more .value (frame :: outer))

/-- One step of skipping, which reads the given byte at least. -/
def skipStep (expecting : Expecting) (frames : List Frame) (b : UInt8) (rest : Input) :
    Except Defect Skipped :=
  match expecting, frames with
  | .value, frames => skipStart frames b rest
  | _, [] => .error .malformed
  | expecting, frame :: outer =>
    let close := match frame with
      | .list => closeBracket
      | .record => closeBrace
    if b = close then .ok (.after outer rest)
    else if expecting = .more then
      if b = comma then skipItem frame outer rest else .error .malformed
    else
      match frame with
      | .list => skipStart (frame :: outer) b rest
      | .record => skipItem frame outer (b :: rest)

/-- Skips to the end of the outermost value. The frames are those still open, the innermost
first; every step reads a byte, so an input as long as the rest bounds their number. -/
def skipOpen (bound : Input) (expecting : Expecting) (frames : List Frame) (input : Input) :
    Except Defect Input :=
  match bound, skipSpace input with
  | [], _ | _, [] => .error .malformed
  | _ :: bound, b :: rest =>
    match skipStep expecting frames b rest with
    | .error d => .error d
    | .ok (.done rest) => .ok rest
    | .ok (.more expecting frames rest) => skipOpen bound expecting frames rest

/-- Skips one value of any kind. -/
def skipValue (input : Input) : Except Defect Input := skipOpen input .value [] input

end TimedCache.Json
