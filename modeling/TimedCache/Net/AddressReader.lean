import TimedCache.Net.Address
import TimedCache.Text.Numeral

/-!
# Reading addresses

Octets are one to three decimal digits without leading zeros; groups are one to four
hexadecimal digits. Two colons stand for at least one zero group and occur at most once;
the last two groups may be written as a short address. A whole text is an address only if
nothing is left over.
-/

namespace TimedCache.Address

open TimedCache.Text

/-- A number of at most `width` digits below `bound` at the start of a text. -/
def readNumber (base width bound : Nat) (leadingZeros : Bool) (cs : List Char) :
    Option (Nat × List Char) :=
  let (digits, rest) := spanDigits base cs
  let n := ofDigits base bound digits
  if digits.isEmpty || width < digits.length || bound ≤ n then none
  else if !leadingZeros && digits.head? == some 0 && 1 < digits.length then none
  else some (n, rest)

/-- The text after a character that must come first. -/
def expect (c : Char) : List Char → Option (List Char)
  | d :: rest => if c = d then some rest else none
  | [] => none

/-- The remaining `count` octets, each after a point. -/
def readOctets : Nat → List Char → Option (List Nat × List Char)
  | 0, cs => some ([], cs)
  | count + 1, cs => do
    let cs ← expect '.' cs
    let (octet, cs) ← readNumber 10 3 256 false cs
    let (octets, cs) ← readOctets count cs
    some (octet :: octets, cs)

/-- Four octets with points between them. -/
def readShort (cs : List Char) : Option (List Nat × List Char) := do
  let (octet, cs) ← readNumber 10 3 256 false cs
  let (octets, cs) ← readOctets 3 cs
  some (octet :: octets, cs)

/-- The text after the colon that every group but the first needs. -/
def afterColon (first : Bool) (cs : List Char) : Option (List Char) :=
  if first then some cs else expect ':' cs

/-- Two groups written as a short address. -/
def readShortGroups (first : Bool) (cs : List Char) : Option (List Nat × List Char) := do
  let cs ← afterColon first cs
  let (octets, cs) ← readShort cs
  match octets with
  | [a, b, c, d] => some ([a * 256 + b, c * 256 + d], cs)
  | _ => none

/-- One group in hexadecimal digits. -/
def readGroup (first : Bool) (cs : List Char) : Option (Nat × List Char) := do
  let cs ← afterColon first cs
  readNumber 16 4 65536 true cs

/-- As many groups as there are, up to a limit; a short address ends them. The flag tells
whether one did. -/
def readGroups : Nat → Bool → List Char → List Nat × Bool × List Char
  | 0, _, cs => ([], false, cs)
  | room + 1, first, cs =>
    match (if 1 ≤ room then readShortGroups first cs else none) with
    | some (pair, rest) => (pair, true, rest)
    | none =>
      match readGroup first cs with
      | none => ([], false, cs)
      | some (group, rest) =>
        let (groups, short, rest) := readGroups room false rest
        (group :: groups, short, rest)

/-- A long address at the start of a text. -/
def readLong (cs : List Char) : Option (Address × List Char) :=
  let (front, short, rest) := readGroups 8 true cs
  if front.length = 8 then some (ofGroups front, rest)
  else if short then none
  else do
    let rest ← expect ':' rest
    let rest ← expect ':' rest
    let (back, _, rest) := readGroups (7 - front.length) true rest
    let zeros := List.replicate (8 - front.length - back.length) 0
    some (ofGroups (front ++ zeros ++ back), rest)

/-- The address that the whole text writes. -/
def ofText? (s : String) : Option Address :=
  match readShort s.toList with
  | some (octets, []) => some (ofOctets octets)
  | _ =>
    match readLong s.toList with
    | some (a, []) => some a
    | _ => none

end TimedCache.Address

namespace TimedCache.Endpoint

open TimedCache.Address

/-- A colon and a port number at the end of a text. -/
def readPort (cs : List Char) : Option Nat := do
  let cs ← expect ':' cs
  let (port, rest) ← readNumber 10 cs.length 65536 true cs
  if rest.isEmpty then some port else none

/-- The scope number after a percent sign, zero if there is none. -/
def readScope (cs : List Char) : Option (Nat × List Char) :=
  match cs with
  | '%' :: rest => readNumber 10 rest.length 4294967296 true rest
  | _ => some (0, cs)

/-- The endpoint that the whole text writes. -/
def ofText? (s : String) : Option Endpoint :=
  match readShort s.toList with
  | some (octets, rest) => (readPort rest).map fun port => { address := ofOctets octets, port }
  | none => do
    let cs ← expect '[' s.toList
    let (address, cs) ← readLong cs
    let (scope, cs) ← readScope cs
    let cs ← expect ']' cs
    let port ← readPort cs
    some { address, port, scope }

end TimedCache.Endpoint
