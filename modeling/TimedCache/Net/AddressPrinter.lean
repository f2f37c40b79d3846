import TimedCache.Net.Address

/-!
# Canonical text of addresses

Short addresses are four decimal octets. Long addresses are lower-case hexadecimal groups;
the first longest run of at least two zero groups is left out, and an address that stands
for a short one shows it in its familiar form.
-/

namespace TimedCache.Address

/-- Decimal octets with points between them. -/
def octetText (bits : BitVec 32) : String :=
  ".".intercalate ((octets bits).map fun n => String.ofList (Nat.toDigits 10 n))

/-- Hexadecimal groups with colons between them. -/
def groupText (gs : List Nat) : String :=
  ":".intercalate (gs.map fun n => String.ofList (Nat.toDigits 16 n))

/-- The length of the run of zeros at the start of a list. -/
def zeroRun : List Nat → Nat
  | 0 :: rest => zeroRun rest + 1
  | _ => 0

/-- Position and length of the first longest run of zeros, the position counted from `start`. -/
def longestZeros (start : Nat) : List Nat → Nat × Nat
  | [] => (start, 0)
  | g :: rest =>
    let here := zeroRun (g :: rest)
    let later := longestZeros (start + 1) rest
    if later.2 ≤ here then (start, here) else later

/-- The canonical text of a long address. -/
def longText (bits : BitVec 128) : String :=
  match embedded? bits with
  | some short => "::ffff:" ++ octetText short
  | none =>
    let gs := groups bits
    let (start, count) := longestZeros 0 gs
    if 1 < count then groupText (gs.take start) ++ "::" ++ groupText (gs.drop (start + count))
    else groupText gs

/-- The canonical text of an address. -/
def text : Address → String
  | .v4 bits => octetText bits
  | .v6 bits => longText bits

end TimedCache.Address

namespace TimedCache.Endpoint

/-- The text of an endpoint: a long address stands in brackets, with its scope if it has one. -/
def text (e : Endpoint) : String :=
  let port := String.ofList (Nat.toDigits 10 e.port)
  match e.address with
  | .v4 _ => e.address.text ++ ":" ++ port
  | .v6 _ =>
    let scope := if e.scope = 0 then "" else "%" ++ String.ofList (Nat.toDigits 10 e.scope)
    "[" ++ e.address.text ++ scope ++ "]:" ++ port

end TimedCache.Endpoint
