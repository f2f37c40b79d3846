import TimedCache.Fault

/-!
# Invalidation datagrams

A datagram carries one key prefix as plain ASCII bytes. Trailing carriage returns, line
feeds and zero bytes do not belong to it, so that line-oriented tools can send datagrams;
a datagram with nothing else is ignored. Only the first 8192 bytes of a datagram are read,
and only prefixes that fit and survive the trip can be sent.
-/

namespace TimedCache.Datagram

/-- The largest payload that is read from one datagram. -/
def capacity : Nat := 8192

/-- Bytes that do not count at the end of a payload. -/
def isTerminator (b : UInt8) : Bool := b == 13 || b == 10 || b == 0

/-- A byte of the ASCII range. -/
def isAscii (b : UInt8) : Bool := b < 128

/-- The payload without the terminators at its end. -/
def strip (payload : List UInt8) : List UInt8 := (payload.reverse.dropWhile isTerminator).reverse

/-- The text of ASCII bytes. -/
def asciiText (bytes : List UInt8) : String :=
  String.ofList (bytes.map fun b => Char.ofNat b.toNat)

/-- The code points of a text as bytes, for text of ASCII characters only. -/
def asciiBytes (s : String) : List UInt8 := s.toList.map fun c => UInt8.ofNat c.toNat

/-- The prefix in a payload, `none` if the payload is empty. -/
def decode (payload : List UInt8) : Except Fault (Option String) :=
  let bytes := strip payload
  if !bytes.all isAscii then .error (.invalidRequest "invalidation payload is not ASCII")
  else if bytes.isEmpty then .ok none
  else .ok (some (asciiText bytes))

/-- Why a prefix cannot be sent. -/
inductive Unsendable where
  | empty
  | notAscii
  | endsInTerminator
  | tooLong
deriving DecidableEq, Repr

/-- The text of the reason. -/
def Unsendable.reason : Unsendable → String
  | .empty => "invalidation prefix cannot be empty"
  | .notAscii => "invalidation prefix must be ASCII"
  | .endsInTerminator => "invalidation prefix cannot end with CR, LF or NUL"
  | .tooLong => "invalidation prefix exceeds 8192 bytes"

/-- The fault that an unsendable prefix is reported as. -/
def Unsendable.fault (u : Unsendable) : Fault := .invalidRequest u.reason

/-- The first reason, if any, why a prefix cannot be sent. -/
def unsendable? (s : String) : Option Unsendable :=
  let cs := s.toList
  if cs.isEmpty then some .empty
  else if !cs.all (fun c => c.toNat < 128) then some .notAscii
  else if (asciiBytes s).getLast?.any isTerminator then some .endsInTerminator
  else if capacity < cs.length then some .tooLong
  else none

/-- The payload that carries a prefix. -/
def encode (s : String) : Except Fault (List UInt8) :=
  match unsendable? s with
  | some u => .error u.fault
  | none => .ok (asciiBytes s)

end TimedCache.Datagram
