import TimedCache.Json.RecordReader

/-!
# Submitted records

The two records that clients submit: a value to be cached, with an optional lifetime in
seconds, and a key prefix to be invalidated everywhere. Values to be cached are limited in
size; the limits count bytes.
-/

namespace TimedCache.Admin

/-- The largest length of a key in bytes. -/
def maxKeyLength : Nat := 256

/-- The largest size of a value in bytes. -/
def maxValueSize : Nat := 1048576

/-- A value to be cached; the lifetime is in seconds. -/
structure SetRequest where
  key : String
  value : String
  ttl : Option Nat
deriving DecidableEq, Repr

/-- Why a value is not cached. -/
inductive Unfit where
  | emptyKey
  | longKey
  | largeValue
deriving DecidableEq, Repr

/-- The text of the reason. -/
def Unfit.reason : Unfit → String
  | .emptyKey => "Key cannot be empty"
  | .longKey =>
    "Key exceeds maximum length of " ++ String.ofList (Nat.toDigits 10 maxKeyLength) ++ " bytes"
  | .largeValue =>
    "Value exceeds maximum size of " ++ String.ofList (Nat.toDigits 10 maxValueSize) ++ " bytes"

namespace SetRequest

/-- The first reason, if any, why the value is not cached. -/
def unfit? (r : SetRequest) : Option Unfit :=
  if r.key.isEmpty then some .emptyKey
  else if maxKeyLength < r.key.utf8ByteSize then some .longKey
  else if maxValueSize < r.value.utf8ByteSize then some .largeValue
  else none

/-- The fields of the record. -/
def fields : List Json.Field := [⟨"key", .text⟩, ⟨"value", .text⟩, ⟨"ttl", .optionalWord⟩]

/-- Reads the record off the front of an input. -/
def scan (input : Json.Input) : Except Json.Defect (Json.Scanned SetRequest) :=
  match Json.scanRecord fields input with
  | .error d => .error d
  | .ok ([.text key, .text value, .word ttl], rest) => .ok ({ key, value, ttl }, rest)
  | .ok _ => .error .shape

end SetRequest

/-- A key prefix to be invalidated everywhere. -/
structure BroadcastRequest where
  pattern : String
deriving DecidableEq, Repr

namespace BroadcastRequest

/-- The fields of the record. -/
def fields : List Json.Field := [⟨"prefix", .text⟩]

/-- Reads the record off the front of an input. -/
def scan (input : Json.Input) : Except Json.Defect (Json.Scanned BroadcastRequest) :=
  match Json.scanRecord fields input with
  | .error d => .error d
  | .ok ([.text pattern], rest) => .ok ({ pattern }, rest)
  | .ok _ => .error .shape

end BroadcastRequest

/-- Reads a record that is the whole input, white space at both ends apart. -/
def readWhole {α : Type} (scan : Json.Input → Except Json.Defect (Json.Scanned α))
    (input : Json.Input) : Except Json.Defect α := do
  let (record, rest) ← scan input
  Json.expectEnd rest
  .ok record

end TimedCache.Admin
