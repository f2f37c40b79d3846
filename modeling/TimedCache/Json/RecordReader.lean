import TimedCache.Json.Scanner

/-!
# Reading records

A record with known fields is read off a JSON object, in which unknown members are skipped
and no known one may occur twice, or off a JSON list that gives the fields in their order.
Fields hold text, or a word that may be absent.
-/

namespace TimedCache.Json

/-- What a field holds. -/
inductive FieldKind where
  | text
  /-- A word, or nothing. -/
  | optionalWord
deriving DecidableEq, Repr

/-- A field of a record; only fields of optional words may be left out. -/
structure Field where
  name : String
  kind : FieldKind
deriving DecidableEq, Repr

/-- The value of a field. -/
inductive FieldValue where
  | text (s : String)
  | word (n : Option Nat)
deriving DecidableEq, Repr

/-- The value of a field that is left out. -/
def Field.absent? (f : Field) : Option FieldValue :=
  match f.kind with
  | .text => none
  | .optionalWord => some (.word none)

/-- The defect of a value that is of no wanted kind: it is scanned as far as it takes to
tell its kind, and may turn out malformed on the way. -/
def wrongKind (b : UInt8) (rest : Input) : Defect :=
  let outcome : Except Defect Unit :=
    if b = openBracket || b = openBrace then .ok ()
    else if b = quote then (scanString rest).map fun _ => ()
    else if b = minus then (scanNumeral true rest).bind fun r => r.1.word?.map fun _ => ()
    else if isDigit b then
      (scanNumeral false (b :: rest)).bind fun r => r.1.word?.map fun _ => ()
    else (skipScalar b rest).map fun _ => ()
  match outcome with
  | .error d => d
  | .ok () => .shape

/-- A value of text. -/
def scanText (input : Input) : Except Defect (Scanned String) :=
  match skipSpace input with
  | [] => .error .malformed
  | b :: rest => if b = quote then scanString rest else .error (wrongKind b rest)

/-- A number that must be a word. -/
def scanWordValue (negative : Bool) (input : Input) : Except Defect (Scanned (Option Nat)) := do
  let (numeral, rest) ← scanNumeral negative input
  match ← numeral.word? with
  | some n => .ok (some n, rest)
  | none => .error .shape

/-- A word or `null`. -/
def scanOptionalWord (input : Input) : Except Defect (Scanned (Option Nat)) :=
  match skipSpace input with
  | [] => .error .malformed
  | b :: rest =>
    if b = 110 then (scanWord [117, 108, 108] rest).map fun rest => (none, rest)
    else if b = minus then scanWordValue true rest
    else if isDigit b then scanWordValue false (b :: rest)
    else .error (wrongKind b rest)

/-- The value of a field. -/
def scanField (kind : FieldKind) (input : Input) : Except Defect (Scanned FieldValue) :=
  match kind with
  | .text => (scanText input).map fun (s, rest) => (.text s, rest)
  | .optionalWord => (scanOptionalWord input).map fun (n, rest) => (.word n, rest)

/-- The values found so far, by field name. -/
abbrev Found := List (String × FieldValue)

/-- All fields in their order, if those that are missing may be left out. -/
def complete (fields : List Field) (found : Found) : Except Defect (List FieldValue) :=
  fields.mapM fun f =>
    match (found.lookup f.name).or f.absent? with
    | some v => .ok v
    | none => .error .shape

/-- A member with its name already read. -/
def scanMember (fields : List Field) (found : Found) (name : String) (input : Input) :
    Except Defect (Scanned Found) :=
  match fields.find? fun f => f.name == name with
  | none => do
    let rest ← scanColon input
    let rest ← skipValue rest
    .ok (found, rest)
  | some f =>
    if (found.lookup name).isSome then .error .shape
    else do
      let rest ← scanColon input
      let (value, rest) ← scanField f.kind rest
      .ok (found ++ [(name, value)], rest)

/-- The members of an object, up to the closing brace; each takes at least one byte. -/
def scanMembers (fields : List Field) : Nat → Bool → Found → Input → Except Defect (Scanned Found)
  | 0, _, _, _ => .error .malformed
  | fuel + 1, first, found, input =>
    match skipSpace input with
    | [] => .error .malformed
    | b :: rest =>
      if b = closeBrace then .ok (found, rest)
      else
        let start := if first then b :: rest else if b = comma then skipSpace rest else []
        match start with
        | [] => .error .malformed
        | b :: rest =>
          if b = quote then do
            let (name, rest) ← scanString rest
            let (found, rest) ← scanMember fields found name rest
            scanMembers fields fuel false found rest
          else .error .malformed

/-- The items of a list for the remaining fields; what is missing may be left out or not. -/
def scanItems : List Field → Bool → Input → Except Defect (Scanned (List FieldValue))
  | [], _, input => .ok ([], input)
  | f :: fields, first, input =>
    match skipSpace input with
    | [] => .error .malformed
    | b :: rest =>
      if b = closeBracket then
        match f.absent? with
        | none => .error .shape
        | some v => do
          let (values, rest) ← scanItems fields first (b :: rest)
          .ok (v :: values, rest)
      else do
        let start ← if first then .ok (b :: rest)
          else if b = comma then
            match skipSpace rest with
            | [] => .error Defect.malformed
            | c :: rest => if c = closeBracket then .error .malformed else .ok (c :: rest)
          else .error .malformed
        let (value, rest) ← scanField f.kind start
        let (values, rest) ← scanItems fields false rest
        .ok (value :: values, rest)

/-- The end of a list right after its last item. -/
def scanListEnd (input : Input) : Except Defect Input :=
  match skipSpace input with
  | b :: rest => if b = closeBracket then .ok rest else .error .malformed
  | [] => .error .malformed

/-- The values of the fields, and the input after the record. -/
def scanRecord (fields : List Field) (input : Input) : Except Defect (Scanned (List FieldValue)) :=
  match skipSpace input with
  | [] => .error .malformed
  | b :: rest =>
    if b = openBrace then do
      let (found, after) ← scanMembers fields (rest.length + 1) true [] rest
      let values ← complete fields found
      .ok (values, after)
    else if b = openBracket then do
      let (values, rest) ← scanItems fields true rest
      let rest ← scanListEnd rest
      .ok (values, rest)
    else .error (wrongKind b rest)

/-- Nothing but white space is left. -/
def expectEnd (input : Input) : Except Defect Unit :=
  if (skipSpace input).isEmpty then .ok () else .error .malformed

end TimedCache.Json
