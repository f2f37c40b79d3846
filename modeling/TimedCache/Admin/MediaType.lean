/-!
# Media types

Reading the media type that a request declares for its body: a type, a subtype with an
optional suffix after its last plus sign, and parameters, which must be well formed and
mean nothing here. A body is taken for JSON if its media type is an application type with
the subtype or the suffix `json`, in any case of letters.
-/

namespace TimedCache.Admin

/-- A media type without its parameters. -/
structure MediaType where
  main : List Char
  sub : List Char
  suffix : Option (List Char)
deriving DecidableEq, Repr

namespace MediaType

/-- A character that may occur in a token. -/
def isTokenChar (c : Char) : Bool :=
  c.isAlphanum || c == '!' || c == '#' || c == '$' || c == '%' || c == '&' || c == '\''
    || c == '*' || c == '+' || c == '-' || c == '.' || c == '^' || c == '_' || c == '\x60'
    || c == '|' || c == '~'

/-- A character that may occur between quotes. -/
def isQuotable (c : Char) : Bool := 32 ≤ c.toNat && c.toNat < 127

/-- A subtype without its suffix, and the suffix; a plus sign in front starts no suffix. -/
def splitSuffix (sub : List Char) : List Char × Option (List Char) :=
  match sub.reverse.dropWhile (· != '+') with
  | _ :: before :: base =>
    ((before :: base).reverse, some (sub.reverse.takeWhile (· != '+')).reverse)
  | _ => (sub, none)

/-- Where a reader of parameters stands. -/
inductive Position where
  /-- After a semicolon, or in the blanks behind it. -/
  | start
  | name
  /-- After an equals sign. -/
  | valueStart
  | value
  /-- After an opening quote; a quote that follows at once does not close. -/
  | quotedStart
  | quoted
  /-- After a closing quote. -/
  | closed
deriving DecidableEq, Repr

/-- The position after a character, `none` if the character cannot stand there. A backslash
between quotes stands for itself. -/
def Position.next (p : Position) (c : Char) : Option Position :=
  match p with
  | .start => if c = ' ' then some .start else if isTokenChar c then some .name else none
  | .name => if c = '=' then some .valueStart else if isTokenChar c then some .name else none
  | .valueStart =>
    if c.toNat = 34 then some .quotedStart else if isTokenChar c then some .value else none
  | .value => if c = ';' then some .start else if isTokenChar c then some .value else none
  | .quotedStart => if isQuotable c then some .quoted else none
  | .quoted =>
    if c.toNat = 34 then some .closed else if isQuotable c then some .quoted else none
  | .closed => if c = ' ' then some .closed else if c = ';' then some .start else none

/-- Parameters may end at the position. -/
def Position.mayEnd : Position → Bool
  | .start | .valueStart | .value | .closed => true
  | _ => false

/-- Characters after the semicolon behind a subtype are well-formed parameters. -/
def areParameters (cs : List Char) : Bool := (cs.foldlM Position.next .start).any Position.mayEnd

/-- The media type that a text declares. -/
def ofText? (text : String) : Option MediaType :=
  let cs := text.toList
  match cs.takeWhile isTokenChar, cs.dropWhile isTokenChar with
  | [], _ => none
  | main, '/' :: rest =>
    let sub := rest.takeWhile isTokenChar
    let parametersAreFine :=
      match rest.dropWhile isTokenChar with
      | [] => true
      | c :: after => c == ';' && areParameters after
    if sub.isEmpty || !parametersAreFine then none
    else
      let (base, suffix) := splitSuffix sub
      some { main, sub := base, suffix }
  | _, _ => none

/-- The characters spell the word, in any case of letters. -/
def spells (word : String) (cs : List Char) : Bool := cs.map Char.toLower == word.toList

/-- The media type is one for JSON. -/
def isJson (m : MediaType) : Bool :=
  spells "application" m.main && (spells "json" m.sub || m.suffix.any (spells "json"))

end MediaType

end TimedCache.Admin
