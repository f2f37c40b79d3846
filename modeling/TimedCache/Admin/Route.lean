import TimedCache.Text.Percent

/-!
# Methods and routes

The requests that the administration interface knows: where the path of a request target
leads and which methods are served there. Paths are compared before percent-encoded
characters are decoded, so an encoded slash does not divide segments.
-/

namespace TimedCache.Admin

/-- A request method; names are told apart by the case of their letters. -/
inductive Method where
  | get
  | head
  | put
  | post
  | delete
  | options
  | other (name : String)
deriving DecidableEq, Repr

/-- The method of a name. -/
def Method.ofText : String → Method
  | "GET" => .get
  | "HEAD" => .head
  | "PUT" => .put
  | "POST" => .post
  | "DELETE" => .delete
  | "OPTIONS" => .options
  | name => .other name

/-- Where a path leads; segments are still percent-encoded. -/
inductive Route where
  | set
  | get (segment : String)
  | delete (segment : String)
  | uncacheLike (segment : String)
  | broadcast
  | stats
  | health
deriving DecidableEq, Repr

/-- The part of a request target after the authority of an absolute one. -/
def afterAuthority : List Char → List Char
  | ':' :: '/' :: '/' :: rest => rest.dropWhile fun c => c != '/' && c != '?' && c != '#'
  | _ :: rest => afterAuthority rest
  | [] => []

/-- The path of a request target, without authority, query and fragment. -/
def pathOf (target : String) : List Char :=
  let cs := target.toList
  let cs := if cs.head? = some '/' then cs else afterAuthority cs
  cs.takeWhile fun c => c != '?' && c != '#'

/-- The route of a request target, if it leads anywhere. -/
def Route.ofTarget? (target : String) : Option Route :=
  let path := pathOf target
  let parameter (after : String) : Option String :=
    let segment := path.drop after.length
    if after.toList.isPrefixOf path && !segment.isEmpty && !segment.contains '/' then
      some (String.ofList segment)
    else none
  if path = "/set".toList then some .set
  else if path = "/broadcast".toList then some .broadcast
  else if path = "/stats".toList then some .stats
  else if path = "/health".toList then some .health
  else ((parameter "/get/").map .get).or <| ((parameter "/del/").map .delete).or <|
    (parameter "/prefix/").map .uncacheLike

/-- The methods that a route serves, as they are told to clients. -/
def Route.allow : Route → String
  | .set => "PUT"
  | .get _ | .stats | .health => "GET,HEAD"
  | .delete _ | .uncacheLike _ => "DELETE"
  | .broadcast => "POST"

/-- The route serves the method. -/
def Route.serves (r : Route) (m : Method) : Bool :=
  match r, m with
  | .set, .put => true
  | .get _, .get | .get _, .head | .stats, .get | .stats, .head | .health, .get
  | .health, .head => true
  | .delete _, .delete | .uncacheLike _, .delete => true
  | .broadcast, .post => true
  | _, _ => false

end TimedCache.Admin
