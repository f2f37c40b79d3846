import TimedCache.Admin.MediaType
import TimedCache.Admin.Outcome
import TimedCache.Admin.Route
import TimedCache.Admin.Submission
import TimedCache.Fault

/-!
# Requests and answers

The parts of requests that matter, the answers with their headers, and the rejections of
requests that cannot be read. Rejections, wrong methods and unknown paths carry no JSON
body. Every origin may read the answers.
-/

namespace TimedCache.Admin

/-- A request. -/
structure Request where
  method : Method
  target : String
  headers : List (String × String) := []
  body : List UInt8 := []

/-- The body of an answer; texts for people are left out. -/
inductive Body where
  | empty
  | json (j : Json)
  | report (r : Report)

/-- An answer. -/
structure Answer where
  status : Nat
  headers : List (String × String)
  body : Body

/-- Why a request cannot be read. -/
inductive Rejection where
  | mediaType
  | tooLarge
  | malformed
  | shape
  | pathEncoding
deriving DecidableEq, Repr

/-- The response status of a rejection. -/
def Rejection.status : Rejection → Nat
  | .mediaType => 415
  | .tooLarge => 413
  | .malformed => 400
  | .shape => 422
  | .pathEncoding => 400

/-- The largest body in bytes that is read. -/
def maxBodySize : Nat := 2097152

namespace Answer

/-- The header by which every origin may read an answer. -/
def openOrigin : String × String := ("access-control-allow-origin", "*")

/-- The header of a JSON body. -/
def jsonType : String × String := ("content-type", "application/json")

/-- An answer with a JSON record. -/
def json (status : Nat) (j : Json) : Answer := ⟨status, [jsonType, openOrigin], .json j⟩

/-- The answer that tells a successful outcome. -/
def success (o : Outcome) : Answer := json 200 o.body

/-- The answer that reports on the cache. -/
def report (r : Report) : Answer := ⟨200, [jsonType, openOrigin], .report r⟩

/-- The answer that tells a fault. -/
def fault (f : Fault) : Answer := json f.status f.body

/-- The answer to a request that cannot be read. -/
def rejection (r : Rejection) : Answer :=
  ⟨r.status, [("content-type", "text/plain; charset=utf-8"), openOrigin], .empty⟩

/-- The answer for a path that leads nowhere. -/
def notFound : Answer := ⟨404, [openOrigin], .empty⟩

/-- The answer to a method that a route does not serve. -/
def wrongMethod (r : Route) : Answer := ⟨405, [("allow", r.allow), openOrigin], .empty⟩

/-- The answer to a question what is allowed, for any path. -/
def preflight (r : Option Route) : Answer :=
  ⟨200,
    (r.map fun r => ("allow", r.allow)).toList
      ++ [openOrigin, ("access-control-allow-methods", "*"), ("access-control-allow-headers", "*")],
    .empty⟩

/-- The answer without its body. -/
def withoutBody (a : Answer) : Answer := { a with body := .empty }

end Answer

namespace Request

/-- The first value of a header; names are compared without regard to case. -/
def header? (r : Request) (name : String) : Option String :=
  (r.headers.find? fun h => h.1.toLower == name).map Prod.snd

/-- The request declares a JSON body. -/
def isJson (r : Request) : Bool :=
  ((r.header? "content-type").bind MediaType.ofText?).any MediaType.isJson

/-- The record in the body: first the media type is checked, then the size, then the text.
What follows the record is not read. -/
def readBody {α : Type} (r : Request) (scan : Json.Input → Except Json.Defect (Json.Scanned α)) :
    Except Rejection α :=
  if !r.isJson then .error .mediaType
  else if maxBodySize < r.body.length then .error .tooLarge
  else match scan r.body with
    | .error .malformed => .error .malformed
    | .error .shape => .error .shape
    | .ok (record, _) => .ok record

end Request

end TimedCache.Admin
