import TimedCache.Json.Writer
import TimedCache.Net.AddressPrinter
import TimedCache.Net.Link

/-!
# Faults

The ways in which a request to the cache can fail. Look-ups never fail; faults come from
the invalidation channel and from the administration interface. Each fault has a text for
users, a response status and a JSON body that carries the text.
-/

namespace TimedCache

/-- A failed input or output operation: a system error, or a refusal with its own text. -/
inductive IoFailure where
  | system (e : SystemError)
  | refused (text : String)
deriving DecidableEq, Repr

namespace IoFailure

/-- The text of the failure. -/
def text : IoFailure → String
  | .system e => e.text
  | .refused s => s

/-- The failure is a lack of permission. -/
def isPermissionDenied : IoFailure → Bool
  | .system e => e == .permissionDenied
  | .refused _ => true

end IoFailure

/-- Why a request failed. -/
inductive Fault where
  | notFound (key : String)
  | invalidRequest (reason : String)
  | notMulticast (address : Address)
  | multicastNotConfigured
  | io (failure : IoFailure)
  | internal (reason : String)
deriving DecidableEq, Repr

namespace Fault

/-- The text of a fault. -/
def message : Fault → String
  | .notFound key => "Key not found: " ++ key
  | .invalidRequest reason => "Invalid request: " ++ reason
  | .notMulticast address => "Not a multicast address: " ++ address.text
  | .multicastNotConfigured => "Multicast invalidation is not configured"
  | .io failure => "I/O error: " ++ failure.text
  | .internal reason => "Internal error: " ++ reason

/-- The response status of a fault. -/
def status : Fault → Nat
  | .notFound _ => 404
  | .invalidRequest _ => 400
  | .notMulticast _ => 400
  | .multicastNotConfigured => 503
  | .io _ => 500
  | .internal _ => 500

/-- The record that tells clients what went wrong. -/
def bodyOf (message : String) : Json := .record [("error", .string message)]

/-- The response body of a fault. -/
def body (fault : Fault) : Json := bodyOf fault.message

end Fault

end TimedCache
