import TimedCache.Invalidation.Datagram

/-!
# The invalidation channel

Senders publish prefixes to one endpoint; listeners take a port on all interfaces and join
a multicast group. Both refuse a group that is not a multicast address before they touch
the network.
-/

namespace TimedCache

/-- The multicast group and port of the invalidation channel. -/
structure Group where
  address : Address
  port : Nat
deriving DecidableEq, Repr

/-- A sender of invalidations to one endpoint. -/
structure Sender where
  target : Endpoint
deriving DecidableEq, Repr

namespace Sender

/-- The sender to a group. -/
def toGroup (group : Group) : Except Fault Sender :=
  if group.address.isMulticast then .ok ⟨group.address, group.port, 0⟩
  else .error (.notMulticast group.address)

/-- Publishes one prefix; the result is the payload that left the host. -/
def send (sender : Sender) (host : Host) (pattern : String) : Except Fault (List UInt8) :=
  match Datagram.encode pattern with
  | .error fault => .error fault
  | .ok payload =>
    match host.transmit sender.target payload.length with
    | .error e => .error (.io (.system e))
    | .ok () => .ok payload

end Sender

namespace Listener

/-- Takes the port and joins the group; the result is the local address. -/
def bind (host : Host) (group : Group) : Except Fault Address :=
  if group.address.isMulticast then
    match host.bind group.port with
    | .error e => .error (.io (.system e))
    | .ok () =>
      match host.join group.address with
      | .error e => .error (.io (.system e))
      | .ok () => .ok group.address.unspecified
  else .error (.notMulticast group.address)

end Listener

end TimedCache
