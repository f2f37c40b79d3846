import TimedCache.Net.Address

/-!
# The host's network

What a host does with datagrams and group memberships. On a connected host a datagram is
handed to the receiver unchanged and a free port can join any group. An isolated host has
sockets but no interface that is up: it refuses to send and to join, each with the
operating system's own error. Loss and reordering on the way are not modelled.
-/

namespace TimedCache

/-- An error that the operating system reports by number. -/
inductive SystemError where
  | permissionDenied
  | noSuchDevice
  | invalidArgument
  | messageTooLong
  | addressInUse
  | addressNotAvailable
  | networkUnreachable
deriving DecidableEq, Repr

namespace SystemError

/-- The number of the error. -/
def code : SystemError → Nat
  | .permissionDenied => 13
  | .noSuchDevice => 19
  | .invalidArgument => 22
  | .messageTooLong => 90
  | .addressInUse => 98
  | .addressNotAvailable => 99
  | .networkUnreachable => 101

/-- The system's description of the error. -/
def description : SystemError → String
  | .permissionDenied => "Permission denied"
  | .noSuchDevice => "No such device"
  | .invalidArgument => "Invalid argument"
  | .messageTooLong => "Message too long"
  | .addressInUse => "Address already in use"
  | .addressNotAvailable => "Cannot assign requested address"
  | .networkUnreachable => "Network is unreachable"

/-- The error as it is shown to users. -/
def text (e : SystemError) : String :=
  e.description ++ " (os error " ++ String.ofList (Nat.toDigits 10 e.code) ++ ")"

end SystemError

/-- Whether any network interface of the host is up. -/
inductive Link where
  | connected
  | isolated
deriving DecidableEq, Repr

/-- The host: its link, the ports that other sockets occupy and those it may not bind. -/
structure Host where
  link : Link
  occupied : List Nat := []
  forbidden : List Nat := []
deriving DecidableEq, Repr

namespace Host

/-- What an isolated host makes of a short address: datagrams to the unspecified one stay on
the host, and no other can be reached. -/
def routeAlone (short : BitVec 32) : Except SystemError Unit :=
  if short = 0 then .ok () else .error .networkUnreachable

/-- The host can route to the address through an interface that is up. A long address that
stands for a short one is routed as that one. -/
def route (host : Host) (a : Address) : Except SystemError Unit :=
  match host.link, a with
  | .connected, _ => .ok ()
  | .isolated, .v4 bits => routeAlone bits
  | .isolated, .v6 bits =>
    match Address.embedded? bits with
    | some short => routeAlone short
    | none => .error .addressNotAvailable

/-- The largest payload whose length fits the length field of a packet. -/
def longestPacket : Nat := 65535

/-- The largest payload that leaves room for the headers of a packet. -/
def longestPayload : Nat := 65507

/-- Sends one datagram with a payload of `length` bytes. -/
def transmit (host : Host) (target : Endpoint) (length : Nat) : Except SystemError Unit :=
  if longestPacket < length then .error .messageTooLong
  else if target.port = 0 then .error .invalidArgument
  else
    match host.route target.address with
    | .error e => .error e
    | .ok () => if longestPayload < length then .error .messageTooLong else .ok ()

/-- Takes a port for listening on all interfaces. -/
def bind (host : Host) (port : Nat) : Except SystemError Unit :=
  if port ∈ host.forbidden then .error .permissionDenied
  else if port ∈ host.occupied then .error .addressInUse
  else .ok ()

/-- Joins a multicast group. -/
def join (host : Host) (_group : Address) : Except SystemError Unit :=
  match host.link with
  | .connected => .ok ()
  | .isolated => .error .noSuchDevice

end Host

end TimedCache
