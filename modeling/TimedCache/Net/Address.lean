/-!
# Internet addresses

An address is the number of its 32 or 128 bits. Octets and groups are its digits in base
256 and 65536, the most significant first.
-/

namespace TimedCache

/-- An internet address of either family. -/
inductive Address where
  | v4 (bits : BitVec 32)
  | v6 (bits : BitVec 128)
deriving DecidableEq, Repr

namespace Address

/-- The address without any bit set, of the same family. -/
def unspecified : Address → Address
  | .v4 _ => .v4 0
  | .v6 _ => .v6 0

/-- Multicast addresses start with the bits `1110`, or with eight ones in the long family. -/
def isMulticast : Address → Bool
  | .v4 bits => bits.toNat >>> 28 == 14
  | .v6 bits => bits.toNat >>> 120 == 255

/-- The address with the given octets. -/
def ofOctets (octets : List Nat) : Address := .v4 (BitVec.ofNat 32 (octets.foldl (· * 256 + ·) 0))

/-- The address with the given groups. -/
def ofGroups (groups : List Nat) : Address :=
  .v6 (BitVec.ofNat 128 (groups.foldl (· * 65536 + ·) 0))

/-- The four octets of a short address. -/
def octets (bits : BitVec 32) : List Nat :=
  [3, 2, 1, 0].map fun i => (bits.toNat >>> (8 * i)) % 256

/-- The eight groups of a long address. -/
def groups (bits : BitVec 128) : List Nat :=
  [7, 6, 5, 4, 3, 2, 1, 0].map fun i => (bits.toNat >>> (16 * i)) % 65536

/-- The short address that a long one stands for, if it is in the range set aside for that. -/
def embedded? (bits : BitVec 128) : Option (BitVec 32) :=
  if bits.toNat >>> 32 = 65535 then some (BitVec.ofNat 32 bits.toNat) else none

theorem octets_length (bits : BitVec 32) : (octets bits).length = 4 := rfl

theorem groups_length (bits : BitVec 128) : (groups bits).length = 8 := rfl

end Address

/-- An address with a port, and the scope number that only long addresses carry. -/
structure Endpoint where
  address : Address
  port : Nat
  scope : Nat := 0
deriving DecidableEq, Repr

end TimedCache
