import Anylinuxfs.Netutil

/-!
# `netutil.rs`: a random network

`pick_random_available_network_in_pool` tries blocks of the pool whose numbers are random until no used network overlaps one.
-/

namespace Anylinuxfs

open Cidr

/-- The errors of the random picker. -/
inductive RandomPickError where
  /-- "invalid prefix length: {}, must be less than or equal to 32" -/
  | prefixTooLong (prefixLen : Nat)
  /-- "invalid prefix length: {}, must be greater than {}" -/
  | prefixTooShort (prefixLen poolPrefixLen : Nat)
  /-- The error of `Ipv4Net::new` for a prefix longer than the address. -/
  | prefixLenError
  deriving DecidableEq, Repr

/-- `network_overlaps_any`. -/
def networkOverlapsAny (candidate : Ipv4Net) (usedNetworks : List Ipv4Net) : Bool :=
  usedNetworks.any fun net => candidate.contains net || net.contains candidate

/-- `block_size`. -/
def blockSize (prefixLen : Nat) : Nat := 2 ^ (32 - prefixLen)

/-- The sum in `network_in_pool_by_index`, before it is cut to 32 bits. -/
def candidateSum (prefixLen : Nat) (pool : Ipv4Net) (index : Nat) : Nat := pool.network + index * blockSize prefixLen

/-- `network_in_pool_by_index`. -/
def networkInPoolByIndex (prefixLen : Nat) (pool : Ipv4Net) (index : Nat) : Except RandomPickError Ipv4Net :=
  match Net.new (Fin.ofNat (2 ^ 32) (candidateSum prefixLen pool index)) prefixLen with
  | some net => .ok net
  | none => .error .prefixLenError

/-- The loop of the random picker, over the indices of its attempts. -/
def tryIndices (prefixLen : Nat) (usedNetworks : List Ipv4Net) (pool : Ipv4Net) :
    List Nat → Except RandomPickError (Option Ipv4Net)
  | [] => .ok none
  | index :: indices => do
    let candidate ← networkInPoolByIndex prefixLen pool index
    if networkOverlapsAny candidate usedNetworks then tryIndices prefixLen usedNetworks pool indices else pure (some candidate)

/-- `candidate_count`. -/
def candidateCount (prefixLen : Nat) (pool : Ipv4Net) : Nat := 2 ^ (prefixLen - pool.prefixLen)

/-- `pick_random_available_network_in_pool`, with the indices that the generator gives. -/
def pickRandomAvailableNetworkInPool (prefixLen : Nat) (usedNetworks : List Ipv4Net) (pool : Ipv4Net) (maxAttempts : Nat)
    (rng : Nat → Fin (candidateCount prefixLen pool)) : Except RandomPickError (Option Ipv4Net) :=
  if 32 < prefixLen then .error (.prefixTooLong prefixLen)
  else if prefixLen ≤ pool.prefixLen then .error (.prefixTooShort prefixLen pool.prefixLen)
  else if maxAttempts = 0 then .ok none
  else tryIndices prefixLen usedNetworks pool ((List.range maxAttempts).map fun attempt => (rng attempt).val)

end Anylinuxfs
