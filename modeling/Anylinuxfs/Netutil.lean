import Anylinuxfs.Lib.Cover
import Anylinuxfs.Lib.Loop

/-!
# `netutil.rs`: the network of a VM

`pick_available_network_in_pool` looks for a network of a given prefix length that no used network overlaps. Its two nested loops
are one step function here (`pickStep`), each state of which is at the head of one of the loops, so that a search that does not
end is a search that never ends, not one without a model.

`Ipv4Net` is the type of the `ipnet` crate, and `aggregate` is the function of that name of the crate.
-/

namespace Anylinuxfs

open Cidr Loop

/-- `Ipv4Net`. -/
abbrev Ipv4Net := Net 32

/-- `Ipv4Addr`. -/
abbrev Ipv4Addr := Fin (2 ^ 32)

instance neZeroIpv4Addr : NeZero (2 ^ 32) := inferInstance

/-- `Ipv4Addr::new`. -/
def ipv4 (a b c d : Nat) : Ipv4Addr := Fin.ofNat (2 ^ 32) (a * 2 ^ 24 + b * 2 ^ 16 + c * 2 ^ 8 + d)

/-- `DEFAULT_VMNET_POOL` (`settings.rs`): the address of the pool has bits of its own. -/
def defaultVmnetPool : Ipv4Net := ⟨ipv4 172 27 1 0, 12, by decide⟩

/-- The errors of the picker. -/
inductive PickError where
  /-- "invalid prefix length: {}, must be greater than {}" -/
  | invalidPrefixLen (prefixLen poolPrefixLen : Nat)
  /-- The error of `Ipv4Net::new` for a prefix longer than the address. -/
  | prefixLenError
  /-- "exhausted candidate IP ranges for VMs" -/
  | exhausted
  /-- "failed to autoconfigure IP range for VMs" -/
  | noNextCandidate
  deriving DecidableEq, Repr

/-- How the picker ends: a result, an error, or a panic (an index out of bounds, an underflow, an unwrap). -/
inductive PickResult where
  | ok (net : Ipv4Net)
  | err (e : PickError)
  | panic
  deriving DecidableEq, Repr

/-- The head of the outer loop, with the search prefix and the candidate; or the head of the inner one, with the aggregated
conflict and the supernet besides. -/
inductive PickState where
  | outer (searchPrefixLen : Nat) (candidate : Ipv4Net)
  | inner (searchPrefixLen : Nat) (candidate aggregated supernet : Ipv4Net)
  deriving DecidableEq, Repr

section

variable (aggregate : List Ipv4Net → List Ipv4Net) (prefixLen : Nat) (used : List Ipv4Net)

/-- The used networks that overlap the candidate. -/
def conflicting (used : List Ipv4Net) (candidate : Ipv4Net) : List Ipv4Net :=
  used.filter (fun net => candidate.contains net || net.contains candidate)

/-- The outer loop up to the head of the inner one. -/
def outerStep (searchPrefixLen : Nat) (candidate : Ipv4Net) : PickState ⊕ PickResult :=
  if conflicting used candidate = [] then .inr (.ok candidate)
  else
    match (aggregate (conflicting used candidate ++ [candidate])).head? with
    | none => .inr .panic
    | some aggregated =>
      if aggregated.prefixLen = 0 then .inr .panic
      else
        let searchPrefixLen := min searchPrefixLen (aggregated.prefixLen - 1)
        match Net.new aggregated.network searchPrefixLen with
        | none => .inr (.err .prefixLenError)
        | some supernet => .inl (.inner searchPrefixLen candidate aggregated supernet)

/-- The first sibling after the candidate, or the first of all when it comes before the candidate. -/
def nextSibling (siblings : List Ipv4Net) (candidate : Ipv4Net) : Option Ipv4Net :=
  (siblings.dropWhile (fun it => it.le candidate)).head?.or (siblings.takeWhile (fun it => it.lt candidate)).head?

/-- The end of a round of the inner loop: back at the candidate the search began with, the supernet is broadened as long as it
has more than twelve bits; any other candidate is tried. -/
def tryCandidate (candidateBase : Ipv4Net) (searchPrefixLen : Nat) (aggregated supernet candidate : Ipv4Net) :
    PickState ⊕ PickResult :=
  if candidate = candidateBase then
    if 12 < supernet.prefixLen then
      match supernet.supernet with
      | none => .inr .panic
      | some supernet => .inl (.inner supernet.prefixLen candidate aggregated supernet)
    else .inr (.err .exhausted)
  else .inl (.outer searchPrefixLen candidate)

/-- One round of the inner loop, for the search that began at `candidateBase`. -/
def innerStep (candidateBase : Ipv4Net) (searchPrefixLen : Nat) (candidate aggregated supernet : Ipv4Net) :
    PickState ⊕ PickResult :=
  match supernet.subnets aggregated.prefixLen with
  | none => .inr .panic
  | some siblings =>
    match nextSibling siblings candidate with
    | none => .inr (.err .noNextCandidate)
    | some nextCandidate =>
      match Net.new nextCandidate.network prefixLen with
      | none => .inr (.err .prefixLenError)
      | some candidate => tryCandidate candidateBase searchPrefixLen aggregated supernet candidate

/-- One step of the search. -/
def pickStep (candidateBase : Ipv4Net) : PickState → PickState ⊕ PickResult
  | .outer searchPrefixLen candidate => outerStep aggregate used searchPrefixLen candidate
  | .inner searchPrefixLen candidate aggregated supernet =>
    innerStep prefixLen candidateBase searchPrefixLen candidate aggregated supernet

/-- `pick_available_network_in_pool`, for at most `fuel` steps of the search. -/
def pickAvailableNetworkInPool (pool : Ipv4Net) (fuel : Nat) : Option PickResult :=
  if prefixLen ≤ pool.prefixLen then some (.err (.invalidPrefixLen prefixLen pool.prefixLen))
  else
    match Net.new pool.addr prefixLen with
    | none => some (.err .prefixLenError)
    | some candidateBase =>
      runFor (pickStep aggregate prefixLen used candidateBase) fuel (.outer (prefixLen - 1) candidateBase)

/-- The picker returns: with enough fuel it ends, and not in a panic. -/
def PickReturns (pool : Ipv4Net) : Prop :=
  ∃ fuel r, pickAvailableNetworkInPool aggregate prefixLen used pool fuel = some r ∧ r ≠ .panic

end

/-! ## What is asked of a network -/

/-- The two networks have no address in common. -/
def DisjointNets (n m : Ipv4Net) : Prop := ∀ y, ¬(n.Mem y ∧ m.Mem y)

/-- The network shares no address with a used one. -/
def FreeNet (used : List Ipv4Net) (n : Ipv4Net) : Prop := ∀ m ∈ used, DisjointNets n m

/-- Every address of the network lies in the pool. -/
def InPool (pool n : Ipv4Net) : Prop := ∀ y, n.Mem y → pool.Mem y

/-- An aligned block of the prefix length: a network with no bits of its own beyond the prefix. -/
def AlignedBlock (prefixLen : Nat) (n : Ipv4Net) : Prop := n.prefixLen = prefixLen ∧ n.addr = n.network

/-- The region has an aligned block of the prefix length that no used network overlaps. -/
def HasFree (used : List Ipv4Net) (prefixLen : Nat) (region : Ipv4Net) : Prop :=
  ∃ b, AlignedBlock prefixLen b ∧ InPool region b ∧ FreeNet used b

end Anylinuxfs
