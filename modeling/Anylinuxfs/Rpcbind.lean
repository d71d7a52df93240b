import Anylinuxfs.Settings
import Anylinuxfs.Text

/-!
# The services of `rpcbind`

The registry of `rpcbind`, the registrations of an NFS server in it (`rpcbind/mod.rs`, `rpcbind/linux.rs`), and what
`run_mount_child` does to them: they are listed, replaced by those of the virtual machine and put back by a deferred action
(`setup_rpcbind_services` of `cmd_mount.rs`).
-/

namespace Anylinuxfs

namespace Rpcbind

/-! ## The registry -/

/-- A registration, as `rpcbind` stores it. -/
structure Rpcb where
  prog : Nat
  vers : Nat
  netid : List Char
  addr : List Char
  owner : List Char
  deriving DecidableEq, Repr

/-- What a registration is known by. -/
def Rpcb.key (e : Rpcb) : Nat × Nat × List Char := (e.prog, e.vers, e.netid)

/-- What a registration says. -/
def Rpcb.service (e : Rpcb) : Nat × Nat × List Char × List Char := (e.prog, e.vers, e.netid, e.addr)

/-- The registrations, in the order in which they are listed. -/
structure Registry where
  entries : List Rpcb
  distinct : (entries.map Rpcb.key).Nodup

namespace Registry

/-- `rpcb_set`: it fails if there is a registration with the same key. -/
def set (r : Registry) (e : Rpcb) : Option Registry :=
  if h : e.key ∈ r.entries.map Rpcb.key then none
  else some ⟨r.entries ++ [e], by
    rw [List.map_append]
    exact List.nodup_append.2 ⟨r.distinct, List.nodup_cons.2 ⟨List.not_mem_nil, List.nodup_nil⟩, fun a ha b hb heq =>
      h (List.mem_singleton.1 hb ▸ heq ▸ ha)⟩⟩

/-- `rpcb_unset` without a transport: all registrations of a version are removed. -/
def unset (r : Registry) (version : Nat × Nat) : Registry :=
  ⟨r.entries.filter fun e => (e.prog, e.vers) ≠ version, r.distinct.sublist (List.filter_sublist.map Rpcb.key)⟩

end Registry

/-! ## Entries -/

def rpcprogNfs : Nat := 100003

def rpcprogMnt : Nat := 100005

def rpcprogStat : Nat := 100024

/-- How addresses are read and written: `IpAddr::from_str`, the addresses that stand for any, and the universal address that
`rpcb_set` makes of a socket address. -/
structure AddrText (Ip : Type) where
  parseIp : List Char → Option Ip
  anyV4 : Ip
  anyV6 : Ip
  uaddr : Ip → UInt16 → List Char

variable {Ip : Type}

/-- `Entry`. -/
structure Entry (Ip : Type) where
  prog : Nat
  vers : Nat
  netid : List Char
  ip : Ip
  port : UInt16
  owner : List Char

/-- `str::parse::<u16>`. -/
def parseU16 (s : List Char) : Option UInt16 :=
  let digits := if s.head? = some '+' then s.tail else s
  if digits ≠ [] ∧ digits.all Char.isDigit then
    ((parseUsize digits).filter (· < 2 ^ 16)).map UInt16.ofNat
  else none

/-- `parse_rpcb_addr`: what is before the last dot but one is the address, the rest the two bytes of the port. -/
def parseRpcbAddr (text : AddrText Ip) (addr : List Char) : Ip × UInt16 :=
  let secondLastDot := ((rfind ['.'] addr).bind fun pos => rfind ['.'] (addr.take pos)).getD 0
  let port := ((addr.drop secondLastDot).splitOn '.').foldl (fun acc octet => acc * 256 + (parseU16 octet).getD 0) 0
  ((text.parseIp (addr.take secondLastDot)).getD text.anyV4, port)

/-- The transports that are listed. -/
def isListed (netid : List Char) : Bool := "tcp".toList.isPrefixOf netid || "udp".toList.isPrefixOf netid

/-- `list`, through `collect_rpcblist_entries`. -/
def list (text : AddrText Ip) (r : Registry) : List (Entry Ip) :=
  (r.entries.filter fun e => isListed e.netid).map fun e =>
    { prog := e.prog, vers := e.vers, netid := e.netid, ip := (parseRpcbAddr text e.addr).1, port := (parseRpcbAddr text e.addr).2,
      owner := e.owner }

/-- The registration that `rpcb_set_entry` asks for, in the name of a user. -/
def Entry.rpcb (text : AddrText Ip) (user : List Char) (e : Entry Ip) : Rpcb :=
  ⟨e.prog, e.vers, e.netid, text.uaddr e.ip e.port, user⟩

/-- `rpcb_set_entries`: the first entry that is refused is the last one that is tried. -/
def rpcbSetEntries (text : AddrText Ip) (user : List Char) (r : Registry) : List (Entry Ip) → Registry
  | [] => r
  | e :: rest =>
    match r.set (e.rpcb text user) with
    | some r' => rpcbSetEntries text user r' rest
    | none => r

/-- The versions that `unregister` removes, in its order. -/
def unregisterVersions : List (Nat × Nat) :=
  [(rpcprogNfs, 3), (rpcprogNfs, 4), (rpcprogMnt, 1), (rpcprogMnt, 2), (rpcprogMnt, 3), (rpcprogStat, 1)]

/-- The first calls of `unregister`. -/
def unregisterFirst (n : Nat) (r : Registry) : Registry := (unregisterVersions.take n).foldl Registry.unset r

/-- `unregister`. -/
def unregister (r : Registry) : Registry := unregisterFirst unregisterVersions.length r

/-- The entries that `register` tries, in its order. -/
def registerEntries (text : AddrText Ip) : List (Entry Ip) :=
  [(rpcprogNfs, 2049, [3, 4]), (rpcprogMnt, 32767, [1, 2, 3]), (rpcprogStat, 32765, [1])].flatMap fun (prog, port, versions) =>
    ["udp", "tcp"].flatMap fun proto =>
      [("", text.anyV4), ("6", text.anyV6)].flatMap fun (ipSuffix, ip) =>
        (versions.filter fun vers => ¬ (prog = rpcprogNfs ∧ vers = 4 ∧ proto = "udp")).map fun vers =>
          { prog, vers, netid := proto.toList ++ ipSuffix.toList, ip, port, owner := [] }

/-- The first entries that `register` tries, and whether one of the NFS server was among those that were not refused. -/
def registerFirst (text : AddrText Ip) (user : List Char) (n : Nat) (r : Registry) : Bool × Registry :=
  ((registerEntries text).take n).foldl (fun (nfsOk, r) e =>
    match r.set (e.rpcb text user) with
    | some r' => (nfsOk || e.prog = rpcprogNfs, r')
    | none => (nfsOk, r)) (false, r)

/-- `register`. -/
def register (text : AddrText Ip) (user : List Char) (r : Registry) : Bool × Registry :=
  registerFirst text user (registerEntries text).length r

/-! ## The mount -/

/-- `services_to_restore`. -/
def servicesToRestore (text : AddrText Ip) (r : Registry) : List (Entry Ip) :=
  (list text r).filter fun e => e.prog = rpcprogMnt ∨ e.prog = rpcprogNfs ∨ e.prog = rpcprogStat

/-- `is_host_rpcbind`. -/
def isHostRpcbind (services : List (Entry Ip)) : Bool := !services.any fun e => e.owner = "superuser".toList

/-- The users of a mount: the one that invoked it, with the name, and the one that used `sudo`. -/
structure Users where
  invokerUid : Nat
  userName : Option (List Char)
  sudoUid : Option Nat := none
  sudoGid : Option Nat := none

/-- How the parts of the set-up go that may fail: whether the line about `sudo` can be printed, whether `sudo` can be run and how
many calls its `unregister` has made when it ends, and whether the child that registers can be run, how many entries it has tried
when it ends and whether it succeeds. -/
structure SetupFaults where
  println : Bool
  sudoCalls : Option Nat
  child : Option (Nat × Bool)

/-- `unregister_fn`: whether it returns `Ok`, and the registry. -/
def unregisterFn (users : Users) (services : List (Entry Ip)) (faults : SetupFaults) (r : Registry) : Bool × Registry :=
  if users.sudoUid = none ∧ users.invokerUid ≠ 0 ∧ services.any fun e => some e.owner ≠ users.userName then
    match faults.println, faults.sudoCalls with
    | true, some n => (true, unregisterFirst n r)
    | _, _ => (false, r)
  else (true, unregister r)

/-- The end of `setup_rpcbind_services`: the entries of the virtual machine are registered. -/
def registerServices (os : HostOs) (text : AddrText Ip) (users : Users) (user : List Char) (faults : SetupFaults) (r : Registry) :
    Bool × Registry :=
  match os, users.sudoUid, users.sudoGid with
  | .macos, some _, some _ =>
    match faults.child with
    | some (n, success) => (success, (registerFirst text user n r).2)
    | none => (false, r)
  | _, _, _ => register text user r

/-- `setup_rpcbind_services` behind its guards: whether it returns `Ok`, and the registry. -/
def setupRpcbindServices (os : HostOs) (text : AddrText Ip) (users : Users) (user : List Char) (services : List (Entry Ip))
    (faults : SetupFaults) (r : Registry) : Bool × Registry :=
  match unregisterFn users services faults r with
  | (true, r') => registerServices os text users user faults r'
  | (false, r') => (false, r')

/-- The deferred action. -/
def restoreServices (text : AddrText Ip) (user : List Char) (services : List (Entry Ip)) (r : Registry) : Registry :=
  rpcbSetEntries text user (unregister r) services

/-- The registry when a mount has ended at whatever point: the action is registered if no entry that is listed is the superuser's,
and then it is run in the end, by a user who may not be the one that registered. -/
def afterMount (os : HostOs) (text : AddrText Ip) (users : Users) (user cleaner : List Char) (faults : SetupFaults) (r : Registry) :
    Registry :=
  let services := servicesToRestore text r
  if isHostRpcbind services then
    restoreServices text cleaner services (setupRpcbindServices os text users user services faults r).2
  else r

/-! ## What is asked of the registry -/

/-- The registration is of a version that `unregister` removes. -/
def Rpcb.removed (e : Rpcb) : Bool := (e.prog, e.vers) ∈ unregisterVersions

/-- The registration is an NFS, MOUNT or STAT one with a transport that is listed. -/
def Rpcb.restored (e : Rpcb) : Bool := isListed e.netid && (e.prog = rpcprogMnt ∨ e.prog = rpcprogNfs ∨ e.prog = rpcprogStat)

/-- What is removed can be put back: its transports are listed, its addresses are written as they were, and in the list it comes
before what has stayed. -/
structure Restorable (text : AddrText Ip) (r : Registry) : Prop where
  listed : ∀ e ∈ r.entries, e.removed = true → isListed e.netid = true
  written : ∀ e ∈ r.entries, e.removed = true → text.uaddr (parseRpcbAddr text e.addr).1 (parseRpcbAddr text e.addr).2 = e.addr
  first : (r.entries.filter Rpcb.restored).Pairwise fun e e' => e'.removed = true → e.removed = true

/-- The NFS, MOUNT and STAT registrations are the same. -/
def SameServices (r r' : Registry) : Prop :=
  ∀ service : Nat × Nat × List Char × List Char,
    service.1 = rpcprogNfs ∨ service.1 = rpcprogMnt ∨ service.1 = rpcprogStat →
      (service ∈ r.entries.map Rpcb.service ↔ service ∈ r'.entries.map Rpcb.service)

end Rpcbind

end Anylinuxfs
