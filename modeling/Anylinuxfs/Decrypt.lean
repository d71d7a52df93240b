import Anylinuxfs.Lib.Prog
import Anylinuxfs.Settings
import Mathlib.Data.List.Dedup

/-!
# Encrypted devices

How the encrypted devices of a mount get from the host to `cryptsetup`: the list `to_decrypt` of `run_mount_child`, the options
that `start_vmproxy` hands to the guest, the environment of the guest (`prepare_vm_environment`, `prepare_environment`), and
`VmDiskContext::decrypt` of `vmproxy`, which is a program over the calls of `GuestCall`. On the host, the prompts that
`prepare_passphrase_callbacks` expects.
-/

namespace Anylinuxfs

open Interact (Prog)

/-! ## The host -/

/-- `is_encrypted_fs`. -/
def isEncryptedFs (fsType : List Char) : Bool := fsType = "crypto_LUKS".toList ∨ fsType = "BitLocker".toList

/-- A device with the type of an encrypted file system. -/
def DevInfo.isEncrypted (di : DevInfo) : Bool := di.fsType.any isEncryptedFs

/-- `'a'..='z'`. -/
def letters : List Char :=
  ['a', 'b', 'c', 'd', 'e', 'f', 'g', 'h', 'i', 'j', 'k', 'l', 'm', 'n', 'o', 'p', 'q', 'r', 's', 't', 'u', 'v', 'w', 'x', 'y', 'z']

/-- A disk of a Linux guest. -/
def vdDisk (name : List Char) : List Char := "/dev/vd".toList ++ name

/-- `to_decrypt` in `run_mount_child`. -/
def toDecrypt (devInfo : List DevInfo) : List (List Char) :=
  (devInfo.zip letters).filterMap (fun (di, letter) => if di.isEncrypted then some (vdDisk [letter]) else none)

/-- The part of the guest's command line that is about decryption. -/
structure MountArgs where
  fsType : Option (List Char)
  decrypt : Option (List Char)
  reusePassphrase : Bool

/-- `start_vmproxy`: the guest's command line. -/
def vmproxyArgs (config : MountConfig) (mntDevInfo : DevInfo) (toDecrypt : List (List Char)) : MountArgs where
  fsType := some (mntDevInfo.fsType.getD "auto".toList)
  decrypt := if toDecrypt = [] then none else some ([','].intercalate toDecrypt)
  reusePassphrase := config.common.passphraseConfig = .oneForAll

/-- How many callbacks `prepare_passphrase_callbacks` returns. -/
def passphraseCallbacks (devInfo : List DevInfo) (config : MountConfig) (envHasPassphrase : Bool) : Nat :=
  if envHasPassphrase = false ∧ config.keyFile = none then
    match config.common.passphraseConfig with
    | .askForEach => (devInfo.filter DevInfo.isEncrypted).length
    | .oneForAll => if devInfo.any DevInfo.isEncrypted then 1 else 0
  else 0

/-! ## The environment of the guest -/

/-- `ALFS_PASSPHRASE_PREFIX`. -/
def passphrasePrefix : Bytes := bytes "ALFS_PASSPHRASE"

/-- `b'='`. -/
def equalsSign : UInt8 := 0x3d

/-- A variable as it stands in an environment. -/
def envEntry (name value : Bytes) : Bytes := name ++ equalsSign :: value

/-- Where `find_env_vars` is in an expression. -/
structure VarScan where
  inVar : Bool := false
  inBraces : Bool := false
  varName : List Char := []
  lastChar : Char := '^'
  vars : List (List Char) := []

/-- A name that is complete. -/
def VarScan.finishName (s : VarScan) : VarScan :=
  if s.varName = [] then s else { s with vars := s.vars ++ [s.varName], varName := [] }

/-- One turn of the loop of `find_env_vars`; `isAlphanumeric` is that of `char`. -/
def VarScan.next (isAlphanumeric : Char → Bool) (s : VarScan) (c : Char) : VarScan :=
  let s' : VarScan :=
    match s.inVar, s.inBraces with
    | true, true =>
      if c = '}' then { s.finishName with inVar := false, inBraces := false }
      else if isAlphanumeric c ∨ c = '_' then { s with varName := s.varName ++ [c] }
      else { s with varName := [], inVar := false, inBraces := false }
    | true, false =>
      if c = '$' then s.finishName
      else if c = '{' ∧ s.varName = [] then { s with inBraces := true }
      else if isAlphanumeric c ∨ c = '_' then { s with varName := s.varName ++ [c] }
      else { s.finishName with inVar := false }
    | false, false => if c = '$' ∧ s.lastChar ≠ '\\' then { s with inVar := true } else s
    | false, true => { s with inBraces := false }
  { s' with lastChar := c }

/-- `find_env_vars`. -/
def findEnvVars (isAlphanumeric : Char → Bool) (expression : List Char) : List (List Char) :=
  let s := expression.foldl (VarScan.next isAlphanumeric) {}
  if s.inVar = true ∧ s.inBraces = false then s.finishName.vars else s.vars

/-- `CustomActionConfig::all_scripts`. -/
def CustomActionConfig.allScripts (action : CustomActionConfig) : List (List Char) :=
  [action.beforeMount, action.afterMount, action.beforeUnmount]

/-- `CustomActionConfig::VM_EXPORTED_VARS`. -/
def vmExportedVars : List Bytes := [bytes "ALFS_VM_MOUNT_POINT"]

/-- The variables of the host, as `env::vars_os` gives them. -/
abbrev HostEnv := List (Bytes × Bytes)

/-- `getenv`, which `env::var_os` calls for a name without a zero byte: it looks for an entry that begins with the name and an
equals sign. In macOS the name ends at its own first equals sign; in Linux an empty name is not looked for. -/
def getenv (os : HostOs) (hostEnv : HostEnv) (name : Bytes) : Option Bytes :=
  if 0 ∈ name ∨ (os = .linux ∧ name = []) then none
  else
    let key := if os = .macos then name.takeWhile (· ≠ equalsSign) else name
    hostEnv.findSome? fun v => (envEntry v.1 v.2).dropPrefix? (key ++ [equalsSign])

/-- The names that `prepare_environment` looks up on the host: the set `referenced_variables`, in whatever order it is visited, and
`capture_environment`. -/
def CustomActionConfig.lookedUpVars (isAlphanumeric : Char → Bool) (hash : HashOrder (List Char)) (action : CustomActionConfig) :
    List Bytes :=
  (hash.order (action.allScripts.flatMap (findEnvVars isAlphanumeric)).dedup ++ action.captureEnvironment).map utf8

/-- `prepare_environment`: the variables that the action defines, and those of the host that it uses. -/
def CustomActionConfig.prepareEnvironment (isAlphanumeric : Char → Bool) (hash : HashOrder (List Char)) (os : HostOs)
    (hostEnv : HostEnv) (action : CustomActionConfig) : Except Bytes (List Bytes) :=
  let names := action.lookedUpVars isAlphanumeric hash
  let predefined := action.environment.map (fun e => (utf8 e).takeWhile (· ≠ equalsSign))
  let undefinedVars := names.filter (fun name =>
    (getenv os hostEnv name).isNone ∧ name ∉ vmExportedVars ∧ name ∉ predefined)
  if undefinedVars ≠ [] then
    throw (bytes "required environment variables not defined: " ++ (bytes ", ").intercalate undefinedVars)
  else
    pure (action.environment.map utf8 ++ names.filterMap (fun name => (getenv os hostEnv name).map (envEntry name)))

/-- `prepare_vm_environment`: the environment of the guest, and whether the host has a passphrase for it. -/
def prepareVmEnvironment (isAlphanumeric : Char → Bool) (hash : HashOrder (List Char)) (os : HostOs) (hostEnv : HostEnv)
    (config : MountConfig) : Except Bytes (List Bytes × Bool) := do
  let vars := hostEnv.filter (fun v => passphrasePrefix.isPrefixOf v.1)
  let actionVars ← match config.action with
    | some action => action.prepareEnvironment isAlphanumeric hash os hostEnv
    | none => pure []
  pure (vars.map (fun v => envEntry v.1 v.2) ++ actionVars, vars ≠ [])

/-! ## The guest -/

/-- `env::vars_os` of an entry: the name ends at the first equals sign that is not its first byte. -/
def splitEntry (entry : Bytes) : Option (Bytes × Bytes) :=
  match entry with
  | [] => none
  | first :: rest =>
    if equalsSign ∈ rest then
      some (first :: rest.takeWhile (· ≠ equalsSign), (rest.dropWhile (· ≠ equalsSign)).tail)
    else none

/-- `str::parse::<usize>`: digits, with a plus sign or without. -/
def parseIndex (s : Bytes) : Option Nat :=
  let digits := if s.head? = some 0x2b then s.tail else s
  if digits ≠ [] ∧ digits.all (fun b => 0x30 ≤ b ∧ b ≤ 0x39) then
    let n := digits.foldl (fun n b => 10 * n + (b.toNat - 0x30)) 0
    if n < 2 ^ 64 then some n else none
  else none

/-- The passphrase of an entry, and the number of its device. -/
def entryPwd (entry : Bytes) : Option (Nat × Bytes) :=
  match splitEntry entry with
  | none => none
  | some (key, value) =>
    if passphrasePrefix.isPrefixOf key then some ((parseIndex (key.drop passphrasePrefix.length)).getD 1, value) else none

/-- One entry of the environment in `get_pwds_from_env`. -/
def insertPwd (pwds : List (Nat × Bytes)) (entry : Bytes) : List (Nat × Bytes) :=
  match entryPwd entry with
  | none => pwds
  | some (idx, pwd) => (idx, pwd) :: pwds.filter (fun p => p.1 ≠ idx)

/-- `get_pwds_from_env`. -/
def getPwdsFromEnv (env : List Bytes) : List (Nat × Bytes) := env.foldl insertPwd []

/-- A run of `/sbin/cryptsetup -T1`. -/
structure Cryptsetup where
  op : String
  keyFile : Option (List Char)
  dev : List Char
  name : List Char
  /-- whether its standard input is a pipe, or that of `vmproxy` -/
  piped : Bool
  deriving DecidableEq, Repr

/-- The calls of `VmDiskContext::decrypt`. -/
inductive GuestCall where
  | println (line : String)
  | readPassword
  | spawn (cmd : Cryptsetup)
  | writeStdin (index : Nat) (pwd : Bytes)
  | wait (index : Nat)
  deriving DecidableEq, Repr

/-- The answers to a call; an error is passed on as it is. A process ends with a code, or by a signal. -/
@[reducible] def GuestCall.Answer : GuestCall → Type
  | .println _ => Unit
  | .readPassword => Except Bytes Bytes
  | .spawn _ | .writeStdin _ _ => Except Bytes Unit
  | .wait _ => Except Bytes (Option Int)

/-- A part of `vmproxy`. -/
abbrev Guest := Prog GuestCall GuestCall.Answer Bytes

namespace Guest

/-- One call. -/
def sys (c : GuestCall) : Guest c.Answer := Prog.perform c

/-- The operator `?`. -/
def orThrow {α : Type} : Except Bytes α → Guest α
  | .ok a => pure a
  | .error e => Prog.fail e

/-- `<anylinuxfs-passphrase-prompt:start>`. -/
def promptStart : String := "<anylinuxfs-passphrase-prompt:start>"

/-- `<anylinuxfs-passphrase-prompt:end>`. -/
def promptEnd : String := "<anylinuxfs-passphrase-prompt:end>"

/-- A part between the two tags; the second one is printed by a deferred action if the part fails. -/
def prompted {α : Type} (p : Guest α) : Guest α := do
  sys (.println promptStart)
  p.ensuring (sys (.println promptEnd))

end Guest

/-- `VmDiskContext`, as far as `decrypt` goes. -/
structure VmDiskContext where
  mapperIdentPrefix : List Char
  cryptsetupOp : String
  envPwds : List (Nat × Bytes)
  keyFilePath : Option (List Char)

/-- The prefix of the mapped names for a type of file system. -/
def mapperIdentPrefix (fsType : Option (List Char)) : List Char :=
  if fsType = some "BitLocker".toList then "btlk".toList else "luks".toList

/-- The operation of `cryptsetup` for a type of file system. -/
def cryptsetupOp (fsType : Option (List Char)) : String := if fsType = some "BitLocker".toList then "bitlkOpen" else "open"

/-- `VmDiskContext::new`. -/
def VmDiskContext.new (cli : MountArgs) (keyFilePath : Option (List Char)) (env : List Bytes) : VmDiskContext where
  mapperIdentPrefix := Anylinuxfs.mapperIdentPrefix cli.fsType
  cryptsetupOp := Anylinuxfs.cryptsetupOp cli.fsType
  envPwds := getPwdsFromEnv env
  keyFilePath := keyFilePath

namespace VmDiskContext

open Guest (orThrow prompted)

/-- `VmDiskContext::env_has_passphrase`. -/
def envHasPassphrase (dsk : VmDiskContext) : Bool := dsk.envPwds ≠ []

/-- The prompt for the passphrase for all devices. -/
def askPassword : Guest Bytes :=
  prompted (do orThrow (← Guest.sys .readPassword))

/-- The passphrase for all devices, if there is one, and whether the passphrases are piped. -/
def pwdForAll (dsk : VmDiskContext) (reusePassphrase : Bool) : Guest (Option Bytes × Bool) := do
  if reusePassphrase = true ∧ dsk.keyFilePath = none then
    match dsk.envPwds.lookup 1 with
    | some passphrase => pure (some passphrase, true)
    | none =>
      if dsk.envHasPassphrase then Prog.fail (bytes "Missing environment variable ALFS_PASSPHRASE")
      else
        let pwd ← askPassword
        pure (some pwd, true)
  else pure (none, dsk.envHasPassphrase && dsk.keyFilePath.isNone)

/-- `cryptsetup.wait()?`. -/
def wait (index : Nat) : Guest (Option Int) := do
  orThrow (← Guest.sys (.wait index))

/-- A passphrase is written to `cryptsetup`, whose standard input is closed then. -/
def feed (index : Nat) (pwd : Bytes) : Guest (Option Int) := do
  orThrow (← Guest.sys (.writeStdin index pwd))
  wait index

/-- How one device gets its passphrase, and how its `cryptsetup` ends. -/
def unlock (dsk : VmDiskContext) (pwdForAll : Option Bytes) (piped : Bool) (i : Nat) (dev : List Char) : Guest (Option Int) :=
  match pwdForAll <|> dsk.envPwds.lookup (i + 1) with
  | some pwd =>
    -- `cryptsetup.stdin.take().unwrap()` panics where the standard input is inherited
    if piped then feed i pwd else Prog.fail (bytes "called `Option::unwrap()` on a `None` value")
  | none =>
    if dsk.keyFilePath.isSome then wait i
    else if dsk.envHasPassphrase then
      Prog.fail (bytes "Missing environment variable ALFS_PASSPHRASE" ++ decimal (i + 1) ++ bytes " for device " ++ utf8 dev)
    else prompted (wait i)

/-- `cryptsetup_result.success()`. -/
def checkCode (dev : List Char) (code : Option Int) : Guest Unit :=
  if code = some 0 then pure ()
  else Prog.fail (bytes "Failed to open encrypted device '" ++ utf8 dev ++ bytes "': " ++ codeText (bytes "unknown") code)

/-- The loop of `decrypt` over the devices. -/
def decryptLoop (dsk : VmDiskContext) (pwdForAll : Option Bytes) (piped : Bool) : Nat → List (List Char) → Guest Unit
  | _, [] => pure ()
  | i, dev :: rest => do
    orThrow (← Guest.sys (.spawn ⟨dsk.cryptsetupOp, dsk.keyFilePath, dev, dsk.mapperIdentPrefix ++ Nat.toDigits 10 i, piped⟩))
    checkCode dev (← dsk.unlock pwdForAll piped i dev)
    decryptLoop dsk pwdForAll piped (i + 1) rest

/-- `VmDiskContext::decrypt`. -/
def decrypt (dsk : VmDiskContext) (decryptDevs : List Char) (reusePassphrase : Bool) : Guest Unit := do
  let (pwd, piped) ← dsk.pwdForAll reusePassphrase
  dsk.decryptLoop pwd piped 0 (decryptDevs.splitOn ',')

end VmDiskContext

/-- The part of `run` in `vmproxy` that decrypts the devices. -/
def runDecrypt (cli : MountArgs) (keyFilePath : Option (List Char)) (env : List Bytes) : Guest Unit :=
  match cli.decrypt with
  | some decrypt => (VmDiskContext.new cli keyFilePath env).decrypt decrypt cli.reusePassphrase
  | none => pure ()

/-! ## What is asked of the hand-off -/

/-- What `run_mount_child` has when it starts the guest: the claimed devices, behind the root disk of a FreeBSD guest. -/
structure HandOff where
  config : MountConfig
  rootDisk : Option DevInfo := none
  devInfos : List DevInfo
  mntDevInfo : DevInfo

namespace HandOff

/-- The devices in the order in which they are attached. -/
def attached (h : HandOff) : List DevInfo := h.rootDisk.toList ++ h.devInfos

/-- The system of the guest. -/
def guestOs (h : HandOff) : OsType := if h.rootDisk.isSome then .freeBsd else .linux

/-- What the guest does with its encrypted devices. -/
def program (h : HandOff) (keyFilePath : Option (List Char)) (vmEnv : List Bytes) : Guest Unit :=
  runDecrypt (vmproxyArgs h.config h.mntDevInfo (toDecrypt h.attached)) keyFilePath vmEnv

end HandOff

/-- The letters of the disk at an index: `a` to `z`, then `aa` and so on. -/
def diskLetters (i : Nat) : List Char :=
  if i < 26 then letters.drop i |>.take 1 else diskLetters (i / 26 - 1) ++ (letters.drop (i % 26)).take 1
termination_by i
decreasing_by omega

/-- A disk of a FreeBSD guest. -/
def vtbdDisk (name : List Char) : List Char := "/dev/vtbd".toList ++ name

/-- The node of the guest with the data of the device that is attached at an index. -/
def guestNode (os : OsType) (i : Nat) (di : DevInfo) : List Char :=
  match os with
  | .linux => vdDisk (diskLetters i) ++ (di.vmPartIdx.map (Nat.toDigits 10)).getD []
  | .freeBsd => vtbdDisk (Nat.toDigits 10 i) ++ (di.vmPartIdx.map (fun n => 'p' :: Nat.toDigits 10 n)).getD []

/-- The runs of `cryptsetup` that there should be: for each encrypted device of the claimed ones, at the index at which it is
attached, the operation for its type. -/
def HandOff.expected (h : HandOff) : List (String × List Char) :=
  (h.devInfos.zipIdx h.rootDisk.toList.length).filterMap (fun (di, i) =>
    if di.isEncrypted then some (cryptsetupOp di.fsType, guestNode h.guestOs i di) else none)

/-- The operations and the devices of the runs of `cryptsetup`. -/
def GuestCall.run? : GuestCall → Option (String × List Char)
  | .spawn cmd => some (cmd.op, cmd.dev)
  | _ => none

/-- Whatever passphrases and key file there are and however the runs end, the guest runs `cryptsetup` once for each encrypted
device, in order, on its node and with the operation for its type; a failure ends the sequence. -/
def HandOff.Faithful (h : HandOff) : Prop :=
  ∀ keyFilePath vmEnv (env : ∀ c : GuestCall, c.Answer),
    let runs := ((h.program keyFilePath vmEnv).trace env).filterMap GuestCall.run?
    runs <+: h.expected ∧ ((h.program keyFilePath vmEnv).result env = .ok () → runs = h.expected)

/-- The messages of `PtyReader` about prompts. -/
def GuestCall.prompt? : GuestCall → Option Bool
  | .println line => if line = Guest.promptStart then some true else if line = Guest.promptEnd then some false else none
  | _ => none

/-- When the guest has decrypted its devices, the host was sent exactly the messages that it waits for: two for each callback. -/
def HandOff.PromptsAgree (isAlphanumeric : Char → Bool) (os : HostOs) (hostEnv : HostEnv) (h : HandOff) : Prop :=
  ∀ hash vmEnv envHasPassphrase, prepareVmEnvironment isAlphanumeric hash os hostEnv h.config = .ok (vmEnv, envHasPassphrase) →
    ∀ keyFilePath : Option (List Char), keyFilePath.isSome = h.config.keyFile.isSome → ∀ env : ∀ c : GuestCall, c.Answer,
      (h.program keyFilePath vmEnv).result env = .ok () →
        ((h.program keyFilePath vmEnv).trace env).filterMap GuestCall.prompt? =
          (List.replicate (passphraseCallbacks h.attached h.config envHasPassphrase) [true, false]).flatten

/-- The environment of a custom action has a passphrase for the device of a number. -/
def CustomActionConfig.SuppliesPwd (action : CustomActionConfig) (i : Nat) : Prop :=
  ∃ entry ∈ action.environment, (entryPwd (utf8 entry)).map Prod.fst = some i

/-- The passphrases come from the environment of a custom action only: there are encrypted devices but no key file, the host has no
passphrase, and the action, whose variables are all defined, has one for each device or, if one is used for all, that one. -/
structure HandOff.ActionSupplies (isAlphanumeric : Char → Bool) (os : HostOs) (hostEnv : HostEnv) (h : HandOff) : Prop where
  noKeyFile : h.config.keyFile = none
  noHostPwd : ∀ v ∈ hostEnv, passphrasePrefix.isPrefixOf v.1 = false
  encrypted : ∃ di ∈ h.attached, di.isEncrypted = true
  prepared : ∃ hash r, prepareVmEnvironment isAlphanumeric hash os hostEnv h.config = .ok r
  supplies : ∃ action, h.config.action = some action ∧
    if h.config.common.passphraseConfig = .oneForAll then action.SuppliesPwd 1
    else ∀ j < (h.attached.filter DevInfo.isEncrypted).length, action.SuppliesPwd (j + 1)

end Anylinuxfs
