import Anylinuxfs.Settings

/-!
# `init-rootfs`

The program in Go that makes a Linux root filesystem, as far as it works with names: the arguments that
`vm_image::alpine::init_rootfs` gives it, the directory that it unpacks the image into, and the script that it writes for the
first start of the VM.
-/

namespace Anylinuxfs

/-- The arguments after the name of the program, in `alpine::init_rootfs`. -/
def initRootfsArgs (dnsServer : List Char) (src : ImageSource) : List (List Char) :=
  ["-n".toList, dnsServer, "-docker-ref".toList, src.dockerRef.getD "alpine:latest".toList, "-base-dir".toList,
    src.effectiveBaseDir] ++
    (match src.setupScript with
      | some script => ["-setup-script".toList, script]
      | none => [])

namespace InitRootfs

/-- The flags of `main`, with their defaults. -/
structure Flags where
  nameserver : List Char := "1.1.1.1".toList
  dockerRef : List Char := "alpine:latest".toList
  baseDir : List Char := []
  setupScript : List Char := []
  deriving DecidableEq, Repr

/-- `flag.Parse`, of flags whose values are arguments of their own; an unknown flag or a missing value ends the program. -/
def parseFlags (flags : Flags) : List (List Char) → Option Flags
  | [] => some flags
  | [_] => none
  | name :: value :: rest =>
    if name = "-n".toList then parseFlags { flags with nameserver := value } rest
    else if name = "-docker-ref".toList then parseFlags { flags with dockerRef := value } rest
    else if name = "-base-dir".toList then parseFlags { flags with baseDir := value } rest
    else if name = "-setup-script".toList then parseFlags { flags with setupScript := value } rest
    else none

/-- `Config`, as far as it is names: `baseDir` is the directory under the user store that the image is unpacked into, and that
every other path is made of. -/
structure Config where
  imageName : List Char
  tag : List Char
  baseDir : List Char
  deriving DecidableEq, Repr

/-- `baseDirFromDockerRef`. -/
def baseDirFromDockerRef (imageName tag : List Char) : List Char :=
  replace [':'] ['-'] (replace ['/'] ['-'] (imageName ++ [':'] ++ tag))

/-- `defaultConfig`. -/
def defaultConfig (dockerRef baseDir : List Char) : Config :=
  let (imageName, tag) :=
    match rfind [':'] dockerRef with
    | some idx => (dockerRef.take idx, dockerRef.drop (idx + 1))
    | none => (dockerRef, "latest".toList)
  { imageName, tag, baseDir := if baseDir = [] then baseDirFromDockerRef imageName tag else baseDir }

/-- `main`, up to the configuration. -/
def mainConfig (args : List (List Char)) : Option Config :=
  (parseFlags {} args).map fun flags => defaultConfig flags.dockerRef flags.baseDir

/-- `default-alpine-packages.txt`. -/
def defaultPackagesData : List Char :=
  "bash\nblkid\nbtrfs-progs\ncryptsetup\nlsblk\nlvm2\nmdadm\nmount\nnfs-utils\nntfs-3g\nntfs-3g-progs\nsquashfs-tools\nzfs\n".toList

/-- `getDefaultPackages`. -/
def getDefaultPackages : List (List Char) :=
  (((trim defaultPackagesData).splitOn '\n').map trim).filter (· ≠ [])

/-- The line of the script that installs the packages. -/
def apkAddLine (allPackages : List (List Char)) : List Char :=
  "apk --update --no-cache add ".toList ++ [' '].intercalate allPackages

/-- `writeSetupScript`: the script, from the packages of `loadCustomPackages`. -/
def setupScript (script : List Char) (customPackages : List (List Char)) : List Char :=
  "#!/bin/sh\n\n".toList ++ script ++ ['\n'] ++ apkAddLine (getDefaultPackages ++ customPackages) ++ "
MOD_PATH=\"modules/$(uname -r)\"
cd /lib
mkdir -p $MOD_PATH
unsquashfs -mem 32M -d $MOD_PATH modules.squashfs
rm modules.squashfs
depmod -a
ln -sf /tmp/resolv.conf /etc/resolv.conf
rm -v /etc/idmapd.conf /etc/exports
ln -sf /tmp/exports /etc/exports
mkdir /.config /.cache
".toList

end InitRootfs

/-- The directory that `init-rootfs` unpacks the image into. -/
def unpackDir (dnsServer : List Char) (src : ImageSource) : Option (List Char) :=
  (InitRootfs.mainConfig (initRootfsArgs dnsServer src)).map InitRootfs.Config.baseDir

end Anylinuxfs
