import Anylinuxfs.Theorems.FlockGuard
import Anylinuxfs.Theorems.ExitStatus
import Anylinuxfs.Theorems.Netutil
import Anylinuxfs.Theorems.NfsShare
import Anylinuxfs.Theorems.RootfsLock
import Anylinuxfs.Theorems.QuitBeforeWait
import Anylinuxfs.Theorems.DeviceExclusion
import Anylinuxfs.Theorems.Ipc
import Anylinuxfs.Theorems.CtrlSocket
import Anylinuxfs.Theorems.Pipe
import Anylinuxfs.Theorems.SignalHub
import Anylinuxfs.Theorems.SignalSys
import Anylinuxfs.Theorems.ApiSocket
import Anylinuxfs.Theorems.Decrypt
import Anylinuxfs.Theorems.SharePath
import Anylinuxfs.Theorems.Preferences
import Anylinuxfs.Theorems.Deferred
import Anylinuxfs.Theorems.PubSub
import Anylinuxfs.Theorems.InitRootfs
import Anylinuxfs.Theorems.Apk
import Anylinuxfs.Theorems.MountTable
import Anylinuxfs.Theorems.NestedMounts
import Anylinuxfs.Theorems.ExportMounts
import Anylinuxfs.Theorems.Zfs
import Anylinuxfs.Theorems.Rpcbind
import Anylinuxfs.Theorems.DiskImage
import Anylinuxfs.Theorems.MountDirectory
import Anylinuxfs.Theorems.ListLabel
import Anylinuxfs.Theorems.LvIdent
import Anylinuxfs.Theorems.VolumeMap
import Anylinuxfs.Theorems.ListDecrypt
import Anylinuxfs.Theorems.LineReader
import Anylinuxfs.Theorems.PtyStatus
import Anylinuxfs.Theorems.ExportsFile
import Anylinuxfs.Theorems.ZfsCommands
import Anylinuxfs.Theorems.ZfsOrder
import Anylinuxfs.Theorems.EnvPwds
import Anylinuxfs.Theorems.ActionEnv
import Anylinuxfs.Theorems.EnvVars
import Anylinuxfs.Theorems.VmHostname
import Anylinuxfs.Theorems.RandomNetwork
import Anylinuxfs.Theorems.RemoteIso
import Anylinuxfs.Theorems.Bootstrap
import Anylinuxfs.Theorems.ConfigUpgrade
import Anylinuxfs.Theorems.LinuxDisks
import Anylinuxfs.Theorems.RpcbAddr
import Anylinuxfs.Theorems.IsoFiles
import Anylinuxfs.Theorems.Privilege
import Anylinuxfs.Theorems.RootGuards
import Anylinuxfs.Theorems.Session
import Anylinuxfs.Theorems.FreeBsdImage
import Anylinuxfs.Theorems.ForkIo
import Anylinuxfs.Theorems.VmCommand
import Anylinuxfs.Theorems.StdinForwarder
import Anylinuxfs.Theorems.AlpineImage
import Anylinuxfs.Theorems.LogRetention
