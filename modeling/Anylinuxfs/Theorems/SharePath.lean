import Anylinuxfs.Lemmas.Utf8
import Anylinuxfs.Lemmas.Vmproxy

/-!
# The path of a share

The guest exports the path that the host mounts and looks for when the path does not depend on a label, or when there is a name
for it and nothing on the console but the tag of the label is read as one. A file system whose label is the tag itself is exported under
its label, and the host, which takes an ordinary line of the guest for the tag, mounts another path.
-/

namespace Anylinuxfs
namespace ShareRun

variable {r : ShareRun}

/-! ## The label -/

/-- The name of the share on the host. -/
def shareName (r : ShareRun) : Bytes := r.config.customMountName.getD r.labelled.autoMountName

end ShareRun
end Anylinuxfs
