import CodeGauge.Hierarchy
import CodeGauge.Workspace.Sources

/-!
# The hierarchy of a workspace

All types declared in the sources below a root. Sources that cannot be read are left out.
-/

namespace CodeGauge

namespace Hierarchy

/-- Adds the types of a file, named by its path from the root. -/
def addFile (t : FileTree) (root : Path) (h : Hierarchy) (path : Path) : Hierarchy :=
  match t.readText path with
  | .ok source => h.addSource (path.relativeTo root) source
  | .error _ => h

/-- The hierarchy of the sources below a root. -/
def ofWorkspace (t : FileTree) (root : Path) (extension : Text) (excluded : List Text) :
    Hierarchy :=
  (Workspace.gather t root extension excluded).foldl (addFile t root) empty

end Hierarchy

end CodeGauge
