import CodeGauge.Path.Basic
import CodeGauge.Workspace.Settings

/-!
# Saves

Which changes in the file system count as the save of a source. Only the directories below the root
of the workspace are looked at, so a workspace may itself lie in a directory with an excluded name.
-/

namespace CodeGauge

/-- What happened to a path. -/
inductive ChangeKind where
  | created
  | modified
  | attributesModified
  | removed
  | accessed
  | unknown
deriving DecidableEq

namespace ChangeKind

/-- Whether a change can be a save: something was created or its contents were modified. -/
def isSave : ChangeKind → Bool
  | created | modified => true
  | _ => false

end ChangeKind

namespace Workspace

/-- Whether a path lies in a directory with an excluded name below the root. -/
def inExcluded (path root : Path) (excluded : List Text) : Bool :=
  ((path.below? root).getD path.components).dropLast.any fun
    | .name n => isExcluded excluded n
    | _ => false

/-- The paths of a change that count as saved sources. -/
def savedPaths (kind : ChangeKind) (paths : List Path) (root : Path) (extension : Text)
    (excluded : List Text) : List Path :=
  if kind.isSave then
    paths.filter fun p => p.hasExtension extension && !inExcluded p root excluded
  else []

end Workspace

end CodeGauge
