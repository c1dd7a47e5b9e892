import CodeGauge.CommandLine.Run
import CodeGauge.Workspace.Saves

/-!
# Watching a workspace

A watched workspace is looked at again and again. Files that are new or whose bytes changed since
the last look count as saved, and every bundle that was stored since then is reported.
-/

namespace CodeGauge

namespace CommandLine

/-- The files of a tree that another tree does not hold with the same bytes. -/
def changedFiles (before after : FileTree) : List Path :=
  after.nodes.filterMap fun e =>
    match e.2, before.node? e.1 with
    | .file new, some (.file old) =>
      if new.data = old.data then none else some (FileTree.pathOf e.1)
    | .file _, _ => some (FileTree.pathOf e.1)
    | _, _ => none

/-- The session at the start of watching: everything is scheduled, and a subscription is open. -/
def startWatching (w : World) (overrides : Overrides) (root : Path) : Session :=
  let s := Session.new w (settings w overrides root)
  ((s.step .subscribe).2.step (.warmUp root)).2

/-- One look at the workspace. Gives the bundles that were stored since the last look. -/
def look (s : Session) (world : World) (root : Path) : Snapshot × Session :=
  let used := s.coordinator.settings
  let saved := Workspace.savedPaths .modified (changedFiles s.world.tree world.tree) root
    used.extension used.excluded
  let s := ({ s with world }.step (.saves saved)).2
  let stored := match s.subscription with
    | some seen =>
      (s.updatesSince seen).paths.filterMap fun p =>
        (Snapshot.lookup? s.coordinator.cache p).map (p, ·)
    | none => []
  (stored, (s.step .updates).2)

/-- The report on a stored bundle, headed by the time of day. -/
def updateReport (path : Path) (b : Bundle) : Text :=
  let t := b.timestamp
  '[' :: Instant.padded 2 t.hour ++ ':' :: Instant.padded 2 t.minute ++ ':' ::
    Instant.padded 2 t.second ++ "]\n".toList ++ b.reportBlock path ++ ['\n']

end CommandLine

end CodeGauge
