import CodeGauge.Text.Utf8

/-!
# Paths

A path is kept as it is spelled, in bytes that need not be those of a text, and compared by its
components. Doubled slashes, a trailing slash and `.` anywhere but at the start say nothing; `..` is
a component of its own, since what it leads to depends on links.
-/

namespace CodeGauge

/-- A path as it is spelled. -/
structure Path where
  bytes : Bytes
deriving DecidableEq

namespace Path

/-- The byte of a slash, which stands between names. -/
abbrev sep : UInt8 := 0x2f

/-- The byte of a dot. -/
abbrev dot : UInt8 := 0x2e

/-- The path that a text spells. -/
def ofText (t : Text) : Path := ⟨t.utf8⟩

/-- A path from a literal. -/
def ofString (s : String) : Path := ⟨utf8 s⟩

/-- A path as it is shown. -/
def display (p : Path) : Text := p.bytes.shown

/-- The parts of a path. -/
inductive Component where
  | root
  | here
  | up
  | name (n : Bytes)
deriving DecidableEq

namespace Component

/-- How a component is spelled. -/
def bytes : Component → Bytes
  | root => [sep]
  | here => [dot]
  | up => [dot, dot]
  | name n => n

/-- The order of components: root, here, up, and then the names. -/
def rank : Component → Nat
  | root => 0
  | here => 1
  | up => 2
  | name _ => 3

/-- Whether one component comes before another or is the same. -/
def le : Component → Component → Bool
  | name a, name b => Bytes.le a b
  | a, b => a.rank ≤ b.rank

end Component

/-- What stands between the slashes of a path. -/
def segments (t : Bytes) : List Bytes := Text.splitWhere (· == sep) t

/-- Whether a segment says nothing. -/
def isIdle (segment : Bytes) : Bool := segment.isEmpty || segment = [dot]

/-- The component that a segment stands for. -/
def component? (segment : Bytes) : Option Component :=
  if isIdle segment then none
  else if segment = [dot, dot] then some .up
  else some (.name segment)

/-- Whether a path starts at the root. -/
def isAbsolute (p : Path) : Bool := p.bytes.head? = some sep

/-- The components of a path. A leading `.` counts. -/
def components (p : Path) : List Component :=
  let all := segments p.bytes
  let lead : List Component :=
    if p.isAbsolute then [.root] else if all.head? = some [dot] then [.here] else []
  lead ++ all.filterMap component?

/-- Whether two paths have the same components. -/
def same (p q : Path) : Bool := p.components = q.components

/-- Lexicographic order of component lists. -/
def componentsLe : List Component → List Component → Bool
  | [], _ => true
  | _ :: _, [] => false
  | a :: as, b :: bs => if a = b then componentsLe as bs else a.le b

/-- The order of paths: by components. -/
def le (p q : Path) : Bool := componentsLe p.components q.components

/-- The last component, if it is a name. -/
def fileName? (p : Path) : Option Bytes :=
  match p.components.getLast? with
  | some (.name n) => some n
  | _ => none

/-- What follows the last dot of a name that has something before it. -/
def nameExtension? (name : Bytes) : Option Bytes :=
  if name.contains dot then
    let after := (name.reverse.takeWhile (· != dot)).reverse
    if after.length + 1 = name.length then none else some after
  else none

/-- The extension of the file name. -/
def extension? (p : Path) : Option Bytes := p.fileName?.bind nameExtension?

/-- Whether a path has the given extension. -/
def hasExtension (p : Path) (extension : Text) : Bool := p.extension? = some extension.utf8

/-- Segments without those at the end that say nothing. -/
def dropIdleEnd (segs : List Bytes) : List Bytes :=
  (segs.reverse.dropWhile isIdle).reverse

/-- What a path starts with if that is a slash, or a dot as a name, and what follows it. -/
def splitLead (t : Bytes) : Bytes × Bytes :=
  if t.head? = some sep then ([sep], t.tail)
  else if t = [dot] ∨ [dot, sep].isPrefixOf t then ([dot], t.tail)
  else ([], t)

/-- The path of the directory that a path lies in, as far as it is spelled: what stands before the
last component. The root and the empty path have none. -/
def parent? (p : Path) : Option Path :=
  let (lead, body) := splitLead p.bytes
  match (dropIdleEnd (segments body)).reverse with
  | [] => if lead = [dot] then some ⟨[]⟩ else none
  | _ :: before => some ⟨lead ++ Text.join [sep] (dropIdleEnd before.reverse)⟩

/-- A path with a name added to it. -/
def join (p : Path) (name : Bytes) : Path :=
  if p.bytes.isEmpty then ⟨name⟩
  else if p.bytes.getLast? = some sep then ⟨p.bytes ++ name⟩
  else ⟨p.bytes ++ sep :: name⟩

/-- A path with several names added to it. -/
def joinAll (p : Path) (names : List Bytes) : Path := names.foldl join p

/-- The components below a given path, if the path lies there. -/
def below? (p root : Path) : Option (List Component) :=
  if root.components.isPrefixOf p.components then
    some (p.components.drop root.components.length)
  else none

/-- Components as a relative path. -/
def ofComponents (cs : List Component) : Path :=
  ⟨Text.join [sep] (cs.map Component.bytes)⟩

/-- A path without a given start, or all of it if it starts otherwise. -/
def relativeTo (p root : Path) : Path :=
  ((p.below? root).map ofComponents).getD p

/-- The path that starts at the root, for a working directory: `.` and doubled slashes vanish, `..`
stays, and so does a slash at the end. The empty path stays empty. So does every relative path of a
process that has no working directory any more, since it was removed; here there always is one. -/
def absolute (cwd p : Path) : Path :=
  if p.bytes.isEmpty then p
  else
    let names := p.components.filter fun c => c ≠ .here ∧ c ≠ .root
    let start : Path :=
      if p.isAbsolute then
        if [sep, sep].isPrefixOf p.bytes ∧ ¬[sep, sep, sep].isPrefixOf p.bytes then ofString "//"
        else ofString "/"
      else cwd
    let full := start.joinAll (names.map Component.bytes)
    if p.bytes.getLast? = some sep ∧ full.bytes.getLast? ≠ some sep then ⟨full.bytes ++ [sep]⟩
    else full

end Path

end CodeGauge
