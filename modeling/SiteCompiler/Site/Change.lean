import SiteCompiler.Site.Basic

namespace SiteCompiler.Site

/-- The name of a component that can lead to a module; a dot stands for nothing. -/
def nameOf? : FilePath.Component → Option (Option String)
  | .named name => if Text.startsWith name "." then none else some (some name)
  | .current => some none
  | _ => none

/-- The id of the module whose source is the file at a path, which is absolute or below the source
directory. -/
def moduleIdOf? (s : Site) (path : String) : Option String := do
  let components ←
    if FilePath.isAbsolute path then FilePath.below? s.sourceDirectory path
    else some (FilePath.components path)
  let names ← components.mapM nameOf?
  let id := ModuleId.rooted (names.filterMap id)
  if (Dialect.ofPath? id).isSome then some id else none

def hash? (s : Site) (id : String) : Option String :=
  (s.graph.module? id).map (·.hash)

def recompile (s : Site) (id : String) : Except Graph.Stop Bool × Site :=
  let before := s.hash? id
  match s.compile id with
  | (.ok m, s) => (.ok (before ≠ some m.hash), s)
  | (.error stop, s) => (.error stop, s)

def fresh (waiting seen ids : List String) : List String :=
  ids.filter fun id => !waiting.contains id && !seen.contains id

/-- Compiles the modules that wait, the earliest first; the dependents of one that changed wait as
well. Gives those that changed. -/
def propagate : Nat → Site → List String → List String → List String × Site
  | 0, s, _, _ => ([], s)
  | _ + 1, s, _, [] => ([], s)
  | n + 1, s, seen, id :: waiting =>
    match s.recompile id with
    | (.ok true, s) =>
      let waiting := waiting ++ fresh waiting (id :: seen) (s.graph.dependents id)
      let (changed, s) := propagate n s (id :: seen) waiting
      (id :: changed, s)
    | (_, s) => propagate n s (id :: seen) waiting

def concernsPages (id : String) : Bool :=
  (PageTable.pageRoute? id).isSome || Discovery.isAppModule id

def changedModule (s : Site) (id : String) : Except Error (List String) × Site :=
  match s.recompile id with
  | (.error stop, s) =>
    if stop.isTooLarge then (.ok [], s) else (.error (.compile id stop), s)
  | (.ok isChanged, s) =>
    let (changed, s) :=
      if isChanged then
        let (changed, s) :=
          propagate s.world.depthBound s [id] (fresh [] [id] (s.graph.dependents id))
        (id :: changed, s)
      else ([], s)
    (.ok changed, if concernsPages id then s.refreshPages else s)

def removedModule (s : Site) (id : String) : List String × Site :=
  let (removed?, graph) := s.graph.remove id
  let s := { s with world := { s.world with graph } }
  (removed?.toList.map fun _ => id, s.refreshPages)

/-- Follows the change of a file. Gives the modules that got another hash, that of the file first; a
module whose file is gone counts as changed. -/
def change (s : Site) (path : String) : Except Error (List String) × Site :=
  match s.moduleIdOf? path with
  | none => (.ok [], s)
  | some id =>
    if s.world.disk.isFile (s.world.graph.folder.basePath id) then s.changedModule id
    else
      let (removed, s) := s.removedModule id
      (.ok removed, s)

end SiteCompiler.Site
