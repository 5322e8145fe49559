import SiteCompiler.Graph.Basic

namespace SiteCompiler.Graph

structure World where
  graph : Graph
  disk : Disk
  network : Network

structure Options where
  /-- The source to take in place of the one that the id names. -/
  source? : Option String
  /-- The dialect to read the source in, whatever it seems to be. -/
  dialect? : Option Dialect
  /-- Whether to leave the dependencies as they are. -/
  alone : Bool
deriving DecidableEq, Repr

def Options.default : Options := ⟨none, none, false⟩

def codePath (g : Graph) (m : Module) : String :=
  g.store.codePath m.stem m.nameHash

/-- The module that the store holds; one that is missing, damaged or inconsistent counts as none. -/
def loadPersisted? (g : Graph) (disk : Disk) (id : String) : Option Module := do
  let stem := ModuleId.stem id
  let found ← g.store.readRecord? disk stem
  guard (found.sourceFile = id)
  let file := g.store.codePath stem (if found.isRemote then none else some found.hash)
  let code ← ArtifactStore.readText? disk file
  guard (Digest.contentHash code = found.hash && HashSlot.valid code found.slots)
  return {
    id := found.sourceFile
    dialect := found.dialect
    sourceHash := found.sourceHash
    isRemote := found.isRemote
    hash := found.hash
    code
    sourceMap :=
      if g.settings.sourceMap then ArtifactStore.readText? disk (ArtifactStore.sourceMapPath file)
      else none
    file
    dependencies := found.dependencies
    slots := found.slots }

abbrev Fetched := Option Source

def newer (previous : Option Module) (s : Source) : Fetched :=
  if previous.map (·.sourceHash) = some s.hash then none else some s

namespace World

/-- The source of a module, as far as it has to be looked at. A remote module that has a record is
not requested again, unless it is on this machine. -/
def obtain (w : World) (id : String) (o : Options) (previous : Option Module) :
    Except Error Fetched × World :=
  match o.source? with
  | some text => (.ok (newer previous (Source.ofText text (o.dialect?.getD .js))), w)
  | none =>
    if ModuleId.isRemote id && previous.isSome && !ModuleId.isLoopback id then (.ok none, w)
    else
      match Source.load w.graph.folder w.disk w.network id with
      | (.error cause, network) => (.error (.source cause), { w with network })
      | (.ok s, network) =>
        let stats := w.graph.stats
        let fetched := if ModuleId.isRemote id then stats.fetched + 1 else stats.fetched
        (.ok (newer previous s),
          { w with network, graph := { w.graph with stats := { stats with fetched } } })

end World

/-- The hash of a dependency as far as it is known: that of the module in the graph, or else the one
recorded last. -/
def knownHash (g : Graph) (previous : Option Module) (id : String) : String :=
  match (g.modules.find? id).or (g.remote.find? id) with
  | some m => m.hash
  | none =>
    match (previous.map (·.dependencies)).getD [] |>.find? (·.path = id) with
    | some d => d.hash
    | none => ""

def linkage (g : Graph) (disk : Disk) (id : String) : Linkage where
  importer := id
  importMap := g.settings.importMap
  cacheDependencies := g.settings.cacheDependencies
  locate? := g.folder.canonicalId? disk

def sealed (g : Graph) (m : Module) : Module :=
  let m := { m with hash := Digest.contentHash m.code }
  { m with file := g.codePath m }

/-- Compiles a source, with the hashes of the dependencies as they are known. -/
def transpile (g : Graph) (disk : Disk) (id : String) (s : Source) (o : Options)
    (previous : Option Module) : Except Stop Module :=
  let dialect := o.dialect?.getD s.dialect
  match Compiled.compile (g.linkage disk id) dialect s.text g.settings.sourceMap with
  | .error cause => .error (.error (.compile cause))
  | .ok c =>
    let dependencies :=
      c.dependencies.map fun path => Dependency.mk path (g.knownHash previous path)
    match HashSlot.fill c.code c.slots (dependencies.map (·.hash)) with
    | none => .error (.brokenHash id)
    | some (_, code) =>
      .ok (g.sealed {
        id, dialect, dependencies, code
        sourceHash := s.hash
        isRemote := ModuleId.isRemote id
        hash := ""
        sourceMap := c.sourceMap
        file := ""
        slots := c.slots })

namespace World

def count (w : World) (f : Stats → Stats) : World :=
  { w with graph := { w.graph with stats := f w.graph.stats } }

/-- A module before its dependencies are visited, and whether it differs from its record. -/
def prepare (w : World) (id : String) (o : Options) : Except Stop (Module × Bool) × World :=
  let previous := (w.graph.modules.find? id).or (w.graph.loadPersisted? w.disk id)
  match w.obtain id o previous with
  | (.error cause, w) => (.error (.error cause), w)
  | (.ok (some s), w) =>
    match w.graph.transpile w.disk id s o previous with
    | .error stop => (.error stop, w)
    | .ok m => (.ok (m, true), w.count fun s => { s with compiled := s.compiled + 1 })
  | (.ok none, w) =>
    match previous with
    | none => (.error (.error (.notFound id)), w)
    | some m =>
      (.ok ({ m with isRemote := ModuleId.isRemote id }, false),
        w.count fun s => { s with reused := s.reused + 1 })

def persistBy (w : World) (action : Disk.Action Unit) : World :=
  match w.disk.perform action with
  | (.ok _, disk) => { w with disk }.count fun s => { s with persisted := s.persisted + 1 }
  | (.error _, disk) => { w with disk }

def persist (w : World) (m : Module) : World :=
  w.persistBy (w.graph.store.write m.stem m.record.text m.file m.code m.sourceMap)

def register (w : World) (m : Module) : World :=
  { w with graph :=
      if m.isRemote then { w.graph with remote := w.graph.remote.insert m }
      else { w.graph with modules := w.graph.modules.insert m } }

def finish (w : World) (m : Module) (changed : Bool) : World :=
  (if changed then w.persist m else w).register m

end World

structure Run where
  world : World
  visited : List String
  /-- The modules whose dependencies are being visited, the innermost first. -/
  stack : List Module
  /-- The ids found to be on a cycle of imports. -/
  cyclic : List String

namespace Run

def start (w : World) : Run := ⟨w, [], [], []⟩

/-- The modules from the innermost one out to the one with an id, if that is being visited: they are
on a cycle. -/
def cycleTo (stack : List Module) (id : String) : List String :=
  if stack.any (·.id = id) then (stack.takeWhile (·.id ≠ id)).map (·.id) ++ [id] else []

def revisit (r : Run) (id : String) : Except Stop Module × Run :=
  let r := { r with cyclic := cycleTo r.stack id ++ r.cyclic }
  match (r.stack.find? (·.id = id)).or (r.world.graph.modules.find? id) with
  | some m => (.ok m, r)
  | none => (.error (.error (.notFound id)), r)

/-- Whether a module goes on importing another one by the name that is recorded. -/
def keepsName (r : Run) (importer : String) (d : Dependency) : Bool :=
  r.cyclic.contains d.path && r.cyclic.contains importer && d.hash ≠ ""

/-- Visits dependencies one after the other; gives them with the hashes that they have now, and
whether one of those is new. -/
def settle (visit : Run → String → Except Stop Module × Run) (importer : String) :
    Run → List Dependency → Except Stop (List Dependency × Bool) × Run
  | r, [] => (.ok ([], false), r)
  | r, d :: rest =>
    match visit r d.path with
    | (.error stop, r) => (.error stop, r)
    | (.ok m, r) =>
      let isNew := m.hash ≠ d.hash && !r.keepsName importer d
      let d := if isNew then { d with hash := m.hash } else d
      match settle visit importer r rest with
      | (.error stop, r) => (.error stop, r)
      | (.ok (settled, changed), r) => (.ok (d :: settled, isNew || changed), r)

end Run

def relink (g : Graph) (m : Module) (dependencies : List Dependency) : Except Stop Module :=
  let m := { m with dependencies }
  match HashSlot.fill m.code m.slots (dependencies.map (·.hash)) with
  | none => .error (.brokenHash m.id)
  | some (true, code) => .ok (g.sealed { m with code })
  | some (false, _) => .ok m

namespace Run

def finish (r : Run) (m : Module) (changed : Bool) : Except Stop Module × Run :=
  (.ok m, { r with world := r.world.finish m changed })

/-- Visits a module and its dependencies; `depth` bounds how deep they are nested. -/
def visit : Nat → Run → String → Options → Except Stop Module × Run
  | 0, r, id, _ => (.error (.error (.notFound id)), r)
  | depth + 1, r, id, o =>
    match r.world.graph.remote.find? id with
    | some m => (.ok m, r)
    | none =>
      if r.visited.contains id then r.revisit id
      else
        match r.world.prepare id o with
        | (.error stop, world) => (.error stop, { r with world, visited := id :: r.visited })
        | (.ok (m, changed), world) =>
          let r := { r with world, visited := id :: r.visited }
          if o.alone || m.dependencies.isEmpty then r.finish m changed
          else
            let inner := { r with stack := m :: r.stack }
            match settle (fun r id => visit depth r id .default) m.id inner m.dependencies with
            | (.error stop, inner) => (.error stop, inner)
            | (.ok (_, false), inner) => { inner with stack := r.stack }.finish m changed
            | (.ok (dependencies, true), inner) =>
              match inner.world.graph.relink m dependencies with
              | .error stop => (.error stop, inner)
              | .ok m => { inner with stack := r.stack }.finish m true

end Run

namespace World

def idsOfModule (m : Module) : List String :=
  m.id :: m.dependencies.map (·.path)

def idsOfRecord (names : List String) (content : ByteArray) : List String :=
  if (names.getLast?.map fun name => Text.endsWith name ".json").getD false then
    match (Text.Utf8.decode? content).bind ModuleMeta.read? with
    | some found => found.sourceFile :: found.dependencies.map (·.path)
    | none => []
  else []

/-- The ids that a source at a place can have: the directory of the sources may be any above it. -/
def idsOfPlace : Disk.Place → List String
  | [] => []
  | name :: rest => ModuleId.rooted (name :: rest) :: idsOfPlace rest

def idsOfEntry : Disk.Place × Disk.Entry → List String
  | (place, .file content) => idsOfPlace place ++ idsOfRecord place content
  | (_, .directory) => []

/-- The ids that can have a source: those of the modules in the graph and in the store, those of the
files and of the answers of the network. -/
def knownIds (w : World) : List String :=
  w.graph.modules.modules.flatMap idsOfModule ++ w.graph.remote.modules.flatMap idsOfModule
    ++ w.disk.entries.flatMap idsOfEntry ++ w.network.answers.map (·.1)

/-- A bound on how deep the modules of a run are nested: no module is nested in itself, and only one
without a source, at the end, can be unknown. What a run stores may be imported in the same run, so
every id counts twice. -/
def depthBound (w : World) : Nat :=
  2 * w.knownIds.length + 4

def persistAlias (w : World) (a : Alias) : World :=
  let path := w.graph.store.codePath a.target.stem (some a.hashPrefix)
  if ArtifactStore.readText? w.disk path = some a.target.code then w
  else w.persistBy (ArtifactStore.writeCode path a.target.code a.target.sourceMap)

def persistAliases (w : World) (visited : List String) : World :=
  (w.graph.aliases.filter fun a => visited.contains a.target.id).foldl persistAlias w

/-- The id under which a module is compiled: a local id without extension stands for the file that
it names. -/
def entryId (w : World) (text : String) : Except Error String := do
  let id ← normalizeId text
  if ModuleId.isRemote id || (Dialect.ofPath? id).isSome then return id
  else return (w.graph.folder.canonicalId? w.disk id).getD id

def compile (w : World) (text : String) (o : Options) : Except Stop Module × World :=
  match w.entryId text with
  | .error cause => (.error (.error cause), w)
  | .ok id =>
    match Run.visit w.depthBound (Run.start w) id o with
    | (.error stop, r) => (.error stop, r.world)
    | (.ok m, r) => (.ok m, r.world.persistAliases r.visited)

end World
end SiteCompiler.Graph
