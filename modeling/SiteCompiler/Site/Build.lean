import SiteCompiler.Site.Page

namespace SiteCompiler.Site

structure Summary where
  outputDirectory : String
  /-- The module files that were written. -/
  modules : Nat
  pages : Nat
  /-- The pages that failed and were skipped. -/
  failedPages : List String
deriving DecidableEq, Repr

def manifestFile : String := "manifest.json"

def pageFile (route : String) : String :=
  if route = "/" then "index.html"
  else if route = notFoundRoute then "404.html"
  else FilePath.join (Text.trimStart (· = '/') route) "index.html"

/-- The modules with the names under which they are written: their own, and those by which members
of a cycle go on importing each other. -/
def outputs (s : Site) : List (String × Module) :=
  (s.graph.modules.modules ++ s.graph.remote.modules).map (fun m => (m.outputName, m))
    ++ s.graph.aliases.map fun a => (a.outputName, a.target)

def writeFile (s : Site) (path text : String) : Except Error Unit × Site :=
  let parent := (FilePath.parent? path).getD ""
  match s.world.disk.makeDirectories parent with
  | .error cause => (.error (.file parent cause), s)
  | .ok disk =>
    match disk.writeText path text with
    | .error cause => (.error (.file path cause), { s with world := { s.world with disk } })
    | .ok disk => (.ok (), { s with world := { s.world with disk } })

def writeFiles (s : Site) : List (String × String) → Except Error Unit × Site
  | [] => (.ok (), s)
  | (path, text) :: rest =>
    match s.writeFile path text with
    | (.error e, s) => (.error e, s)
    | (.ok (), s) => s.writeFiles rest

def moduleDirectory (s : Site) : String :=
  FilePath.join s.config.outputDirectory (Text.trimStart (· = '/') modulePart)

/-- The files of a module under a name: its code, and its source map if it has one. -/
def moduleFiles (s : Site) (name : String) (m : Module) : List (String × String) :=
  let path := FilePath.join s.moduleDirectory (Text.trimStart (· = '/') name)
  (path, m.code) :: m.sourceMap.toList.map fun map => (ArtifactStore.sourceMapPath path, map)

def pagePath (s : Site) (route : String) : String :=
  FilePath.join s.config.outputDirectory (pageFile route)

/-- Renders a page and writes it, unless it fails to be rendered; tells whether it is written. -/
def writePage (s : Site) (route : String) : Except Error Bool × Site :=
  let ((status, html), s) := s.page (s.requestPrefix ++ route)
  if status = 500 then (.ok false, s)
  else
    let (result, s) := s.writeFile (s.pagePath route) html
    (result.map fun () => true, s)

def writePages (s : Site) : List String → Except Error (Nat × List String) × Site
  | [] => (.ok (0, []), s)
  | route :: rest =>
    match s.writePage route with
    | (.error e, s) => (.error e, s)
    | (.ok isWritten, s) =>
      let (result, s) := s.writePages rest
      (result.map fun (count, failed) =>
        if isWritten then (count + 1, failed) else (count, route :: failed), s)

def staticRoutes (s : Site) : List String :=
  s.pages.routes.filter (!Route.isDynamic ·)

def fixedFiles (s : Site) : List (String × String) :=
  s.outputs.flatMap (fun (name, m) => s.moduleFiles name m)
    ++ [(FilePath.join s.config.outputDirectory manifestFile, s.manifest.pretty)]

def build (s : Site) : Except Error Summary × Site :=
  let modules := s.outputs.length
  match s.writeFiles s.fixedFiles with
  | (.error e, s) => (.error e, s)
  | (.ok (), s) =>
    match s.writePages s.staticRoutes with
    | (.error e, s) => (.error e, s)
    | (.ok (pages, failedPages), s) =>
      (.ok ⟨s.config.outputDirectory, modules, pages, failedPages⟩, s)

end SiteCompiler.Site
