import SiteCompiler.Config
import SiteCompiler.Discovery
import SiteCompiler.Graph.Run
import SiteCompiler.PageTable
import SiteCompiler.Shell

namespace SiteCompiler

namespace Site

/-- Why a page cannot be produced by those who evaluate and render it. -/
inductive RenderError where
  | render (why : String)
  | execution (why : String)
deriving DecidableEq, Repr

def RenderError.message : RenderError → String
  | .render why => "render failed: " ++ why
  | .execution why => "module execution failed: " ++ why

/-- A page module to be evaluated, with the code of all that it imports by output name, and the
globals that the code may see. -/
structure ExecutionRequest where
  entry : String
  modules : List (String × String)
  bindings : List (String × Json)

/-- What evaluates page modules for their static properties; it keeps the requests made so far, the
latest first. -/
structure Executor where
  answer : ExecutionRequest → Except RenderError (Option Json)
  requests : List ExecutionRequest

def Executor.idle : Executor := ⟨fun _ => .ok none, []⟩

inductive Error where
  | config (cause : ConfigError)
  /-- A module that is needed cannot be compiled. -/
  | compile (id : String) (cause : Graph.Stop)
  | file (path : String) (cause : FileError)
  | render (cause : RenderError)

namespace Error

def messages : Error → List String
  | .config cause => cause.messages
  | .compile id cause => ("failed to compile " ++ id) :: cause.messages
  | .file path cause => ["I/O error at " ++ path, cause.message]
  | .render cause => [cause.message]

def message (e : Error) : String :=
  (e.messages.head?).getD ""

end Error

structure Options where
  /-- Whether a module that does not compile is fatal, and pages are served as they were compiled.
  -/
  isProduction : Bool
  overrides : Config.Overrides
  /-- The import map to take in place of the project's. -/
  importMap? : Option ImportMap
  executor : Executor
  renderPage : Shell.Page → Except RenderError String

def Options.default : Options :=
  ⟨false, .none, none, .idle, fun page => .ok (Shell.page page)⟩

end Site

structure Site where
  config : Config
  isProduction : Bool
  world : Graph.World
  pages : PageTable
  appModule? : Option String
  /-- The dictionaries by locale. -/
  dictionaries : List (String × Json)
  executor : Site.Executor
  renderPage : Shell.Page → Except Site.RenderError String

namespace Site

def graph (s : Site) : Graph := s.world.graph

def sourceDirectory (s : Site) : String := s.config.sourceDirectory

def compile (s : Site) (id : String) : Except Graph.Stop Module × Site :=
  let (result, world) := s.world.compile id .default
  (result, { s with world })

def refreshPages (s : Site) : Site :=
  { s with
    pages := .ofIds (Discovery.modules s.world.disk s.sourceDirectory)
    appModule? := Discovery.appModule? s.world.disk s.sourceDirectory }

/-- Whether a module that fails while a site is opened keeps it from being opened. -/
def isFatal (s : Site) (stop : Graph.Stop) : Bool :=
  match stop with
  | .brokenHash _ => true
  | .error _ => s.isProduction && stop.isCompile

/-- Compiles modules one after the other, passing over those that fail as far as that is allowed. -/
def compileAll (s : Site) : List String → Except Error Unit × Site
  | [] => (.ok (), s)
  | id :: rest =>
    match s.compile id with
    | (.ok _, s) => s.compileAll rest
    | (.error stop, s) =>
      if s.isFatal stop then (.error (.compile id stop), s) else s.compileAll rest

/-- Compiles the application's module, which has to succeed if there is one. -/
def compileApp (s : Site) : Except Error Unit × Site :=
  match Discovery.appModule? s.world.disk s.sourceDirectory with
  | none => (.ok (), s)
  | some app =>
    match s.compile app with
    | (.ok _, s) => (.ok (), s)
    | (.error stop, s) => (.error (.compile app stop), s)

def start (s : Site) : Except Error Unit × Site :=
  match s.compileApp with
  | (.error e, s) => (.error e, s)
  | (.ok (), s) =>
    match s.compileAll (Discovery.modules s.world.disk s.sourceDirectory) with
    | (.error e, s) => (.error e, s)
    | (.ok (), s) => (.ok (), s.refreshPages)

def loadSettings (disk : Disk) (env : Environment) (root : String) (o : Options) :
    Except Error (Config × ImportMap) := do
  let config ← (Config.load disk root o.overrides).mapError .config
  match o.importMap? with
  | some map => return (config, map)
  | none => return (config, ← (ImportMap.load disk env config.rootDirectory).mapError .config)

def prepare (disk : Disk) (network : Network) (config : Config) (map : ImportMap) (o : Options) :
    Site :=
  let (store, disk) := ArtifactStore.openAt disk config.cacheDirectory Graph.storeVersion
  let folder : Source.Folder := ⟨config.sourceDirectory, config.maxModuleSize⟩
  let settings : Graph.Settings := ⟨map, config.cacheDependencies, config.sourceMap⟩
  { config
    isProduction := o.isProduction
    world := { graph := .new folder store settings, disk, network }
    pages := .empty
    appModule? := none
    dictionaries := Discovery.dictionaries disk config.sourceDirectory
    executor := o.executor
    renderPage := o.renderPage }

/-- What opening a site leads to, with the disk and the network after it. -/
structure Opened where
  result : Except Error Site
  disk : Disk
  network : Network

/-- Opens the project at `root`: compiles its application's module and every module that is
discovered. -/
def openAt (disk : Disk) (network : Network) (env : Environment) (root : String) (o : Options) :
    Opened :=
  match loadSettings disk env root o with
  | .error e => ⟨.error e, disk, network⟩
  | .ok (config, map) =>
    let (result, s) := (prepare disk network config map o).start
    ⟨result.map fun () => s, s.world.disk, s.world.network⟩

def requestPrefix (s : Site) : String :=
  BaseUrl.requestPrefix s.config.baseUrl

def modulePart : String := "/_post"

def moduleUrl (s : Site) (m : Module) : String :=
  s.requestPrefix ++ modulePart ++ m.outputName

/-- A module that is requested, or the map that leads from its code to its source. -/
structure Served where
  module : Module
  isSourceMap : Bool

namespace Served

def body? (r : Served) : Option String :=
  if r.isSourceMap then r.module.sourceMap else some r.module.code

def contentType (r : Served) : String :=
  if r.isSourceMap then "application/json; charset=utf-8"
  else "application/javascript; charset=utf-8"

end Served

def isHexDigit (c : Char) : Bool :=
  (Json.Document.hexDigit? c).isSome

def cutHash? (name : String) : Option (String × String) := do
  let (stem, hash) ← Text.cutLast? (· = '.') name
  if hash.utf8ByteSize = Digest.prefixLength && hash.toList.all isHexDigit then some (stem, hash)
  else none

def named? (s : Site) (name : String) : Option Module :=
  ((cutHash? name).bind fun (stem, hash) => s.graph.byOutput? stem hash).or (s.graph.byStem? name)

/-- What a request path leads to. A local module is found only by a hash that it has or that it is
imported under. -/
def served? (s : Site) (requestPath : String) : Option Served := do
  let path := Text.before (fun c => c = '?' || c = '#') requestPath
  let path ← Text.dropStart? s.requestPrefix path
  let path ← Text.dropStart? modulePart path
  let (path, isSourceMap) := match Text.dropEnd? ".map" path with
    | some path => (path, true)
    | none => (path, false)
  let m ← s.named? (← Text.dropEnd? ".js" path)
  if isSourceMap && m.sourceMap.isNone then none else some ⟨m, isSourceMap⟩

/-- What the client needs to know of a page: its module and the module's hash. -/
def pageEntry? (s : Site) (route id : String) : Option (String × Json) :=
  (s.graph.module? id).map fun m =>
    (route, .object [("path", .string id), ("hash", .string m.hash)])

/-- What the client needs to know of the site; pages without a compiled module are left out. -/
def manifest (s : Site) : Json :=
  let app? := s.appModule?.bind s.graph.module?
  .object [
    ("baseUrl", .string s.config.baseUrl),
    ("defaultLocale", .string s.config.defaultLocale),
    ("locales", .object s.dictionaries),
    ("appModule", Json.ofOption (fun m => .object [("hash", .string m.hash)]) app?),
    ("pageModules", .object (Json.sortMembers
      (s.pages.entries.filterMap fun (route, id) => s.pageEntry? route id)))]

end Site
end SiteCompiler
