import SiteCompiler.BaseUrl
import SiteCompiler.ImportMap

namespace SiteCompiler

structure Config.Overrides where
  sourceDirectory : Option String
  outputDirectory : Option String
  cacheDependencies : Option Bool
  sourceMap : Option Bool

def Config.Overrides.none : Overrides := ⟨.none, .none, .none, .none⟩

structure Config where
  rootDirectory : String
  sourceDirectory : String
  outputDirectory : String
  baseUrl : String
  cacheDependencies : Bool
  defaultLocale : String
  sourceMap : Bool
  maxModuleSize : Nat
  file : Option String
deriving DecidableEq, Repr

namespace Config

def fileName : String := "post.config.json"

def defaultMaxModuleSize : Nat := 10 * 1024 * 1024

def default (root : String) : Config :=
  { rootDirectory := root
    sourceDirectory := root
    outputDirectory := FilePath.join root "out"
    baseUrl := "/"
    cacheDependencies := true
    defaultLocale := "en"
    sourceMap := false
    maxModuleSize := defaultMaxModuleSize
    file := none }

def belowRoot (root directory : String) : String :=
  let name := Text.trimStart (· = '/') directory
  if name = "" then root else FilePath.join root name

def applyKey (c : Config) (key : String) (value : Json) : Config :=
  match key, value with
  | "srcDir", .string dir => { c with sourceDirectory := belowRoot c.rootDirectory dir }
  | "outputDir", .string dir => { c with outputDirectory := belowRoot c.rootDirectory dir }
  | "baseUrl", .string url => { c with baseUrl := BaseUrl.clean url }
  | "cacheDeps", .bool flag => { c with cacheDependencies := flag }
  | "sourceMap", .bool flag => { c with sourceMap := flag }
  | "maxModuleSize", value =>
    match value.nat? with
    | some (n + 1) => { c with maxModuleSize := n + 1 }
    | _ => c
  | _, _ => c

/-- The locale that the file names; the older key `lang` counts where the newer is missing. -/
def localeOf (members : List (String × Json)) (default : String) : String :=
  let named (key : String) := (members.lookup key).bind Json.string?
  match (named "defaultLocale").or (named "lang") with
  | some locale => if locale = "" then default else locale
  | none => default

def applyDocument (c : Config) (members : List (String × Json)) : Config :=
  let c := members.foldl (fun c (key, value) => c.applyKey key value) c
  { c with defaultLocale := localeOf members c.defaultLocale }

def applyOverrides (c : Config) (o : Overrides) : Config :=
  { c with
    sourceDirectory := o.sourceDirectory.getD c.sourceDirectory
    outputDirectory := o.outputDirectory.getD c.outputDirectory
    cacheDependencies := o.cacheDependencies.getD c.cacheDependencies
    sourceMap := o.sourceMap.getD c.sourceMap }

def readFile (disk : Disk) (root : String) : Except ConfigError Config := do
  let path := FilePath.join root fileName
  if disk.isFile path then
    let text ← (disk.readText path).mapError .file
    match Json.parse? text with
    | none => throw (.json path)
    | some (.object members) =>
      return { (default root).applyDocument members with file := some path }
    | some _ => return { default root with file := some path }
  else return default root

def load (disk : Disk) (root : String) (overrides : Overrides) : Except ConfigError Config :=
  (readFile disk root).map fun c => c.applyOverrides overrides

def cacheDirectory (c : Config) : String :=
  FilePath.join c.rootDirectory ".cache"

end Config
end SiteCompiler
