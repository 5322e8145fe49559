import SiteCompiler.CommandLine.Arguments
import SiteCompiler.Site.Build

namespace SiteCompiler.CommandLine

inductive Command where
  | version
  | build (root : String) (output? : Option String) (isProduction : Bool)
  | manifest (root : String)
deriving DecidableEq, Repr

def rootSwitch : Switch := ⟨"root", some 'r', true⟩

def buildSwitches : List Switch :=
  [rootSwitch, ⟨"out-dir", some 'o', true⟩, ⟨"production", none, false⟩,
    ⟨"verbose", some 'v', false⟩]

def manifestSwitches : List Switch := [rootSwitch]

def rootVariable : String := "POST_ROOT"

/-- The root of the project: what the option says, or else the variable, or else the working
directory; an empty variable is an error. -/
def rootOf? (env : Environment) (given : Given) : Option String :=
  match given.value? rootSwitch.name, env.lookup rootVariable with
  | some root, _ => some root
  | none, none => some "."
  | none, some octets =>
    if octets.isEmpty then none else some (.ofList (Text.Utf8.decodeLossy octets.toList))

def asksVersion (word : String) : Bool :=
  word = "--version" || Text.startsWith word "-V"

def command? (env : Environment) : List String → Option Command
  | [] => none
  | "build" :: words => do
    let given ← options? buildSwitches words
    return .build (← rootOf? env given) (given.value? "out-dir") (given.contains "production")
  | "manifest" :: words => do
    return .manifest (← rootOf? env (← options? manifestSwitches words))
  | word :: _ => if asksVersion word then some .version else none

structure Outcome where
  exitCode : Nat
  output : String
  errors : String
  disk : Disk

def versionText : String := "post 0.1.0\n"

def labelWidth : Nat := 8

/-- A line that shows a value under a label, which stands at the right of its column. -/
def fieldLine (label value : String) : String :=
  .ofList (List.replicate (labelWidth - label.length) ' ') ++ label ++ " " ++ value ++ "\n"

def decimal (n : Nat) : String :=
  .ofList (Nat.toDigits 10 n)

def counted (n : Nat) (noun : String) : String :=
  decimal n ++ " " ++ noun ++ if n = 1 then "" else "s"

def summaryLine (s : Site.Summary) : String :=
  "built " ++ counted s.modules "module" ++ " and " ++ counted s.pages "page" ++ " into "
    ++ s.outputDirectory
    ++ (if s.failedPages.isEmpty then "" else " (" ++ decimal s.failedPages.length ++ " skipped)")
    ++ "\n"

def failedLine (route : String) : String :=
  "page " ++ route ++ " failed to render, skipped\n"

def errorLine (message : String) : String :=
  "error: " ++ message ++ "\n"

def failure (report message : String) (disk : Disk) : Outcome :=
  ⟨1, "", report ++ errorLine message, disk⟩

def chain (e : Site.Error) : String :=
  ": ".intercalate e.messages

def directoriesReport (s : Site) : String :=
  fieldLine "Source" s.config.sourceDirectory ++ fieldLine "Output" s.config.outputDirectory

/-- Builds an opened site. In production a page that fails makes the build fail, after everything
else is written. -/
def buildOutcome (s : Site) : Outcome :=
  let report := directoriesReport s
  match s.build with
  | (.error e, s) => failure report (chain e) s.world.disk
  | (.ok summary, s) =>
    let report := report ++ String.join (summary.failedPages.map failedLine)
    if s.isProduction && !summary.failedPages.isEmpty then
      failure report (decimal summary.failedPages.length ++ " page(s) failed to render")
        s.world.disk
    else ⟨0, "", report ++ summaryLine summary, s.world.disk⟩

def manifestOutcome (s : Site) : Outcome :=
  ⟨0, s.manifest.pretty ++ "\n", fieldLine "Pages" (decimal s.pages.size), s.world.disk⟩

def withSite (disk : Disk) (network : Network) (env : Environment) (root : String)
    (o : Site.Options) (next : Site → Outcome) : Outcome :=
  let opened := Site.openAt disk network env root o
  match opened.result with
  | .ok s => next s
  | .error e => failure "" (chain e) opened.disk

def Command.run (disk : Disk) (network : Network) (env : Environment) : Command → Outcome
  | .version => ⟨0, versionText, "", disk⟩
  | .build root output? isProduction =>
    let overrides := { Config.Overrides.none with outputDirectory := output? }
    withSite disk network env root { Site.Options.default with isProduction, overrides }
      buildOutcome
  | .manifest root => withSite disk network env root .default manifestOutcome

def usageText : String :=
  "usage: post build [-r ROOT] [-o DIRECTORY] [--production] [-v]\n"
    ++ "       post manifest [-r ROOT]\n       post --version\n"

def run (disk : Disk) (network : Network) (env : Environment) (words : List String) : Outcome :=
  match command? env words with
  | some c => c.run disk network env
  | none => ⟨2, "", usageText, disk⟩

end SiteCompiler.CommandLine
