import SiteCompiler.CommandLine.Basic

namespace SiteCompiler.Main

def texts (j : Json) (name : String) : List (String × String) :=
  (((j.member? name).bind Json.object?).getD []).filterMap fun (key, value) =>
    value.string?.map fun text => (key, text)

def noNetwork : Network := ⟨[], .error .connectionRefused, []⟩

def top : Disk := ⟨["project"], [(["project"], .directory)]⟩

/-- The disk with a file and the directories above it; one that cannot be is left out. -/
def place (disk : Disk) (path text : String) : Disk :=
  let written := do
    let disk ← disk.makeDirectories ((FilePath.parent? path).getD "")
    disk.writeText path text
  written.toOption.getD disk

def diskOf (files : List (String × String)) : Disk :=
  files.foldl (fun disk (path, text) => place disk path text) top

def environmentOf (values : List (String × String)) : Environment :=
  values.map fun (name, text) => (name, text.toUTF8)

/-- The texts below the top that another disk does not hold in the same place. -/
def written (before after : Disk) : List (String × Json) :=
  (after.filesBelow top.workingDirectory).filterMap fun (names, content) => do
    let path := "/".intercalate names
    let text ← Text.Utf8.decode? content
    match before.readText path with
    | .ok old => if old = text then none else some (path, .string text)
    | .error _ => some (path, .string text)

def runProgram (words : List String) (project : Json) :
    CommandLine.Outcome × List (String × Json) :=
  let disk := diskOf (texts project "files")
  let outcome := CommandLine.run disk noNetwork (environmentOf (texts project "variables")) words
  (outcome, written disk outcome.disk)

end SiteCompiler.Main

def main (words : List String) : IO UInt32 := do
  let text ← (← IO.getStdin).readToEnd
  let project := (SiteCompiler.Json.parse? text).getD (.object [])
  let (outcome, files) := SiteCompiler.Main.runProgram words project
  (← IO.getStderr).putStr outcome.errors
  let stdout ← IO.getStdout
  stdout.putStr outcome.output
  unless files.isEmpty do
    stdout.putStrLn (SiteCompiler.Json.object files).pretty
  return outcome.exitCode.toUInt32
