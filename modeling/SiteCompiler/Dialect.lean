import SiteCompiler.Text.Cutting

namespace SiteCompiler

/-- Plain scripts, with or without element expressions, with or without types. -/
inductive Dialect where
  | js
  | jsx
  | ts
  | tsx
deriving DecidableEq, Repr, Inhabited

namespace Dialect

def all : List Dialect := [tsx, ts, jsx, js]

def extension : Dialect → String
  | js => "js"
  | jsx => "jsx"
  | ts => "ts"
  | tsx => "tsx"

def hasTypes : Dialect → Bool
  | ts => true
  | tsx => true
  | _ => false

def hasElements : Dialect → Bool
  | jsx => true
  | tsx => true
  | _ => false

def ofExtension? (extension : String) : Option Dialect :=
  match extension with
  | "js" => some js
  | "mjs" => some js
  | "jsx" => some jsx
  | "ts" => some ts
  | "mts" => some ts
  | "tsx" => some tsx
  | _ => none

def ofName? (name : String) : Option Dialect :=
  all.find? fun d => d.extension = name

/-- The dialect that the extension of a path's last segment tells; a query or a fragment does not
count. -/
def ofPath? (path : String) : Option Dialect := do
  let file := Text.afterLast '/' (Text.before (fun c => c = '?' || c = '#') path)
  let (_, extension) ← Text.cutLast? (· = '.') file
  ofExtension? extension

def ofContentType? (contentType : String) : Option Dialect :=
  match Text.lowerAscii (Text.trim (Text.before (· = ';') contentType)) with
  | "application/typescript" => some ts
  | "text/typescript" => some ts
  | "application/x-typescript" => some ts
  | "text/tsx" => some tsx
  | "text/jsx" => some jsx
  | "application/javascript" => some js
  | "text/javascript" => some js
  | "application/ecmascript" => some js
  | _ => none

/-- The dialect of a fetched module: what its path tells, unless that is nothing or plain script and
the content type tells more. -/
def sniff (url : String) (contentType : Option String) : Dialect :=
  match ofPath? url, contentType.bind ofContentType? with
  | none, some d => d
  | some js, some d => d
  | some d, _ => d
  | none, none => js

end Dialect
end SiteCompiler
