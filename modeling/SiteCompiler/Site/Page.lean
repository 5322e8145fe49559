import SiteCompiler.Site.Basic

namespace SiteCompiler.Site

def notFoundRoute : String := "/404"

def route (s : Site) (location : String) : Route.Location × Option String :=
  let fallback := (s.pages.moduleId? notFoundRoute).map fun _ => notFoundRoute
  let l := Route.route s.config.baseUrl s.pages.routes location
    ⟨fallback, s.dictionaries.map (·.1), s.config.defaultLocale⟩
  (l, s.pages.moduleId? l.pagePath)

def current (s : Site) (id : String) : Except Error Module × Site :=
  if s.isProduction then
    match s.graph.module? id with
    | some m => (.ok m, s)
    | none => (.error (.compile id (.error (.notFound id))), s)
  else
    let (result, s) := s.compile id
    (result.mapError (.compile id), s)

structure Reach where
  waiting : List Module
  seen : List String
  found : List (String × String)

def Reach.add (g : Graph) (r : Reach) (d : Dependency) : Reach :=
  if r.seen.contains d.path then r
  else
    { r with
      waiting := ((g.module? d.path).or (g.remoteModule? d.path)).toList ++ r.waiting
      seen := d.path :: r.seen }

def Reach.follow (g : Graph) : Nat → Reach → List (String × String)
  | 0, r => r.found
  | n + 1, r =>
    match r.waiting with
    | [] => r.found
    | m :: rest =>
      let r := m.dependencies.foldl (Reach.add g) { r with waiting := rest }
      Reach.follow g n
        { r with found := (r.found.filter (·.1 ≠ m.outputName)) ++ [(m.outputName, m.code)] }

/-- The code of a module and of all that it reaches, by output name. Each module of the graph waits
at most once. -/
def executionModules (g : Graph) (entry : Module) : List (String × String) :=
  let count := g.modules.modules.length + g.remote.modules.length
  let found := Reach.follow g (count + 2) ⟨[entry], [entry.id], []⟩
  found.mergeSort fun a b => a.1 ≤ b.1

structure Prepared where
  page : Module
  app? : Option Module
  modules : List (String × String)

/-- The modules of the page and of the application, and the code to evaluate. -/
def prepared (s : Site) (pageId : String) : Except Error Prepared × Site :=
  match s.current pageId with
  | (.error e, s) => (.error e, s)
  | (.ok page, s) =>
    match s.appModule? with
    | none => (.ok ⟨page, none, executionModules s.graph page⟩, s)
    | some app =>
      match s.current app with
      | (.error e, s) => (.error e, s)
      | (.ok app, s) => (.ok ⟨page, some app, executionModules s.graph page⟩, s)

def executionRequest (s : Site) (l : Route.Location) (p : Prepared) : ExecutionRequest where
  entry := p.page.outputName
  modules := p.modules
  bindings := [("baseUrl", .string s.config.baseUrl), ("locale", .string l.locale),
    ("location", l.toJson)]

def execute (s : Site) (request : ExecutionRequest) : Except Error (Option Json) × Site :=
  ((s.executor.answer request).mapError .render,
    { s with executor := { s.executor with requests := request :: s.executor.requests } })

def evaluated (s : Site) (l : Route.Location) (pageId : String) :
    Except Error (Prepared × Option Json) × Site :=
  match s.prepared pageId with
  | (.error e, s) => (.error e, s)
  | (.ok p, s) =>
    match s.execute (s.executionRequest l p) with
    | (.error e, s) => (.error e, s)
    | (.ok props, s) => (.ok (p, props), s)

def rendered (s : Site) (l : Route.Location) (pageId : String) : Except Error String × Site :=
  match s.evaluated l pageId with
  | (.error e, s) => (.error e, s)
  | (.ok (p, props), s) =>
    ((s.renderPage ⟨l, pageId, s.moduleUrl p.page, p.app?.map s.moduleUrl, props⟩).mapError .render,
      s)

def page (s : Site) (location : String) : (Nat × String) × Site :=
  match s.route location with
  | (l, none) => ((404, Shell.notFound l), s)
  | (l, some pageId) =>
    match s.rendered l pageId with
    | (.ok html, s) => ((if l.pagePath = notFoundRoute then 404 else 200, html), s)
    | (.error e, s) => ((500, Shell.failure l ("\n".intercalate e.messages)), s)

/-- The static properties of the page for a location, if it has any and they can be had. -/
def staticProps (s : Site) (location : String) : Option Json × Site :=
  match s.route location with
  | (_, none) => (none, s)
  | (l, some pageId) =>
    match s.evaluated l pageId with
    | (.ok (_, props), s) => (props, s)
    | (.error _, s) => (none, s)

end SiteCompiler.Site
