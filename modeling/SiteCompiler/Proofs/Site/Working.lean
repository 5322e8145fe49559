import SiteCompiler.Proofs.Discovery
import SiteCompiler.Proofs.Graph.Damage
import SiteCompiler.Proofs.Site.Links
import SiteCompiler.Site.Build
import SiteCompiler.Site.Change

namespace SiteCompiler

namespace Graph

open Disk (Tidy)

variable {w w' : World} {id : String} {o : Options}

theorem World.tidy_finish (h : w.disk.Tidy) (m : Module) (changed : Bool) :
    (w.finish m changed).disk.Tidy := by
  rw [disk_finish]
  split
  · rw [persist, disk_persistBy]
    exact ArtifactStore.tidies_write _ _ _ _ _ _ w.disk h
  · exact h

theorem World.tidy_persistAliases (h : w.disk.Tidy) (visited : List String) :
    (w.persistAliases visited).disk.Tidy := by
  rw [persistAliases]
  generalize w.graph.aliases.filter (fun a ↦ visited.contains a.target.id) = as
  induction as generalizing w with
  | nil => exact h
  | cons a as ih =>
    rw [List.foldl_cons]
    refine ih ?_
    rw [persistAlias]
    split
    · exact h
    · rw [disk_persistBy]
      exact ArtifactStore.tidies_writeCode _ _ _ w.disk h

theorem Yields.tidy {r r' : Run} {t : Task} {out : Outcome} (h : Yields r t out r')
    (hs : r.world.disk.Tidy) : r'.world.disk.Tidy := by
  have hprepare : ∀ {w w' : World} {id o result}, w.prepare id o = (result, w') → w.disk.Tidy →
      w'.disk.Tidy := fun hp hs ↦ (World.prepare_eq hp).1.disk ▸ hs
  induction h with
  | deep => exact hs
  | vendored => exact hs
  | again => exact hs
  | lost => exact hs
  | unprepared _ _ hp => exact hprepare hp hs
  | leaf _ _ hp => exact World.tidy_finish (hprepare hp hs) _ _
  | dropped _ _ hp _ _ ih => exact ih (hprepare hp hs)
  | kept _ _ hp _ _ ih => exact World.tidy_finish (ih (hprepare hp hs)) _ _
  | broken _ _ hp _ _ _ ih => exact ih (hprepare hp hs)
  | relinked _ _ hp _ _ _ ih => exact World.tidy_finish (ih (hprepare hp hs)) _ _
  | done => exact hs
  | failed _ ih => exact ih hs
  | cut _ _ ih ih' => exact ih' (ih hs)
  | next _ _ ih ih' => exact ih' (ih hs)

theorem World.tidy_compile (h : w.disk.Tidy) (text : String) (o : Options) :
    (w.compile text o).2.disk.Tidy := by
  rcases compile_cases w text o with ⟨cause, -, hc⟩ | ⟨id, r, -, ⟨stop, hy, hc⟩ | ⟨m, hy, hc⟩⟩ <;>
    rw [hc]
  · exact h
  · exact hy.tidy h
  · exact World.tidy_persistAliases (hy.tidy h) r.visited

theorem World.Hashed.remove {H : String → Prop} (h : w.Hashed H) (id : String) :
    World.Hashed H { w with graph := (w.graph.remove id).2 } := by
  refine ⟨fun id' m hm ↦ h.modules id' m (hm.imp_left fun hm ↦ ?_), h.records⟩
  change (w.graph.modules.erase id).find? id' = some m at hm
  rw [ModuleTable.find?_erase] at hm
  split at hm
  · cases hm
  · exact hm

end Graph

namespace Site

open Disk (Grows placeOf)
open SiteCompiler.Graph (StoreFile)

/-- What serving and building come to: modules are compiled, pages are evaluated, and files at certain
paths are written. -/
inductive Works (files : String → Prop) : Site → Site → Prop
  | refl (s : Site) : Works files s s
  | compile {s s' : Site} (before : Works files s s') (id : String) : Works files s (s'.compile id).2
  | execute {s s' : Site} (before : Works files s s') (request : ExecutionRequest) :
      Works files s (s'.execute request).2
  | write {s s' : Site} (before : Works files s s') {path : String} (mem : files path)
      (text : String) : Works files s (s'.writeFile path text).2

structure Alike (s s' : Site) : Prop where
  config : s'.config = s.config
  pages : s'.pages = s.pages
  appModule? : s'.appModule? = s.appModule?
  dictionaries : s'.dictionaries = s.dictionaries
  isProduction : s'.isProduction = s.isProduction
  renderPage : s'.renderPage = s.renderPage
  answer : s'.executor.answer = s.executor.answer

variable {files files' : String → Prop} {s s' s'' : Site} {id path text : String}

theorem Alike.refl (s : Site) : s.Alike s :=
  ⟨rfl, rfl, rfl, rfl, rfl, rfl, rfl⟩

theorem Alike.trans (h : s.Alike s') (h' : s'.Alike s'') : s.Alike s'' :=
  ⟨h'.config.trans h.config, h'.pages.trans h.pages, h'.appModule?.trans h.appModule?,
    h'.dictionaries.trans h.dictionaries, h'.isProduction.trans h.isProduction,
    h'.renderPage.trans h.renderPage, h'.answer.trans h.answer⟩

/-- Writing a file comes to making a directory and writing a text; what was done before a failure
stays. -/
theorem writeFile_cases (s : Site) (path text : String) :
    ∃ disk, (s.writeFile path text).2 = { s with world := { s.world with disk } } ∧
      Grows (fun p c ↦ placeOf s.world.disk.workingDirectory path = p ∧ text.toUTF8 = c)
        s.world.disk disk ∧
      (s.world.disk.Tidy → disk.Tidy) ∧
      ((s.writeFile path text).1 = .ok () → ArtifactStore.readText? disk path = some text) := by
  rw [writeFile]
  dsimp only
  cases hm : s.world.disk.makeDirectories ((FilePath.parent? path).getD "") with
  | error cause => exact ⟨s.world.disk, rfl, .refl _ _, fun h ↦ h, fun h ↦ by cases h⟩
  | ok disk =>
    have hmade : Grows (fun p c ↦ placeOf s.world.disk.workingDirectory path = p ∧ text.toUTF8 = c)
        s.world.disk disk :=
      (Disk.grows_makeDirectories hm).mono fun _ _ h ↦ h.elim
    dsimp only
    cases hw : disk.writeText path text with
    | error cause =>
      exact ⟨disk, rfl, hmade, fun h ↦ h.makeDirectories hm, fun h ↦ by cases h⟩
    | ok disk' =>
      obtain ⟨hg, hread⟩ := Disk.writeText_eq_ok hw
      rw [hmade.workingDirectory] at hg
      exact ⟨disk', rfl, hmade.trans hg, fun h ↦ (h.makeDirectories hm).writeBytes hw,
        fun _ ↦ ArtifactStore.readText?_of_readBytes hread⟩

namespace Works

theorem trans (h : Works files s s') (h' : Works files s' s'') : Works files s s'' := by
  induction h' with
  | refl => exact h
  | compile _ id ih => exact .compile ih id
  | execute _ request ih => exact .execute ih request
  | write _ hp text ih => exact .write ih hp text

theorem mono (h : Works files s s') (hf : ∀ path, files path → files' path) :
    Works files' s s' := by
  induction h with
  | refl => exact .refl _
  | compile _ id ih => exact .compile ih id
  | execute _ request ih => exact .execute ih request
  | write _ hp text ih => exact .write ih (hf _ hp) text

theorem alike (h : Works files s s') : s.Alike s' := by
  induction h with
  | refl => exact .refl s
  | compile _ id ih => exact ih.trans ⟨rfl, rfl, rfl, rfl, rfl, rfl, rfl⟩
  | execute _ request ih => exact ih.trans ⟨rfl, rfl, rfl, rfl, rfl, rfl, rfl⟩
  | @write s' _ path _ text ih =>
    obtain ⟨disk, he, -⟩ := writeFile_cases s' path text
    rw [he]
    exact ih.trans ⟨rfl, rfl, rfl, rfl, rfl, rfl, rfl⟩

theorem tidy (h : Works files s s') (ht : s.world.disk.Tidy) : s'.world.disk.Tidy := by
  induction h with
  | refl => exact ht
  | compile _ id ih => exact Graph.World.tidy_compile ih id .default
  | execute _ request ih => exact ih
  | @write s' _ path _ text ih =>
    obtain ⟨disk, he, -, htidy, -⟩ := writeFile_cases s' path text
    rw [he]
    exact htidy ih

theorem hashed (h : Works files s s') (hs : s.world.Hashed fun _ ↦ True) :
    (s'.world.Hashed fun _ ↦ True) ∧ Grows (fun p _ ↦ StoreFile p ∨
      ∃ path, files path ∧ placeOf s.world.disk.workingDirectory path = p)
      s.world.disk s'.world.disk := by
  induction h with
  | refl => exact ⟨hs, .refl _ _⟩
  | compile _ id ih =>
    obtain ⟨hs', hg⟩ := ih
    obtain ⟨hw, hg', -⟩ := hs'.compile ⟨trivial, fun _ ↦ trivial⟩ id .default
    exact ⟨hw, hg.trans (hg'.mono fun _ _ ↦ .inl)⟩
  | execute _ request ih => exact ih
  | @write s' _ path hp text ih =>
    obtain ⟨hs', hg⟩ := ih
    obtain ⟨disk, he, hg', -, -⟩ := writeFile_cases s' path text
    rw [he]
    rw [hg.workingDirectory] at hg'
    refine ⟨⟨hs'.modules, fun _ _ _ _ _ _ _ _ ↦ trivial⟩, hg.trans (hg'.mono fun p _ h ↦ ?_)⟩
    exact .inr ⟨path, hp, h.1⟩

theorem history {ws : List Graph.World} (h : Works (fun _ ↦ False) s s')
    (hist : Graph.History (fun _ _ ↦ True) (s.world :: ws)) :
    ∃ ws', Graph.History (fun _ _ ↦ True) (s'.world :: ws') := by
  induction h with
  | refl => exact ⟨ws, hist⟩
  | @compile s' _ id ih =>
    obtain ⟨ws', hist'⟩ := ih
    exact ⟨_, hist'.step (s'.world.admits_compile id .default) trivial⟩
  | execute _ request ih => exact ih
  | write _ hp text ih => exact hp.elim

end Works

theorem works_current (files : String → Prop) (s : Site) (id : String) :
    Works files s (s.current id).2 := by
  rw [current]
  split
  · cases s.graph.module? id <;> exact .refl s
  · exact .compile (.refl s) id

theorem works_prepared (files : String → Prop) (s : Site) (id : String) :
    Works files s (s.prepared id).2 := by
  have hpage := works_current files s id
  rw [prepared]
  rcases hp : s.current id with ⟨cause | page, s₁⟩ <;> rw [hp] at hpage
  · exact hpage
  · dsimp only
    split
    · exact hpage
    · next app _ =>
      have happ := works_current files s₁ app
      rcases ha : s₁.current app with ⟨cause | app, s₂⟩ <;> rw [ha] at happ <;> exact hpage.trans happ

theorem works_evaluated (files : String → Prop) (s : Site) (l : Route.Location) (id : String) :
    Works files s (s.evaluated l id).2 := by
  have hprepared := works_prepared files s id
  rw [evaluated]
  rcases hp : s.prepared id with ⟨cause | p, s₁⟩ <;> rw [hp] at hprepared
  · exact hprepared
  · have hexecute := Works.execute hprepared (s₁.executionRequest l p)
    dsimp only
    rcases he : s₁.execute (s₁.executionRequest l p) with ⟨cause | props, s₂⟩ <;>
      rw [he] at hexecute <;> exact hexecute

theorem works_rendered (files : String → Prop) (s : Site) (l : Route.Location) (id : String) :
    Works files s (s.rendered l id).2 := by
  have hevaluated := works_evaluated files s l id
  rw [rendered]
  rcases he : s.evaluated l id with ⟨cause | ⟨p, props⟩, s₁⟩ <;> rw [he] at hevaluated <;>
    exact hevaluated

theorem works_page (files : String → Prop) (s : Site) (location : String) :
    Works files s (s.page location).2 := by
  rw [page]
  rcases s.route location with ⟨l, _ | id⟩
  · exact .refl s
  · have hrendered := works_rendered files s l id
    dsimp only
    rcases hr : s.rendered l id with ⟨cause | html, s₁⟩ <;> rw [hr] at hrendered <;>
      exact hrendered

theorem works_staticProps (files : String → Prop) (s : Site) (location : String) :
    Works files s (s.staticProps location).2 := by
  rw [staticProps]
  rcases s.route location with ⟨l, _ | id⟩
  · exact .refl s
  · have hevaluated := works_evaluated files s l id
    dsimp only
    rcases he : s.evaluated l id with ⟨cause | ⟨p, props⟩, s₁⟩ <;> rw [he] at hevaluated <;>
      exact hevaluated

theorem works_writeFiles (s : Site) (fs : List (String × String)) :
    Works (· ∈ fs.map Prod.fst) s (s.writeFiles fs).2 := by
  induction fs generalizing s with
  | nil => exact .refl s
  | cons f fs ih =>
    have hfirst : Works (· ∈ (f :: fs).map Prod.fst) s (s.writeFile f.1 f.2).2 :=
      .write (.refl s) List.mem_cons_self f.2
    rw [writeFiles]
    rcases hw : s.writeFile f.1 f.2 with ⟨cause | _, s₁⟩ <;> rw [hw] at hfirst
    · exact hfirst
    · exact hfirst.trans ((ih s₁).mono fun path hp ↦ List.mem_cons_of_mem f.1 hp)

/-- What a turn of a build comes to: a page that is rendered can be read where it was written. -/
theorem writePage_cases (s : Site) (route : String) : ∃ status html s₁,
    s.page (s.requestPrefix ++ route) = ((status, html), s₁) ∧
      ((status = 500 ∧ s.writePage route = (.ok false, s₁)) ∨
        status ≠ 500 ∧ s.writePage route =
          ((s₁.writeFile (s.pagePath route) html).1.map fun () ↦ true,
            (s₁.writeFile (s.pagePath route) html).2)) := by
  have hconfig := (works_page (fun _ ↦ False) s (s.requestPrefix ++ route)).alike.config
  rw [writePage]
  rcases hp : s.page (s.requestPrefix ++ route) with ⟨⟨status, html⟩, s₁⟩
  rw [hp] at hconfig
  have hpath : s₁.pagePath route = s.pagePath route := by
    rw [pagePath, pagePath, show s₁.config = s.config from hconfig]
  refine ⟨status, html, s₁, rfl, ?_⟩
  dsimp only
  by_cases hs : status = 500
  · exact .inl ⟨hs, by rw [if_pos hs]⟩
  · exact .inr ⟨hs, by rw [if_neg hs, hpath]⟩

theorem works_writePage (s : Site) (route : String) :
    Works (s.pagePath route = ·) s (s.writePage route).2 := by
  obtain ⟨status, html, s₁, hp, ⟨-, hw⟩ | ⟨-, hw⟩⟩ := writePage_cases s route <;>
    have hpage := works_page (s.pagePath route = ·) s (s.requestPrefix ++ route) <;>
    rw [hp] at hpage <;> rw [hw] <;> dsimp only at hpage ⊢
  · exact hpage
  · exact .write hpage rfl html

theorem works_writePages (s : Site) (routes : List String) :
    Works (∃ route ∈ routes, s.pagePath route = ·) s (s.writePages routes).2 := by
  induction routes generalizing s with
  | nil => exact .refl s
  | cons route routes ih =>
    have hfirst : Works (∃ r ∈ route :: routes, s.pagePath r = ·) s (s.writePage route).2 :=
      (works_writePage s route).mono fun _ h ↦ ⟨route, List.mem_cons_self, h⟩
    rw [writePages]
    rcases hw : s.writePage route with ⟨cause | isWritten, s₁⟩ <;> rw [hw] at hfirst
    · exact hfirst
    · refine hfirst.trans ((ih s₁).mono ?_)
      rintro _ ⟨r, hr, rfl⟩
      exact ⟨r, List.mem_cons_of_mem route hr, by rw [pagePath, pagePath, hfirst.alike.config]⟩

theorem works_build (s : Site) : Works (fun _ ↦ True) s s.build.2 := by
  have hfixed := (works_writeFiles s s.fixedFiles).mono fun _ _ ↦ trivial
  rw [build]
  rcases hw : s.writeFiles s.fixedFiles with ⟨cause | _, s₁⟩ <;> rw [hw] at hfixed
  · exact hfixed
  · have h := hfixed.trans ((works_writePages s₁ s₁.staticRoutes).mono fun _ _ ↦ trivial)
    dsimp only
    rcases hp : s₁.writePages s₁.staticRoutes with ⟨cause | ⟨pages, failed⟩, s₂⟩ <;> rw [hp] at h <;>
      exact h

theorem works_compileAll (files : String → Prop) (s : Site) (ids : List String) :
    Works files s (s.compileAll ids).2 := by
  induction ids generalizing s with
  | nil => exact .refl s
  | cons id ids ih =>
    have hfirst : Works files s (s.compile id).2 := .compile (.refl s) id
    rw [compileAll]
    rcases hc : s.compile id with ⟨stop | m, s₁⟩ <;> rw [hc] at hfirst <;> dsimp only
    · split
      · exact hfirst
      · exact hfirst.trans (ih s₁)
    · exact hfirst.trans (ih s₁)

theorem works_compileApp (files : String → Prop) (s : Site) : Works files s s.compileApp.2 := by
  rw [compileApp]
  split
  · exact .refl s
  · next app _ =>
    have h : Works files s (s.compile app).2 := .compile (.refl s) app
    rcases hc : s.compile app with ⟨stop | m, s₁⟩ <;> rw [hc] at h <;> exact h

theorem works_recompile (files : String → Prop) (s : Site) (id : String) :
    Works files s (s.recompile id).2 := by
  have h : Works files s (s.compile id).2 := .compile (.refl s) id
  rw [recompile]
  rcases hc : s.compile id with ⟨stop | m, s₁⟩ <;> rw [hc] at h <;> exact h

theorem works_propagate (files : String → Prop) (n : Nat) (s : Site) (seen waiting : List String) :
    Works files s (propagate n s seen waiting).2 := by
  induction n generalizing s seen waiting with
  | zero => exact .refl s
  | succ n ih =>
    cases waiting with
    | nil => exact .refl s
    | cons id waiting =>
      have hfirst := works_recompile files s id
      rw [propagate]
      rcases hr : s.recompile id with ⟨stop | _ | _, s₁⟩ <;> rw [hr] at hfirst <;> exact hfirst.trans (ih _ _ _)

theorem openAt_eq_ok {disk : Disk} {network : Network} {env : Environment} {root : String}
    {o : Options} (h : (openAt disk network env root o).result = .ok s) : ∃ config map s₀,
      loadSettings disk env root o = .ok (config, map) ∧
      Works (fun _ ↦ False) (prepare disk network config map o) s₀ ∧ s = s₀.refreshPages := by
  rw [openAt] at h
  cases hl : loadSettings disk env root o with
  | error cause =>
    rw [hl] at h
    cases h
  | ok settings =>
    obtain ⟨config, map⟩ := settings
    rw [hl] at h
    dsimp only at h
    generalize hs : prepare disk network config map o = s₀ at h
    have happ := works_compileApp (fun _ ↦ False) s₀
    rw [start] at h
    rcases ha : s₀.compileApp with ⟨cause | _, s₁⟩ <;> rw [ha] at h happ
    · cases h
    · dsimp only at h
      have hall := works_compileAll (fun _ ↦ False) s₁
        (Discovery.modules s₁.world.disk s₁.sourceDirectory)
      rcases hc : s₁.compileAll (Discovery.modules s₁.world.disk s₁.sourceDirectory) with
        ⟨cause | _, s₂⟩ <;> rw [hc] at h hall
      · cases h
      · exact ⟨config, map, s₂, rfl, hs ▸ happ.trans hall, (Except.ok.inj h).symm⟩

theorem openAt_of_compileAll {s₀ s₁ : Site} {disk : Disk} {network : Network} {env : Environment}
    {root : String} {o : Options} {config : Config} {map : ImportMap}
    (hl : loadSettings disk env root o = .ok (config, map)) (hp : prepare disk network config map o = s₀)
    (happ : s₀.compileApp = (.ok (), s₁))
    (hall : s₁.compileAll (Discovery.modules s₁.world.disk s₁.sourceDirectory) = (.ok (), s)) :
    (openAt disk network env root o).result = .ok s.refreshPages := by
  have hstart : s₀.start = (.ok (), s.refreshPages) := by
    rw [start, happ]
    dsimp only
    rw [hall]
  rw [openAt, hl]
  dsimp only
  rw [hp, hstart]
  rfl

theorem openAt_of_empty {disk : Disk} {network : Network} {env : Environment} {root : String}
    {o : Options} {config : Config} {map : ImportMap}
    (hl : loadSettings disk env root o = .ok (config, map)) (hp : prepare disk network config map o = s)
    (happ : Discovery.appModule? s.world.disk s.sourceDirectory = none)
    (hmodules : Discovery.modules s.world.disk s.sourceDirectory = []) :
    (openAt disk network env root o).result = .ok s.refreshPages := by
  refine openAt_of_compileAll hl hp (?_ : s.compileApp = (.ok (), s)) ?_
  · rw [compileApp, happ]
  · rw [hmodules]
    rfl

theorem changedModule_cases (s : Site) (id : String) : ∃ s₁, Works (fun _ ↦ False) s s₁ ∧
    ((∃ stop, (s.recompile id).1 = .error stop ∧ (s.changedModule id).2 = s₁) ∨
      (∃ isChanged, (s.recompile id).1 = .ok isChanged) ∧
        (s.changedModule id).2 = if concernsPages id then s₁.refreshPages else s₁) := by
  have hfirst := works_recompile (fun _ ↦ False) s id
  rw [changedModule]
  rcases hr : s.recompile id with ⟨stop | isChanged, s₁⟩ <;> rw [hr] at hfirst
  · refine ⟨s₁, hfirst, .inl ⟨stop, rfl, ?_⟩⟩
    dsimp only
    split <;> rfl
  · dsimp only
    cases isChanged with
    | false => exact ⟨s₁, hfirst, .inr ⟨⟨false, rfl⟩, rfl⟩⟩
    | true =>
      have hrest := works_propagate (fun _ ↦ False) s₁.world.depthBound s₁ [id]
        (fresh [] [id] (s₁.graph.dependents id))
      exact ⟨_, hfirst.trans hrest, .inr ⟨⟨true, rfl⟩, rfl⟩⟩

theorem change_cases (s : Site) (path : String) :
    (s.moduleIdOf? path = none ∧ (s.change path).2 = s) ∨ ∃ id, s.moduleIdOf? path = some id ∧
      ((s.world.disk.isFile (s.world.graph.folder.basePath id) = true ∧
          (s.change path).2 = (s.changedModule id).2) ∨
        (s.world.disk.isFile (s.world.graph.folder.basePath id) = false ∧
          (s.change path).2 = (s.removedModule id).2)) := by
  rw [change]
  cases hid : s.moduleIdOf? path with
  | none => exact .inl ⟨rfl, rfl⟩
  | some id =>
    refine .inr ⟨id, rfl, ?_⟩
    dsimp only
    cases s.world.disk.isFile (s.world.graph.folder.basePath id) with
    | true => exact .inl ⟨rfl, rfl⟩
    | false => exact .inr ⟨rfl, rfl⟩

/-- The states of a site that is opened and then used, while files and the answers of the network
change. -/
inductive Attained : Site → Prop
  | opened {disk : Disk} {network : Network} {env : Environment} {root : String} {o : Options}
      {s : Site} (tidy : disk.Tidy) (ok : (openAt disk network env root o).result = .ok s) :
      Attained s
  | edited {s : Site} (before : Attained s) {disk : Disk} (tidy : disk.Tidy) (network : Network) :
      Attained { s with world := { s.world with disk, network } }
  | shown {s : Site} (before : Attained s) (location : String) : Attained (s.page location).2
  | asked {s : Site} (before : Attained s) (location : String) : Attained (s.staticProps location).2
  | built {s : Site} (before : Attained s) : Attained s.build.2
  | changed {s : Site} (before : Attained s) (path : String) : Attained (s.change path).2

structure Settled (s : Site) : Prop where
  normal : s.config.Normal
  pages : ∃ ids, s.pages = .ofIds ids ∧ ∀ id ∈ ids, PageTable.IsPublic id
  hashed : s.world.Hashed fun _ ↦ True
  tidy : s.world.disk.Tidy

theorem Settled.works (h : s.Settled) (hw : Works files s s') : s'.Settled := by
  have ha := hw.alike
  exact ⟨ha.config.symm ▸ h.normal, ha.pages.symm ▸ h.pages, (hw.hashed h.hashed).1, hw.tidy h.tidy⟩

theorem Settled.refreshPages (h : s.Settled) : s.refreshPages.Settled :=
  ⟨h.normal, ⟨_, rfl, fun _ ↦ Discovery.isPublic_of_mem h.tidy⟩, h.hashed, h.tidy⟩

theorem settled_prepare {disk : Disk} (ht : disk.Tidy) (network : Network) {config : Config}
    (hc : config.Normal) (map : ImportMap) (o : Options) :
    (prepare disk network config map o).Settled := by
  refine ⟨hc, ⟨[], PageTable.ofIds_nil.symm, fun _ hm ↦ (List.not_mem_nil hm).elim⟩,
    ⟨fun id m hm ↦ ?_, ?_⟩, ?_⟩
  · rcases hm with hm | hm <;> cases hm
  · exact fun _ _ _ _ _ _ _ _ ↦ trivial
  · exact ArtifactStore.tidy_openAt ht _ _

theorem settled_openAt {disk : Disk} {network : Network} {env : Environment} {root : String}
    {o : Options} (ht : disk.Tidy) (h : (openAt disk network env root o).result = .ok s) :
    s.Settled := by
  obtain ⟨config, map, s₀, hl, hw, rfl⟩ := openAt_eq_ok h
  refine ((settled_prepare ht network ?_ map o).works hw).refreshPages
  rw [loadSettings] at hl
  cases hc : Config.load disk root o.overrides with
  | error cause =>
    rw [hc] at hl
    cases hl
  | ok c =>
    have hconfig : config = c := by
      rw [hc] at hl
      simp only [Except.mapError, bind, Except.bind] at hl
      split at hl
      · exact (Prod.mk.inj (Except.ok.inj hl)).1.symm
      · split at hl
        · cases hl
        · exact (Prod.mk.inj (Except.ok.inj hl)).1.symm
    exact hconfig ▸ Config.normal_load hc

theorem Settled.change (h : s.Settled) (path : String) : (s.change path).2.Settled := by
  rcases change_cases s path with ⟨-, he⟩ | ⟨id, -, ⟨-, he⟩ | ⟨-, he⟩⟩ <;> rw [he]
  · exact h
  · obtain ⟨s₁, hw, ⟨stop, -, he⟩ | ⟨-, he⟩⟩ := changedModule_cases s id <;> rw [he]
    · exact h.works hw
    · split
      · exact (h.works hw).refreshPages
      · exact h.works hw
  · have hremoved : Settled { s with world := { s.world with graph := (s.graph.remove id).2 } } :=
      ⟨h.normal, h.pages, h.hashed.remove id, h.tidy⟩
    exact hremoved.refreshPages

theorem Attained.settled (h : s.Attained) : s.Settled := by
  induction h with
  | opened ht hok => exact settled_openAt ht hok
  | edited _ ht network ih =>
    exact ⟨ih.normal, ih.pages, ⟨ih.hashed.modules, fun _ _ _ _ _ _ _ _ ↦ trivial⟩, ht⟩
  | shown _ location ih => exact ih.works (works_page (fun _ ↦ False) _ location)
  | asked _ location ih => exact ih.works (works_staticProps (fun _ ↦ False) _ location)
  | built _ ih => exact ih.works (works_build _)
  | changed _ path ih => exact ih.change path

def topSite (disk : Disk) (pages : PageTable) : Site where
  config := .default "/"
  isProduction := false
  world := ⟨.new ⟨"/", Config.defaultMaxModuleSize⟩ ⟨"/.cache"⟩ ⟨⟨[]⟩, true, false⟩, disk,
    ⟨[], .error .hostNotFound, []⟩⟩
  pages := pages
  appModule? := none
  dictionaries := []
  executor := .idle
  renderPage := fun page ↦ .ok (Shell.page page)

def storeDisk : Disk :=
  (ArtifactStore.openAt ⟨[], []⟩ "/.cache" Graph.storeVersion).2

theorem modules_eq_nil {disk : Disk} {source : String}
    (h : ∀ name ∈ Discovery.moduleDirectories, disk.isDirectory (FilePath.join source name) = false) :
    Discovery.modules disk source = [] := by
  have hnone : ∀ name ∈ Discovery.moduleDirectories, Discovery.modulesIn disk source name = [] := by
    intro name hname
    rw [Discovery.modulesIn]
    dsimp only
    rw [h name hname]
    cases disk.locate (FilePath.join source name) <;> rfl
  rw [Discovery.modules, List.flatMap_eq_nil_iff.2 hnone]
  exact List.mergeSort_nil

theorem prepare_topSite : prepare ⟨[], []⟩ ⟨[], .error .hostNotFound, []⟩ (.default "/") ⟨[]⟩
    { Options.default with importMap? := some ⟨[]⟩ } = topSite storeDisk .empty := by
  have hdictionaries : Discovery.dictionaries storeDisk "/" = [] := by
    decide
  rw [topSite, ← hdictionaries]
  rfl

theorem openAt_topSite : (openAt ⟨[], []⟩ ⟨[], .error .hostNotFound, []⟩ [] "/"
    { Options.default with importMap? := some ⟨[]⟩ }).result = .ok (topSite storeDisk .empty) := by
  have happ : Discovery.appModule? storeDisk "/" = none := by
    decide
  have hmodules : Discovery.modules storeDisk "/" = [] := modules_eq_nil (by decide)
  have hrefresh : (topSite storeDisk .empty).refreshPages = topSite storeDisk .empty := by
    change { topSite storeDisk .empty with
      pages := PageTable.ofIds (Discovery.modules storeDisk "/")
      appModule? := Discovery.appModule? storeDisk "/" } = topSite storeDisk .empty
    rw [happ, hmodules, PageTable.ofIds_nil]
    rfl
  rw [← hrefresh]
  exact openAt_of_empty rfl prepare_topSite happ hmodules

end Site
end SiteCompiler
