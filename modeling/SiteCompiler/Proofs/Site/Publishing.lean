import SiteCompiler.Proofs.Graph.Renewal
import SiteCompiler.Proofs.Site.Building
import SiteCompiler.Proofs.Site.Watching

namespace SiteCompiler

open Disk (Place placeOf Grows)

namespace Site

open SiteCompiler.Graph (World Sound)
open Relation (TransGen)

variable {files : String → Prop} {R : String → Prop} {s s' s₀ s₁ : Site} {id x path route : String}
  {fs : List (String × String)}

def Spares (s : Site) (files : String → Prop) : Prop :=
  ∀ path, files path → ¬s.world.storePlace <+: placeOf s.world.disk.workingDirectory path

/-- The source of a module is a file that is not in the store, and not one of those at the paths. -/
def KeepsSource (s : Site) (files : String → Prop) (x : String) : Prop :=
  (Dialect.ofPath? x).isSome ∧ ∃ place content,
    s.world.disk.locate (s.world.graph.folder.basePath x) = .ok place ∧
    s.world.disk.entry? place = some (.file content) ∧ ¬s.world.storePlace <+: place ∧
    ∀ path, files path → placeOf s.world.disk.workingDirectory path ≠ place

/-- While modules are compiled and files are written, the disk grows in the store and at the paths. -/
structure Passes (files : String → Prop) (s s' : Site) : Prop extends
    s.world.SameTerms s'.world where
  sound : Sound False (fun _ ↦ True) s'.world
  store : s'.world.graph.store = s.world.graph.store
  disk : Grows (fun p _ ↦ s.world.storePlace <+: p ∨
    ∃ path, files path ∧ placeOf s.world.disk.workingDirectory path = p) s.world.disk s'.world.disk

theorem Passes.storePlace (h : Passes files s s') : s'.world.storePlace = s.world.storePlace := by
  rw [World.storePlace, World.storePlace, h.store, h.disk.workingDirectory]

theorem Works.passes (h : Works files s s') (hs : Sound False (fun _ ↦ True) s.world)
    (hf : s.Spares files) : Passes files s s' := by
  induction h with
  | refl => exact ⟨.refl _, hs, rfl, .refl _ _⟩
  | @compile s' _ id ih =>
    have hw := World.worked_compile ih.sound id .default
    refine ⟨ih.toSameTerms.trans hw.toSameTerms,
      ih.sound.compile False.elim id .default fun _ _ _ ↦ trivial, hw.store.trans ih.store,
      ih.disk.trans ((hw.disk.grows fun _ ↦ Graph.Keeps.writes_below).mono fun p _ hp ↦ .inl ?_)⟩
    rw [← ih.storePlace]
    exact hp
  | execute _ request ih => exact ⟨ih.toSameTerms, ih.sound, ih.store, ih.disk⟩
  | @write s' _ path hp text ih =>
    obtain ⟨disk, he, hg, -, -⟩ := writeFile_cases s' path text
    rw [he]
    rw [ih.disk.workingDirectory] at hg
    refine ⟨ih.toSameTerms.trans ⟨rfl, rfl, rfl, rfl⟩, ih.sound.grows_apart hg ?_, ih.store,
      ih.disk.trans (hg.mono fun p _ h ↦ .inr ⟨path, hp, h.1⟩)⟩
    rintro p _ ⟨rfl, -⟩
    rw [ih.storePlace]
    exact hf path hp

theorem KeepsSource.passes (h : s.KeepsSource files x) (hw : Passes files s s') :
    s'.KeepsSource files x ∧
      (¬ModuleId.isRemote x → s'.world.source? x = s.world.source? x) := by
  obtain ⟨hx, place, content, hl, he, hstore, hfiles⟩ := h
  obtain ⟨c, hc, hnew⟩ := hw.disk.file he
  obtain rfl := hnew.resolve_right fun hn ↦ hn.elim hstore fun ⟨path, hp, hplace⟩ ↦
    hfiles path hp hplace
  refine ⟨⟨hx, place, c, ?_, hc, hw.storePlace ▸ hstore, ?_⟩, fun hr ↦ ?_⟩
  · rw [hw.folder]
    exact hw.disk.locate hl
  · rw [hw.disk.workingDirectory]
    exact hfiles
  · rw [World.source?, World.source?, Source.load, Source.load, if_neg hr, if_neg hr, hw.folder,
      Source.Folder.read_congr hx hl he (hw.disk.locate hl) hc]

theorem KeepsSource.separate (h : s.KeepsSource files x) : s.world.Separate x := by
  obtain ⟨hx, place, content, hl, he, hstore, -⟩ := h
  exact Graph.separate_of_file hx hl he hstore

theorem KeepsSource.mono {files' : String → Prop} (h : s.KeepsSource files x)
    (hf : ∀ path, files' path → files path) : s.KeepsSource files' x := by
  obtain ⟨hx, place, content, hl, he, hstore, hfiles⟩ := h
  exact ⟨hx, place, content, hl, he, hstore, fun path hp ↦ hfiles path (hf path hp)⟩

/-- Settled modules stay as they are while modules are compiled and files are written elsewhere. -/
theorem Works.keeps_settled (h : Works files s s') (hs : Sound False (fun _ ↦ True) s.world)
    (hf : s.Spares files) (hR : s.world.Settled R)
    (hsource : ∀ x, R x → ModuleId.isRemote x ∨ s.KeepsSource files x) :
    s'.world.Settled R ∧ ∀ x m, R x → s.world.Has x m → s'.world.Has x m := by
  have hset : ∀ {s'}, Works files s s' → (∀ x m, R x → s.world.Has x m → s'.world.Has x m) →
      s'.world.Settled R := fun {s'} hw hk ↦
    have hp := hw.passes hs hf
    hR.of_sources hs hp.sound (fun x hx hl ↦ (((hsource x hx).resolve_left hl).passes hp).2 hl) hk
  suffices hk : ∀ x m, R x → s.world.Has x m → s'.world.Has x m from ⟨hset h hk, hk⟩
  induction h with
  | refl => exact fun _ _ _ hm ↦ hm
  | @compile s' hw id ih =>
    have hp := hw.passes hs hf
    intro x m hx hm
    exact (hset hw ih).keeps hp.sound (fun x hx ↦ (hsource x hx).imp_right fun h ↦
      (h.passes hp).1.separate) id x m hx (ih x m hx hm)
  | execute _ request ih => exact ih
  | @write s' _ path _ text ih =>
    obtain ⟨disk, he, -⟩ := writeFile_cases s' path text
    rw [he]
    exact ih

section Current

variable {m : Module}

/-- A module can be compiled with all that it imports: no imports of local modules that it reaches lead
back to them, and their sources are files outside of the store. -/
structure CanCompile (t : Site) (id : String) : Prop where
  isLocal : ¬ModuleId.isRemote id
  named : ModuleId.NamesFile id
  compiled : ∃ m, (t.compile id).1 = .ok m
  acyclic : ∀ x, (t.compile id).2.world.Reaches id x → ¬ModuleId.isRemote x →
    ¬(t.compile id).2.world.OnCycle x
  sources : ∀ x, (t.compile id).2.world.Reaches id x → ¬ModuleId.isRemote x →
    t.KeepsSource (fun _ ↦ False) x

/-- A module has been compiled, and since then other ones have been, but no file has changed. -/
def UpToDate (s : Site) (id : String) : Prop :=
  ∃ (t s₀ : Site) (ws : List World), Graph.History (fun _ _ ↦ True) (t.world :: ws) ∧
    t.CanCompile id ∧ Works (fun _ ↦ False) (t.compile id).2 s₀ ∧ s.world = s₀.world

theorem UpToDate.settled (h : s.UpToDate id) : Sound False (fun _ ↦ True) s.world ∧
    ∃ R, s.world.Settled R ∧ R id ∧ ∀ x, R x → ∃ m, s.world.Has x m := by
  obtain ⟨t, s₀, ws, hist, hcompiles, hworks, hworld⟩ := h
  obtain ⟨m, hok⟩ := hcompiles.compiled
  have hacyclic := hcompiles.acyclic
  have hsources := hcompiles.sources
  rw [hworld]
  have ht : Sound False (fun _ ↦ True) t.world :=
    Graph.sound_of_history hist False.elim (fun _ _ _ _ _ ↦ trivial) _ List.mem_cons_self
  have hspares : ∀ s : Site, s.Spares fun _ ↦ False := fun _ _ hp ↦ hp.elim
  have hcompile : Works (fun _ ↦ False) t (t.compile id).2 := .compile (.refl t) id
  have hpassed := hcompile.passes ht (hspares t)
  rcases hc : t.world.compile id .default with ⟨result, w'⟩
  have hcompiled : t.compile id = (result, { t with world := w' }) := by
    rw [compile, hc]
  rw [hcompiled] at hok hacyclic hsources hworks hpassed
  obtain rfl : result = .ok m := hok
  obtain ⟨-, -, -, he, -, -, -, hfound⟩ := Graph.traversal_of_compile hc
  obtain rfl : id = m.id := Except.ok.inj
    ((Graph.entryId_self hcompiles.isLocal hcompiles.named).symm.trans he)
  have hb := Graph.brings_of_compile ht hc
  have hset := hb.settled fun x hx hl ↦ ⟨hacyclic x hx hl, (hsources x hx hl).separate⟩
  obtain ⟨hset', hkeeps⟩ := hworks.keeps_settled hb.sound (hspares _) hset fun x hx ↦
    or_iff_not_imp_left.2 fun hl ↦ ((hsources x hx.1 hl).passes hpassed).1
  refine ⟨(hworks.passes hb.sound (hspares _)).sound, _, hset', ⟨.refl, m, hfound⟩, fun x hx ↦ ?_⟩
  obtain ⟨n, hn⟩ := hx.2
  exact ⟨n, hkeeps x n hx hn⟩

theorem UpToDate.named (h : s.UpToDate id) : ¬ModuleId.isRemote id ∧ ModuleId.NamesFile id := by
  obtain ⟨t, -, -, -, hcompiles, -⟩ := h
  exact ⟨hcompiles.isLocal, hcompiles.named⟩

/-- The document of a page, with the modules that are registered. -/
def document (s : Site) (l : Route.Location) (id : String) (page : Module) (props : Option Json) :
    Except RenderError String :=
  s.renderPage ⟨l, id, s.moduleUrl page, (s.appModule?.bind s.graph.module?).map s.moduleUrl, props⟩

end Current

section Publishing

variable {summary : Summary} {ws : List World} {m : Module} {f : String × String}

/-- When the turn of a page has come, modules have been compiled and files of the build written. -/
theorem Works.turn {s₀ : Site} {routes : List String}
    (hfixed : Works (· ∈ s.fixedFiles.map Prod.fst) s s₀) (hr : ∀ r ∈ routes, r ∈ s.staticRoutes) :
    Works (· ∈ s.buildPaths) s (s₀.writePages routes).2 := by
  have hpages := works_writePages s₀ routes
  refine (hfixed.mono fun path hm ↦ List.mem_append_left _ hm).trans (hpages.mono ?_)
  rintro _ ⟨r, hm, rfl⟩
  rw [hfixed.alike.pagePath]
  exact List.mem_append_right _ (List.mem_map_of_mem (hr r hm))

def appCode (hash : String) : String :=
  "import \"./pages/index." ++ hash ++ ".js\";\n"

theorem contentHash_appCode : Digest.contentHash (appCode "da39a3ee5") =
    "042c7335fa3298645ce9c8d6660762fc60e4a759" := by
  decide +kernel

def HoldsApp (s : Site) : Prop :=
  ∀ x m, s.world.Has x m → m.sourceMap = none ∧
    (x = "/app.js" ∧ m.code = appCode "da39a3ee5" ∧
        m.dependencies = [⟨"/pages/index.js", "da39a3ee5e6b4b0d3255bfef95601890afd80709"⟩] ∨
      x = "/pages/index.js" ∧ m.code = "" ∧ m.dependencies = [])

theorem HoldsApp.outputName (h : s.HoldsApp) (hs : Sound False (fun _ ↦ True) s.world)
    (hm : s.world.Has x m) :
    x = "/app.js" ∧ m.outputName = "/app.042c7335f.js" ∧ m.code = appCode "da39a3ee5" ∨
      x = "/pages/index.js" ∧ m.outputName = "/pages/index.da39a3ee5.js" ∧ m.code = "" := by
  have hfiled := hs.known hm
  have hname : ModuleId.isRemote x = false → m.outputName = Module.nameOf (ModuleId.stem x)
      (some (Digest.contentHash m.code)) := by
    intro hl
    rw [Module.outputName, Module.stem, Module.nameHash, hfiled.isRemote, hm.id_eq, hl, hfiled.hash]
    rfl
  obtain ⟨-, ⟨rfl, hcode, -⟩ | ⟨rfl, hcode, -⟩⟩ := h x m hm
  · refine .inl ⟨rfl, ?_, hcode⟩
    rw [hname rfl, hcode, contentHash_appCode]
    decide
  · refine .inr ⟨rfl, ?_, hcode⟩
    rw [hname rfl, hcode, Graph.contentHash_empty]
    decide

theorem HoldsApp.aliases (h : s.HoldsApp) (hs : Sound False (fun _ ↦ True) s.world) :
    s.graph.aliases = [] := by
  rw [List.eq_nil_iff_forall_not_mem]
  intro a ha
  obtain ⟨m, hm, d, hd, he⟩ := Graph.exists_of_mem_aliases ha
  obtain ⟨htarget, -, -, hne⟩ := Graph.aliasOf?_eq_some he
  obtain ⟨-, ⟨-, -, hdeps⟩ | ⟨-, -, hdeps⟩⟩ := h _ m (.inl (hs.sorted.find?_of_mem hm)) <;>
    rw [hdeps] at hd
  · obtain rfl := List.mem_singleton.1 hd
    obtain ⟨-, ⟨hid, -⟩ | ⟨-, hcode, -⟩⟩ := h _ a.target (.inl htarget)
    · exact absurd hid (by decide)
    · rw [(hs.modules _ _ htarget).1.hash, hcode, Graph.contentHash_empty] at hne
      exact hne rfl
  · cases hd

theorem HoldsApp.fixedFiles (h : s.HoldsApp) (hs : Sound False (fun _ ↦ True) s.world)
    (hconfig : s.config = .default "/") : ∀ f ∈ s.fixedFiles,
      f = ("/out/_post/app.042c7335f.js", appCode "da39a3ee5") ∨
      f = ("/out/_post/pages/index.da39a3ee5.js", "") ∨ f = ("/out/manifest.json", s.manifest.pretty) := by
  have hdirectory : s.moduleDirectory = "/out/_post" := by
    rw [moduleDirectory, hconfig]
    decide
  intro f hf
  rcases List.mem_append.1 hf with hf | hf
  · obtain ⟨⟨name, m⟩, ho, hf⟩ := List.mem_flatMap.1 hf
    rw [outputs, h.aliases hs, List.map_nil, List.append_nil] at ho
    obtain ⟨m', hm', he⟩ := List.mem_map.1 ho
    obtain ⟨rfl, rfl⟩ := Prod.mk.inj he
    have hm : s.world.Has m'.id m' := by
      rcases List.mem_append.1 hm' with hm' | hm'
      · exact .inl (hs.sorted.find?_of_mem hm')
      · obtain ⟨n, hn⟩ := Option.isSome_iff_exists.1
          (List.find?_isSome (p := (·.id = m'.id)).2 ⟨m', hm', decide_eq_true rfl⟩)
        have hremote := (hs.remote m'.id n hn).2.2
        obtain ⟨-, ⟨he, -⟩ | ⟨he, -⟩⟩ := h _ n (.inr hn) <;> rw [he] at hremote <;>
          exact absurd hremote (by decide)
    rcases List.mem_cons.1 hf with rfl | hf
    swap
    · obtain ⟨map, hmap, -⟩ := List.mem_map.1 hf
      rw [(h _ _ hm).1] at hmap
      cases hmap
    rw [hdirectory]
    obtain ⟨-, hname, hcode⟩ | ⟨-, hname, hcode⟩ := h.outputName hs hm <;> rw [hname, hcode]
    · exact .inl (by decide)
    · exact .inr (.inl (by decide))
  · obtain rfl := List.mem_singleton.1 hf
    rw [hconfig]
    exact .inr (.inr (congrArg (·, s.manifest.pretty) (by decide)))

end Publishing
end Site
end SiteCompiler
