import SiteCompiler.Proofs.Graph.Calls
import SiteCompiler.Proofs.Graph.Clean
import SiteCompiler.Proofs.SourceTree

namespace SiteCompiler

def Module.unplaced (m : Module) : Module :=
  { m with file := "" }

/-- Two modules that differ at most in where they are stored. -/
def Module.Mirrors (m m' : Module) : Prop :=
  m'.unplaced = m.unplaced

theorem Module.Mirrors.exists_file {m m' : Module} (h : m.Mirrors m') :
    ∃ file, m' = { m with file } := by
  obtain ⟨id, dialect, sourceHash, isRemote, hash, code, sourceMap, file, dependencies, slots⟩ := m'
  refine ⟨file, ?_⟩
  rw [Module.Mirrors, Module.unplaced, Module.unplaced, Module.mk.injEq] at h
  rw [Module.mk.injEq]
  exact ⟨h.1, h.2.1, h.2.2.1, h.2.2.2.1, h.2.2.2.2.1, h.2.2.2.2.2.1, h.2.2.2.2.2.2.1, rfl,
    h.2.2.2.2.2.2.2.2.1, h.2.2.2.2.2.2.2.2.2⟩

theorem Module.Mirrors.hash_eq {m m' : Module} (h : m.Mirrors m') : m'.hash = m.hash := by
  obtain ⟨file, rfl⟩ := h.exists_file
  rfl

theorem Module.Mirrors.isRemote_eq {m m' : Module} (h : m.Mirrors m') :
    m'.isRemote = m.isRemote := by
  obtain ⟨file, rfl⟩ := h.exists_file
  rfl

theorem map_eq_of_unplaced {α : Type} {f : Module → α} (hf : ∀ m, f m.unplaced = f m)
    {x y : Option Module} (h : y.map Module.unplaced = x.map Module.unplaced) :
    y.map f = x.map f := by
  have hf : f = f ∘ Module.unplaced := funext fun m ↦ (hf m).symm
  rw [hf, ← Option.map_map, ← Option.map_map, h]

namespace ModuleTable

def unplaced (t : ModuleTable) : ModuleTable :=
  ⟨t.modules.map Module.unplaced⟩

theorem find?_unplaced (t : ModuleTable) (id : String) :
    t.unplaced.find? id = (t.find? id).map Module.unplaced := by
  rw [find?, unplaced, List.find?_map]
  rfl

theorem map_insertSorted (m : Module) (ms : List Module) :
    (insertSorted m ms).map Module.unplaced = insertSorted m.unplaced (ms.map Module.unplaced) := by
  induction ms with
  | nil => rfl
  | cons other ms ih =>
    rw [insertSorted, List.map_cons, insertSorted]
    change _ = if m.id = other.id then _ else if m.id < other.id then _ else _
    split
    · rfl
    · split
      · rfl
      · rw [List.map_cons, ih]

theorem unplaced_insert (t : ModuleTable) (m : Module) :
    (t.insert m).unplaced = t.unplaced.insert m.unplaced :=
  congrArg ModuleTable.mk (map_insertSorted m t.modules)

end ModuleTable

/-- Both computations fail with related errors, or both give related results. -/
inductive Matches {ε α : Type} (E : ε → ε → Prop) (R : α → α → Prop) :
    Except ε α → Except ε α → Prop
  | ok {x y : α} (related : R x y) : Matches E R (.ok x) (.ok y)
  | error {d e : ε} (related : E d e) : Matches E R (.error d) (.error e)

theorem Matches.of_mapError {ε δ α : Type} {f : ε → δ} {x y : Except ε α}
    (h : y.mapError f = x.mapError f) : Matches (fun d e ↦ f e = f d) Eq x y := by
  cases x with
  | error d =>
    cases y with
    | error e => exact .error (Except.error.inj h)
    | ok y => cases h
  | ok x =>
    cases y with
    | error e => cases h
    | ok y => exact .ok (Except.ok.inj h).symm

namespace Graph

def Error.unplaced : Error → Error
  | .source cause => .source cause.unplaced
  | e => e

def Stop.unplaced : Stop → Stop
  | .error cause => .error cause.unplaced
  | stop => stop

/-- Two errors that differ at most in the paths that they tell of. -/
def Error.Mirrors (e e' : Error) : Prop :=
  e'.unplaced = e.unplaced

def Stop.Mirrors (stop stop' : Stop) : Prop :=
  stop'.unplaced = stop.unplaced

def compiledAs (g : Graph) (disk : Disk) (id : String) (o : Options) (s : Source) :
    Except CompileError Compiled :=
  Compiled.compile (g.linkage disk id) (o.dialect?.getD s.dialect) s.text g.settings.sourceMap

/-- The same source of a module is had in two worlds, as options say, or the same error occurs, and the
same comes of the source. -/
structure World.Alike (w w' : World) (id : String) (o : Options) : Prop where
  load : o.source? = none → Matches (fun e e' ↦ SourceError.unplaced e' = SourceError.unplaced e) Eq
    (Source.load w.graph.folder w.disk w.network id).1
    (Source.load w'.graph.folder w'.disk w'.network id).1
  compiled : ∀ s, w.sourceFor? id o = some s →
    w'.graph.compiledAs w'.disk id o s = w.graph.compiledAs w.disk id o s

/-- Two worlds with the same settings, modules and answers, wherever their files are. -/
structure World.Mirrors (w w' : World) : Prop where
  settings : w'.graph.settings = w.graph.settings
  modules : w'.graph.modules.unplaced = w.graph.modules.unplaced
  remote : w'.graph.remote.unplaced = w.graph.remote.unplaced
  network : w'.network = w.network

/-- Two runs that are at the same point of the same run, wherever the files are. -/
structure Run.Mirrors (r r' : Run) : Prop where
  world : r.world.Mirrors r'.world
  visited : r'.visited = r.visited
  stack : r'.stack.map Module.unplaced = r.stack.map Module.unplaced
  cyclic : r'.cyclic = r.cyclic

section Steps

variable {g g' : Graph} {disk disk' : Disk}
  {w w' : World} {m m' : Module} {previous previous' : Option Module} {id : String} {o : Options}

theorem knownHash_eq_of_unplaced (hm : g'.modules.unplaced = g.modules.unplaced)
    (hr : g'.remote.unplaced = g.remote.unplaced)
    (hp : previous'.map Module.unplaced = previous.map Module.unplaced) :
    g'.knownHash previous' = g.knownHash previous := by
  funext id
  have hfound : ((g'.modules.find? id).or (g'.remote.find? id)).map Module.unplaced =
      ((g.modules.find? id).or (g.remote.find? id)).map Module.unplaced := by
    rw [Option.map_or, Option.map_or, ← ModuleTable.find?_unplaced, ← ModuleTable.find?_unplaced,
      ← ModuleTable.find?_unplaced, ← ModuleTable.find?_unplaced, hm, hr]
  have hdependencies := map_eq_of_unplaced (f := (·.dependencies)) (fun _ ↦ rfl) hp
  have hhash := map_eq_of_unplaced (f := (·.hash)) (fun _ ↦ rfl) hfound
  rw [knownHash, knownHash, hdependencies]
  cases hx : (g.modules.find? id).or (g.remote.find? id) with
  | none =>
    rw [hx] at hhash
    rw [Option.map_eq_none_iff.1 hhash]
  | some m =>
    rw [hx] at hhash
    obtain ⟨m', hm', he⟩ := Option.map_eq_some_iff.1 hhash
    rw [hm']
    exact he

theorem mirrors_sealed (g g' : Graph) (m : Module) : (g.sealed m).Mirrors (g'.sealed m) := by
  rw [Module.Mirrors, Module.unplaced, Module.unplaced, sealed, sealed]

theorem transpile_mirrors (hm : g'.modules.unplaced = g.modules.unplaced)
    (hr : g'.remote.unplaced = g.remote.unplaced)
    (hp : previous'.map Module.unplaced = previous.map Module.unplaced) {s : Source}
    (hc : g'.compiledAs disk' id o s = g.compiledAs disk id o s) :
    Matches Stop.Mirrors Module.Mirrors (g.transpile disk id s o previous)
      (g'.transpile disk' id s o previous') := by
  rw [transpile, transpile]
  dsimp only
  rw [show Compiled.compile _ _ _ _ = _ from hc, knownHash_eq_of_unplaced hm hr hp, compiledAs]
  cases Compiled.compile (g.linkage disk id) (o.dialect?.getD s.dialect) s.text
    g.settings.sourceMap with
  | error cause => exact .error rfl
  | ok c =>
    dsimp only
    split
    · exact .error rfl
    · exact .ok (mirrors_sealed g g' _)

theorem relink_mirrors (h : m.Mirrors m') (dependencies : List Dependency) :
    Matches Stop.Mirrors Module.Mirrors (g.relink m dependencies) (g'.relink m' dependencies) := by
  obtain ⟨file, rfl⟩ := h.exists_file
  rw [relink, relink]
  dsimp only
  split
  · exact .error rfl
  · exact .ok (mirrors_sealed g g' _)
  · exact .ok rfl

theorem network_load (f f' : Source.Folder) (disk disk' : Disk) (network : Network) (id : String) :
    (Source.load f' disk' network id).2 = (Source.load f disk network id).2 := by
  rw [Source.load, Source.load]
  split <;> rfl

namespace World.Mirrors

theorem refl (w : World) : w.Mirrors w :=
  ⟨rfl, rfl, rfl, rfl⟩

theorem find?_modules (h : w.Mirrors w') (id : String) :
    (w'.graph.modules.find? id).map Module.unplaced =
      (w.graph.modules.find? id).map Module.unplaced := by
  rw [← ModuleTable.find?_unplaced, ← ModuleTable.find?_unplaced, h.modules]

theorem find?_remote (h : w.Mirrors w') (id : String) :
    (w'.graph.remote.find? id).map Module.unplaced =
      (w.graph.remote.find? id).map Module.unplaced := by
  rw [← ModuleTable.find?_unplaced, ← ModuleTable.find?_unplaced, h.remote]

theorem of_sameGraph {v v' : World} (h : w.Mirrors w') (hs : w.SameGraph v) (hs' : w'.SameGraph v')
    (hn : v.network = w.network) (hn' : v'.network = w'.network) : v.Mirrors v' :=
  ⟨by rw [hs'.settings, hs.settings, h.settings], by rw [hs'.modules, hs.modules, h.modules],
    by rw [hs'.remote, hs.remote, h.remote], by rw [hn', hn, h.network]⟩

theorem obtain (h : w.Mirrors w') (ha : w.Alike w' id o)
    (hp : previous'.map Module.unplaced = previous.map Module.unplaced) :
    Matches Error.Mirrors Eq (w.obtain id o previous).1 (w'.obtain id o previous').1 ∧
      (w.obtain id o previous).2.Mirrors (w'.obtain id o previous').2 := by
  have hnewer : newer previous' = newer previous := by
    funext s
    rw [newer, newer, map_eq_of_unplaced (f := (·.sourceHash)) (fun _ ↦ rfl) hp]
  have hsome : previous'.isSome = previous.isSome := by
    rw [← Option.isSome_map (f := Module.unplaced), hp, Option.isSome_map]
  rw [World.obtain, World.obtain, hnewer, hsome]
  cases ho : o.source? with
  | some text => exact ⟨.ok rfl, h⟩
  | none =>
    dsimp only
    split
    · exact ⟨.ok rfl, h⟩
    · have hload := ha.load ho
      have hnetwork := network_load w.graph.folder w'.graph.folder w.disk w'.disk w.network id
      rw [h.network] at hload ⊢
      generalize Source.load w.graph.folder w.disk w.network id = p at hload hnetwork
      generalize Source.load w'.graph.folder w'.disk w.network id = p' at hload hnetwork
      obtain ⟨a, n⟩ := p
      obtain ⟨b, n'⟩ := p'
      obtain rfl : n' = n := hnetwork
      dsimp only at hload
      cases hload with
      | error he => exact ⟨.error (congrArg Error.source he), ⟨h.settings, h.modules, h.remote, rfl⟩⟩
      | ok he =>
        obtain rfl := he
        exact ⟨.ok rfl, ⟨h.settings, h.modules, h.remote, rfl⟩⟩

theorem count (h : w.Mirrors w') (f f' : Stats → Stats) : (w.count f).Mirrors (w'.count f') :=
  ⟨h.settings, h.modules, h.remote, h.network⟩

theorem prepare (h : w.Mirrors w') (ha : w.Alike w' id o)
    (hp : (w'.previous? id).map Module.unplaced = (w.previous? id).map Module.unplaced) :
    Matches Stop.Mirrors (fun p p' ↦ p.1.Mirrors p'.1 ∧ p'.2 = p.2) (w.prepare id o).1
        (w'.prepare id o).1 ∧
      (w.prepare id o).2.Mirrors (w'.prepare id o).2 := by
  obtain ⟨hobtain, hworld⟩ := h.obtain ha hp
  have hsame := w.sameModules_obtain id o (w.previous? id)
  have hsame' := w'.sameModules_obtain id o (w'.previous? id)
  have hsource : ∀ s, (w.obtain id o (w.previous? id)).1 = .ok (some s) →
      w'.graph.compiledAs w'.disk id o s = w.graph.compiledAs w.disk id o s :=
    fun s hs ↦ ha.compiled s (sourceFor?_of_obtain hs)
  rw [World.prepare, World.prepare]
  rw [show (w.graph.modules.find? id).or (w.graph.loadPersisted? w.disk id) = w.previous? id
    from rfl, show (w'.graph.modules.find? id).or (w'.graph.loadPersisted? w'.disk id) =
    w'.previous? id from rfl]
  generalize w.obtain id o (w.previous? id) = p at hobtain hworld hsame hsource
  generalize w'.obtain id o (w'.previous? id) = p' at hobtain hworld hsame'
  obtain ⟨a, v⟩ := p
  obtain ⟨b, v'⟩ := p'
  dsimp only at hobtain hworld hsame hsame' hsource
  cases hobtain with
  | error he => exact ⟨.error (congrArg Stop.error he), hworld⟩
  | @ok fetched _ he =>
    obtain rfl := he
    cases fetched with
    | none =>
      dsimp only
      cases hx : w.previous? id with
      | none =>
        rw [hx] at hp
        rw [Option.map_eq_none_iff.1 hp]
        exact ⟨.error rfl, hworld⟩
      | some m =>
        rw [hx] at hp
        obtain ⟨m', hm', he⟩ := Option.map_eq_some_iff.1 hp
        rw [hm']
        obtain ⟨file, rfl⟩ := Module.Mirrors.exists_file he
        dsimp only
        exact ⟨.ok ⟨rfl, rfl⟩, hworld.count _ _⟩
    | some s =>
      have htranspile := transpile_mirrors h.modules h.remote hp (hsource s rfl)
      dsimp only
      rw [hsame.transpile, hsame'.transpile]
      generalize w.graph.transpile w.disk id s o (w.previous? id) = x at htranspile
      generalize w'.graph.transpile w'.disk id s o (w'.previous? id) = x' at htranspile
      cases htranspile with
      | error he => exact ⟨.error he, hworld⟩
      | ok hm =>
        dsimp only
        exact ⟨.ok ⟨hm, rfl⟩, hworld.count _ _⟩

theorem finish (h : w.Mirrors w') (hm : m.Mirrors m') (changed : Bool) :
    (w.finish m changed).Mirrors (w'.finish m' changed) := by
  obtain ⟨-, -, hs, hmodules, hremote⟩ := w.modules_finish m changed
  obtain ⟨-, -, hs', hmodules', hremote'⟩ := w'.modules_finish m' changed
  refine ⟨by rw [hs', hs, h.settings], ?_, ?_, ?_⟩
  · rw [hmodules', hmodules, hm.isRemote_eq]
    split
    · exact h.modules
    · rw [ModuleTable.unplaced_insert, ModuleTable.unplaced_insert, h.modules, hm]
  · rw [hremote', hremote, hm.isRemote_eq]
    split
    · rw [ModuleTable.unplaced_insert, ModuleTable.unplaced_insert, h.remote, hm]
    · exact h.remote
  · rw [World.network_finish, World.network_finish, h.network]

end World.Mirrors

namespace Run.Mirrors

variable {r r' inner inner' : Run} {ds : List Dependency}

theorem start (h : w.Mirrors w') : (Run.start w).Mirrors (Run.start w') :=
  ⟨h, rfl, rfl, rfl⟩

theorem entered (h : r.Mirrors r') {world world' : World} (hw : world.Mirrors world') (id : String) :
    (r.entered id world).Mirrors (r'.entered id world') :=
  ⟨hw, congrArg (List.cons id) h.visited, h.stack, h.cyclic⟩

theorem inside (h : r.Mirrors r') (hm : m.Mirrors m') : (r.inside m).Mirrors (r'.inside m') :=
  ⟨h.world, h.visited, congrArg₂ List.cons hm h.stack, h.cyclic⟩

theorem finished (h : inner.Mirrors inner') (hr : r.Mirrors r') (hm : m.Mirrors m')
    (changed : Bool) :
    (inner.finished r.stack m changed).Mirrors (inner'.finished r'.stack m' changed) :=
  ⟨h.world.finish hm changed, h.visited, hr.stack, h.cyclic⟩

theorem cycleTo_map (stack : List Module) (id : String) :
    cycleTo (stack.map Module.unplaced) id = cycleTo stack id := by
  refine cycleTo_congr ?_ id
  rw [List.map_map]
  rfl

theorem revisit (h : r.Mirrors r') (id : String) :
    Matches Stop.Mirrors Module.Mirrors (r.revisit id).1 (r'.revisit id).1 ∧
      (r.revisit id).2.Mirrors (r'.revisit id).2 := by
  have hcycle : cycleTo r'.stack id = cycleTo r.stack id := by
    rw [← cycleTo_map, h.stack, cycleTo_map]
  have hstack : (r'.stack.find? (·.id = id)).map Module.unplaced =
      (r.stack.find? (·.id = id)).map Module.unplaced := by
    have hfind : ∀ ms : List Module, (ms.map Module.unplaced).find? (·.id = id) =
        (ms.find? (·.id = id)).map Module.unplaced := fun ms ↦ by
      rw [List.find?_map]
      rfl
    rw [← hfind, ← hfind, h.stack]
  have hfound : ((r'.stack.find? (·.id = id)).or (r'.world.graph.modules.find? id)).map
      Module.unplaced =
      ((r.stack.find? (·.id = id)).or (r.world.graph.modules.find? id)).map Module.unplaced := by
    rw [Option.map_or, Option.map_or, hstack, h.world.find?_modules]
  have hrun : (r.noted id).Mirrors (r'.noted id) :=
    ⟨h.world, h.visited, h.stack, congrArg₂ (· ++ ·) hcycle h.cyclic⟩
  rw [Run.revisit, Run.revisit]
  dsimp only
  cases hx : (r.stack.find? (·.id = id)).or (r.world.graph.modules.find? id) with
  | none =>
    rw [hx] at hfound
    rw [Option.map_eq_none_iff.1 hfound]
    exact ⟨.error rfl, hrun⟩
  | some m =>
    rw [hx] at hfound
    obtain ⟨m', hm', he⟩ := Option.map_eq_some_iff.1 hfound
    rw [hm']
    exact ⟨.ok he, hrun⟩

theorem settledAs (h : r.Mirrors r') (hm : m.Mirrors m') (importer : String) (d : Dependency) :
    r'.renews importer d m' = r.renews importer d m ∧
      r'.settledAs importer d m' = r.settledAs importer d m := by
  have hrenews : r'.renews importer d m' = r.renews importer d m := by
    rw [renews, renews, keepsName, keepsName, hm.hash_eq, h.cyclic]
  exact ⟨hrenews, by rw [Run.settledAs, Run.settledAs, hrenews, hm.hash_eq]⟩

theorem concluded (h : r.Mirrors r') (hm : m.Mirrors m') (changed : Bool)
    {q q' : Except Stop (List Dependency × Bool) × Run}
    (hq : Matches Stop.Mirrors Eq q.1 q'.1 ∧ q.2.Mirrors q'.2) :
    Matches Stop.Mirrors Module.Mirrors (concluded r m changed q).1 (concluded r' m' changed q').1 ∧
      (Graph.concluded r m changed q).2.Mirrors (Graph.concluded r' m' changed q').2 := by
  obtain ⟨a, inner⟩ := q
  obtain ⟨b, inner'⟩ := q'
  obtain ⟨hresult, hinner⟩ := hq
  dsimp only at hresult hinner
  cases hresult with
  | error he => exact ⟨.error he, hinner⟩
  | @ok out _ he =>
    obtain rfl := he
    obtain ⟨ds, _ | _⟩ := out
    · exact ⟨.ok hm, hinner.finished h hm changed⟩
    · have hrelink : Matches Stop.Mirrors Module.Mirrors (inner.world.graph.relink m ds)
          (inner'.world.graph.relink m' ds) := relink_mirrors hm ds
      rw [Graph.concluded, Graph.concluded]
      generalize inner.world.graph.relink m ds = x at hrelink
      generalize inner'.world.graph.relink m' ds = x' at hrelink
      cases hrelink with
      | error he => exact ⟨.error he, hinner⟩
      | ok hm' => exact ⟨.ok hm', hinner.finished h hm' true⟩

end Run.Mirrors

end Steps

end Graph
end SiteCompiler
