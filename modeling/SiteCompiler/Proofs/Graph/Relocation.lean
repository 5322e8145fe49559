import SiteCompiler.Proofs.Graph.Enrolled
import SiteCompiler.Proofs.Graph.Mirroring
import SiteCompiler.Proofs.Graph.OutputNames
import SiteCompiler.Proofs.Graph.Reuse

namespace SiteCompiler.Graph

open ModuleId (IsSegment Normal normalizeLocal rooted)
open Source.Folder (SameTree)
open Disk (Place Through)

section Sheltering

variable {w u : World} {calls : List (String × Options)} {id text : String} {o : Options}
  {s : Source} {m : Module}

inductive World.Visits (w : World) (calls : List (String × Options)) : String → Options → Prop
  | call {text id : String} {o : Options} (mem : (text, o) ∈ calls)
      (entry : w.entryId text = .ok id) : Visits w calls id o
  | dependency {id path : String} {o : Options} {s : Source} {c : Compiled}
      (importer : Visits w calls id o) (source : w.sourceFor? id o = some s)
      (compiled : w.graph.compiledAs w.disk id o s = .ok c) (mem : path ∈ c.dependencies) :
      Visits w calls path .default

/-- What the store writes to keep modules does not matter to calls: it changes neither which modules
they ask for, nor the sources of those that they lead to, nor what comes of these. -/
structure World.Sheltered (w : World) (calls : List (String × Options)) : Prop where
  entryId : ∀ disk, Through (Keeps w.graph.store ModuleId.Proper) w.disk disk →
    ∀ call ∈ calls, World.entryId { w with disk } call.1 = w.entryId call.1
  separate : ∀ id o, w.Visits calls id o → o.source? = none → ¬ModuleId.isRemote id → w.Separate id
  compiled : ∀ disk, Through (Keeps w.graph.store ModuleId.Proper) w.disk disk → ∀ id o s,
    w.Visits calls id o → w.sourceFor? id o = some s →
      w.graph.compiledAs disk id o s = w.graph.compiledAs w.disk id o s

theorem leads_of_compiledAs {g : Graph} {disk : Disk} {c : Compiled} {path : String}
    (h : g.compiledAs disk id o s = .ok c) (hp : path ∈ c.dependencies) :
    (g.linkage disk id).Leads path :=
  (Compiled.compile_linked h).2.1 path hp

theorem World.Visits.normal (h : w.Visits calls id o) : Normal id := by
  cases h with
  | call _ he => exact normal_entryId he
  | dependency _ _ hc hm => exact normal_of_leads (leads_of_compiledAs hc hm)

theorem World.Visits.resolved (h : w.Visits calls id o) : w.Resolved id := by
  cases h with
  | call _ he => exact resolved_entryId he
  | dependency _ _ hc hm => exact resolved_of_leads (leads_of_compiledAs hc hm)

theorem World.Worked.load_eq (h : w.Worked u) (hs : ModuleId.isRemote id ∨ w.Separate id) :
    (Source.load u.graph.folder u.disk u.network id).1 =
      (Source.load w.graph.folder w.disk w.network id).1 := by
  rw [Source.load, Source.load]
  by_cases hr : ModuleId.isRemote id = true
  · rw [if_pos hr, if_pos hr]
    change (Source.ofAnswer id (u.network.answer id)).mapError _ =
      (Source.ofAnswer id (w.network.answer id)).mapError _
    rw [Network.answer, Network.answer, h.answers, h.otherwise]
  · rw [if_neg hr, if_neg hr, h.folder]
    dsimp only
    rw [hs.resolve_left hr u.disk h.disk]

namespace World.Sheltered

theorem load_eq (hw : w.Sheltered calls) (h : w.Worked u) (hv : w.Visits calls id o)
    (ho : o.source? = none) : (Source.load u.graph.folder u.disk u.network id).1 =
      (Source.load w.graph.folder w.disk w.network id).1 :=
  h.load_eq ((em _).imp_right fun hr ↦ hw.separate id o hv ho hr)

theorem sourceFor?_eq (hw : w.Sheltered calls) (h : w.Worked u) (hv : w.Visits calls id o) :
    u.sourceFor? id o = w.sourceFor? id o := by
  rw [World.sourceFor?, World.sourceFor?]
  cases ho : o.source? with
  | some text => rfl
  | none =>
    change u.source? id = w.source? id
    rw [World.source?, World.source?, hw.load_eq h hv ho]

theorem compiledAs_eq (hw : w.Sheltered calls) (h : w.Worked u) (hv : w.Visits calls id o)
    (hs : w.sourceFor? id o = some s) :
    u.graph.compiledAs u.disk id o s = w.graph.compiledAs w.disk id o s := by
  rw [← hw.compiled u.disk h.disk id o s hv hs, compiledAs, compiledAs, linkage, linkage, h.settings,
    h.folder]

theorem entryId_eq (hw : w.Sheltered calls) (h : w.Worked u) (hm : (text, o) ∈ calls) :
    u.entryId text = w.entryId text := by
  rw [← hw.entryId u.disk h.disk _ hm, World.entryId, World.entryId, h.folder]

theorem visits_of_transpile (hw : w.Sheltered calls) (h : w.Worked u) (hv : w.Visits calls id o)
    {previous : Option Module} (hs : (u.obtain id o previous).1 = .ok (some s))
    (ht : u.graph.transpile u.disk id s o previous = .ok m) :
    ∀ d ∈ m.dependencies, w.Visits calls d.path .default := by
  have hsource := sourceFor?_of_obtain hs
  rw [hw.sourceFor?_eq h hv] at hsource
  obtain ⟨c, _, _, hc, -, rfl⟩ := transpile_eq_ok ht
  intro d hd
  obtain ⟨path, hpath, rfl⟩ := List.mem_map.1 hd
  exact .dependency hv hsource ((hw.compiledAs_eq h hv hsource).symm.trans hc) hpath

end World.Sheltered

theorem World.Visits.mem_knownIds (hv : w.Visits calls id o) (hw : w.Sheltered calls)
    (ho : o.source? = none) (h : w.Worked u) (hl : w.Listed) (hs : w.source? id = some s) :
    id ∈ u.knownIds := by
  have hl' : u.Listed := by
    rw [World.Listed, h.otherwise]
    exact hl
  have hsource : u.source? id = some s := by
    rw [World.source?, hw.load_eq h hv ho]
    exact hs
  rcases hv.resolved with hr | ⟨names, hne, hn, rfl, hf⟩ | hp
  · exact World.mem_knownIds hl' (.inl hr) hsource
  · obtain ⟨place, content, hlocate, hentry⟩ := Disk.exists_of_isFile hf
    have hg := h.disk.grows fun _ ↦ Keeps.writes_below
    obtain ⟨content', hentry', -⟩ := hg.file hentry
    refine World.mem_knownIds_of_isFile hne hn ?_
    rw [Disk.isFile_iff, Disk.find?, h.folder, hg.locate hlocate]
    exact ⟨content', hentry'⟩
  · by_cases hr : ModuleId.isRemote id = true
    · exact World.mem_knownIds hl' (.inl hr) hsource
    · have hload := World.load_eq_ok hs
      rw [Source.load, if_neg hr] at hload
      dsimp only at hload
      unfold Source.Folder.read at hload
      rw [hp] at hload
      cases hload

end Sheltering

section Relocating

variable {g g' : Graph} {disk disk' : Disk} {w w' u u' : World} {calls : List (String × Options)}
  {id text : String} {o : Options} {s : Source}

theorem compiledAs_eq_of_sameTree (hs : g'.settings = g.settings)
    (ht : SameTree g.folder disk g'.folder disk') (id : String) (o : Options) (s : Source) :
    g'.compiledAs disk' id o s = g.compiledAs disk id o s := by
  have hlocate : ∀ path, (g'.linkage disk' id).locate? (normalizeLocal path) =
      (g.linkage disk id).locate? (normalizeLocal path) := fun path ↦ ht.canonicalId? path
  have htarget : ∀ specifier, (g'.linkage disk' id).target specifier =
      (g.linkage disk id).target specifier :=
    Linkage.target_congr rfl (congrArg Settings.importMap hs)
      (congrArg Settings.cacheDependencies hs) hlocate
  have hagrees : (g.linkage disk id).Agrees (g'.linkage disk' id) (o.dialect?.getD s.dialect)
      s.text := ⟨rfl, fun _ _ value _ ↦ htarget value.toText⟩
  rw [compiledAs, compiledAs, hs, Compiled.compile_eq_of_agrees hagrees]

theorem compiledAs_eq_of_explicit (hs : g'.settings = g.settings)
    (he : (g.linkage disk id).Explicit (o.dialect?.getD s.dialect) s.text) :
    g'.compiledAs disk' id o s = g.compiledAs disk id o s := by
  rw [compiledAs, compiledAs, hs, linkage_eq_among hs id, Compiled.compile_among he]

theorem World.entryId_eq_of_sameTree
    (h : SameTree w.graph.folder w.disk w'.graph.folder w'.disk) (text : String) :
    w'.entryId text = w.entryId text := by
  rw [World.entryId, World.entryId, normalizeId]
  by_cases hr : ModuleId.isRemote text = true
  · rw [if_pos hr]
    cases hn : ModuleId.normalizeRemote text with
    | error cause => simp only [Except.mapError, bind, Except.bind]
    | ok id =>
      have hid : ModuleId.isRemote id = true := ModuleId.isRemote_of_normalizeRemote hr hn
      simp only [Except.mapError, bind, Except.bind, hid, Bool.true_or, if_true]
  · rw [if_neg hr]
    simp only [bind, Except.bind, h.canonicalId?]

structure World.Relocated (w w' : World) : Prop where
  settings : w'.graph.settings = w.graph.settings
  network : w'.network = w.network
  tree : SameTree w.graph.folder w.disk w'.graph.folder w'.disk
  plain : w.graph.folder.Plain
  plain' : w'.graph.folder.Plain

namespace World.Relocated

theorem symm (h : w.Relocated w') : w'.Relocated w :=
  ⟨h.settings.symm, h.network.symm, h.tree.symm, h.plain', h.plain⟩

theorem load (h : w.Relocated w') (hid : Normal id) :
    Matches (fun e e' ↦ SourceError.unplaced e' = SourceError.unplaced e) Eq
      (Source.load w.graph.folder w.disk w.network id).1
      (Source.load w'.graph.folder w'.disk w'.network id).1 := by
  rw [Source.load, Source.load, h.network]
  by_cases hr : ModuleId.isRemote id = true
  · rw [if_pos hr, if_pos hr]
    exact Matches.of_mapError (f := SourceError.unplaced) rfl
  · obtain ⟨names, hs, rfl⟩ := ModuleId.exists_segments (hid.resolve_left hr)
    rw [if_neg hr, if_neg hr]
    dsimp only
    exact Matches.of_mapError (f := SourceError.unplaced) (h.tree.read h.plain h.plain' hs)

theorem sourceFor?_eq (h : w.Relocated w') (hid : Normal id) (o : Options) :
    w'.sourceFor? id o = w.sourceFor? id o := by
  rw [World.sourceFor?, World.sourceFor?]
  cases o.source? with
  | some text => rfl
  | none =>
    have hload := h.load hid
    dsimp only
    rw [World.source?, World.source?]
    generalize (Source.load w.graph.folder w.disk w.network id).1 = x at hload
    generalize (Source.load w'.graph.folder w'.disk w'.network id).1 = x' at hload
    cases hload with
    | ok he => rw [he]
    | error => rfl

theorem visits (h : w.Relocated w') (hv : w.Visits calls id o) : w'.Visits calls id o := by
  induction hv with
  | call hm he => exact .call hm ((World.entryId_eq_of_sameTree h.tree _).trans he)
  | dependency hi hs hc hm ih =>
    exact .dependency ih ((h.sourceFor?_eq hi.normal _).trans hs)
      ((compiledAs_eq_of_sameTree h.settings h.tree ..).trans hc) hm

/-- While the calls are worked off on both sides, the same is had and the same comes of it. -/
theorem alike (h : w.Relocated w') (hw : w.Sheltered calls) (hw' : w'.Sheltered calls)
    (hu : w.Worked u) (hu' : w'.Worked u') (hv : w.Visits calls id o) : u.Alike u' id o := by
  have hv' := h.visits hv
  refine ⟨fun ho ↦ ?_, fun s hs ↦ ?_⟩
  · rw [hw.load_eq hu hv ho, hw'.load_eq hu' hv' ho]
    exact h.load hv.normal
  · rw [hw.sourceFor?_eq hu hv] at hs
    rw [hw.compiledAs_eq hu hv hs,
      hw'.compiledAs_eq hu' hv' ((h.sourceFor?_eq hv.normal o).trans hs)]
    exact compiledAs_eq_of_sameTree h.settings h.tree id o s

end World.Relocated

end Relocating

section Within

variable {w u : World} {r r' : Run} {calls : List (String × Options)} {m : Module}
  {id entry text : String} {o : Options} {changed : Bool} {world : World}

def World.Covers (w : World) (calls : List (String × Options)) (u : World) : Prop :=
  u.Each fun m ↦ ∀ d ∈ m.dependencies, w.Visits calls d.path .default

structure World.Between (w u : World) : Prop where
  sound : Sound False (fun _ ↦ True) u
  worked : w.Worked u
  enrolled : u.Enrolled

structure Run.Within (w u : World) (entry : String) (r : Run) : Prop where
  sound : r.Sound False fun _ ↦ True
  worked : w.Worked r.world
  enrolled : r.world.Enrolled
  frame : Frame (Run.start u) r
  nested : r.Nested (entry :: u.knownIds)

theorem World.Between.of_fresh (hf : w.Fresh) : w.Between w :=
  ⟨sound_of_fresh hf, .refl w, .of_fresh hf⟩

theorem World.Between.compile (hu : w.Between u) (text : String) (o : Options) :
    w.Between (u.compile text o).2 where
  sound := hu.sound.compile False.elim text o fun _ _ _ ↦ trivial
  worked := hu.worked.trans (World.worked_compile hu.sound text o)
  enrolled := hu.enrolled.compile hu.sound text o

theorem World.Covers.of_fresh (hf : w.Fresh) (calls : List (String × Options)) :
    w.Covers calls w :=
  (recorded_of_fresh (T := fun _ ↦ True) hf).registered

namespace Run.Within

theorem start (hu : w.Between u) (entry : String) : (Run.start u).Within w u entry where
  sound := hu.sound.run
  worked := hu.worked
  enrolled := hu.enrolled
  frame := .refl _
  nested := ⟨.nil, (fun _ hm ↦ by cases hm), fun _ hm ↦ by cases hm⟩

theorem mem_known (h : r.Within w u entry) (hw : w.Sheltered calls) (hl : w.Listed)
    (hu : w.Worked u) (hid : w.Visits calls id o) (ho : o.source? = none ∨ id = entry)
    (hv : id ∉ r.visited) (hr : r.world.graph.remote.find? id = none)
    (hp : Prepares r.world id o m changed) : id ∈ entry :: u.knownIds := by
  rcases ho with ho | rfl
  · refine List.mem_cons_of_mem _ ?_
    cases hp with
    | @compiled s _ hs _ =>
      have hsource := sourceFor?_of_obtain hs
      rw [hw.sourceFor?_eq h.worked hid, World.sourceFor?_eq ho] at hsource
      exact hid.mem_knownIds hw ho hu hl hsource
    | recorded _ hm =>
      rw [h.enrolled.previous?_eq hid.normal.proper hr, h.frame.modules id (.inr hv)] at hm
      exact mem_knownIds_of_has (.inl hm)
  · exact List.mem_cons_self

theorem visits (h : r.Within w u entry) (hw : w.Sheltered calls) (hc : w.Covers calls r.world)
    (hid : w.Visits calls id o) (hr : r.world.graph.remote.find? id = none)
    (hp : Prepares r.world id o m changed) :
    ∀ d ∈ m.dependencies, w.Visits calls d.path .default := by
  cases hp with
  | compiled hs ht => exact hw.visits_of_transpile h.worked hid hs ht
  | @recorded m _ hm =>
    rw [h.enrolled.previous?_eq hid.normal.proper hr] at hm
    exact hc id m (.inl hm)

theorem inside (h : r.Within w u entry) (hid : ModuleId.Proper id) (hv : id ∉ r.visited)
    (hk : id ∈ entry :: u.knownIds) (hp : r.world.prepare id o = (.ok (m, changed), world)) :
    ((r.entered id world).inside m).Within w u entry := by
  have hsame := (World.prepare_eq hp).1
  have hframe : Frame r (r.entered id world) := .entered hsame
  have hall := h.frame.trans hframe
  obtain ⟨-, hsound, -⟩ := h.sound.inside False.elim hid hp
  exact ⟨hsound, h.worked.trans (World.worked_prepare hp), h.enrolled.sameModules hsame,
    ⟨hall.folder, hall.store, hall.settings, hall.visited, hall.cyclic, hall.modules, hall.remote,
      hall.vendored⟩,
    h.nested.inside hv hk (Prepares.of_eq hp).id_eq world⟩

theorem after (h : r.Within w u entry) (hid : ModuleId.Proper id)
    (hy : Yields r (.visit id .default) (.found m) r') : r'.Within w u entry := by
  have hout : ∀ stop, Outcome.found m ≠ .stopped stop := fun _ h ↦ Outcome.noConfusion h
  have hall : r'.world.Each fun _ ↦ True := fun _ _ _ ↦ trivial
  obtain ⟨hframe, hstack⟩ := hy.frame
  exact ⟨h.sound.after hframe (hstack hout) (hy.sound False.elim h.sound hid hall).1,
    h.worked.trans (hy.worked h.sound hid),
    hy.invariant (fun hp hsame ↦ hp.sameModules hsame) (fun changed hp hm ↦ hp.finish hm changed)
      h.sound hid h.enrolled,
    h.frame.trans hframe, h.nested.after hy hout⟩

end Run.Within

theorem World.Covers.finish (h : w.Covers calls u)
    (hm : ∀ d ∈ m.dependencies, w.Visits calls d.path .default) (changed : Bool) :
    w.Covers calls (u.finish m changed) :=
  World.Each.finish h hm changed

/-- What a visit enters into the graph after the dependencies is covered if the module is. -/
theorem World.Covers.concluded {q : Except Stop (List Dependency × Bool) × Run}
    (h : w.Covers calls q.2.world) (hm : ∀ d ∈ m.dependencies, w.Visits calls d.path .default)
    (hpaths : ∀ ds, q.1 = .ok (ds, true) → ds.map (·.path) = m.dependencies.map (·.path)) :
    w.Covers calls (Graph.concluded r m changed q).2.world := by
  obtain ⟨stop | ⟨ds, _ | _⟩, inner⟩ := q
  · exact h
  · dsimp only [Graph.concluded, Run.finished] at h ⊢
    exact h.finish hm changed
  · rw [Graph.concluded]
    cases hl : inner.world.graph.relink m ds with
    | error stop => exact h
    | ok m' =>
      dsimp only [Run.finished] at h ⊢
      refine h.finish (fun d hd ↦ ?_) true
      rw [relink_dependencies hl] at hd
      have hpath := List.mem_map_of_mem (f := Dependency.path) hd
      rw [hpaths ds rfl] at hpath
      obtain ⟨d', hd', he⟩ := List.mem_map.1 hpath
      rw [← he]
      exact hm d' hd'

end Within

section Apart

variable {w : World}

/-- What the store writes to keep modules leaves the files below the source directory as they are. -/
def World.Undisturbed (w : World) : Prop :=
  ∀ disk, Through (Keeps w.graph.store ModuleId.Proper) w.disk disk →
    SameTree w.graph.folder w.disk w.graph.folder disk

theorem Keeps.tidies {store : ArtifactStore} {ids : String → Prop} {a : Disk.Action Unit}
    (h : Keeps store ids a) : Disk.Tidies a := by
  cases h with
  | write => exact ArtifactStore.tidies_write _ _ _ _ _ _
  | writeUnder => exact ArtifactStore.tidies_writeCode _ _ _

theorem World.undisturbed_of_opens {place : Place} (hd : w.disk.Tidy)
    (ho : w.disk.Opens w.graph.folder.directory place) (hstore : ¬w.storePlace <+: place)
    (hsource : ¬place <+: w.storePlace) : w.Undisturbed := by
  intro disk hdisk
  have hg := hdisk.grows fun _ ↦ Keeps.writes_below
  have hnew : ∀ names, ¬w.storePlace <+: place ++ names := fun names hp ↦
    (List.prefix_or_prefix_of_prefix hp (List.prefix_append place names)).elim hstore hsource
  refine .of_entries rfl hd (hdisk.tidy (fun _ ↦ Keeps.tidies) hd) ho
    ⟨hg.locate ho.locate, hg.directories _ ho.directory⟩ (fun names content ↦ ?_)
    fun _ _ _ ↦ rfl
  constructor
  · intro he
    exact (hg.origin _ content he).resolve_right (hnew names)
  · intro he
    obtain ⟨content', he', hc⟩ := hg.file he
    rwa [hc.resolve_right (hnew names)] at he'

theorem World.Undisturbed.sheltered (h : w.Undisturbed) (calls : List (String × Options)) :
    w.Sheltered calls where
  entryId disk hd call _ := World.entryId_eq_of_sameTree (h disk hd) call.1
  separate id o hv _ hr disk hd := by
    obtain ⟨names, hs, rfl⟩ := ModuleId.exists_segments (hv.normal.resolve_left hr)
    exact (h disk hd).read_eq hs
  compiled disk hd id o s _ _ := compiledAs_eq_of_sameTree rfl (h disk hd) id o s

end Apart

section Lockstep

variable {w w' u u' : World} {calls : List (String × Options)} {entry id text : String} {o : Options}
  {m : Module} {changed : Bool} {world : World} {depth depth' : Nat}

theorem visit_of_remote {r : Run} (hr : r.world.graph.remote.find? id = some m) :
    Run.visit (depth + 1) r id o = (.ok m, r) := by
  rw [Run.visit, hr]

theorem visit_of_visited {r : Run} (hr : r.world.graph.remote.find? id = none)
    (hv : id ∈ r.visited) : Run.visit (depth + 1) r id o = r.revisit id := by
  rw [Run.visit, hr]
  dsimp only
  rw [if_pos (List.contains_iff_mem.2 hv)]

theorem visit_of_alone {r : Run} (hr : r.world.graph.remote.find? id = none) (hv : id ∉ r.visited)
    (hp : r.world.prepare id o = (.ok (m, changed), world)) (ha : o.alone = true) :
    Run.visit (depth + 1) r id o = (.ok m, (r.entered id world).finished r.stack m changed) := by
  rw [Run.visit, hr]
  dsimp only
  rw [if_neg fun hc ↦ hv (List.contains_iff_mem.1 hc), hp]
  dsimp only
  rw [ha, Bool.true_or, if_pos rfl]
  rfl

theorem world_revisit (r : Run) (id : String) : (r.revisit id).2.world = r.world := by
  rw [Run.revisit]
  dsimp only
  split <;> rfl

structure Lockstep (w w' : World) (calls : List (String × Options)) : Prop where
  relocated : w.Relocated w'
  sheltered : w.Sheltered calls
  sheltered' : w'.Sheltered calls
  listed : w.Listed

theorem Lockstep.listed' (h : Lockstep w w' calls) : w'.Listed := by
  rw [World.Listed, h.relocated.network]
  exact h.listed

structure Ends (w : World) (calls : List (String × Options)) {α : Type} (R : α → α → Prop)
    (q q' : Except Stop α × Run) : Prop where
  result : Matches Stop.Mirrors R q.1 q'.1
  run : q.2.Mirrors q'.2
  covers : w.Covers calls q.2.world

def Run.Fits (u : World) (entry : String) (depth : Nat) (r : Run) : Prop :=
  (entry :: u.knownIds).length < depth + r.stack.length

theorem Run.settle_mirrors
    (hvisit : ∀ {r r' : Run} {id : String}, r.Mirrors r' → r.Within w u entry →
      r'.Within w' u' entry → w.Covers calls r.world → w.Visits calls id .default →
      r.Fits u entry depth → r'.Fits u' entry depth' →
        Ends w calls Module.Mirrors (visit depth r id .default) (visit depth' r' id .default))
    (importer : String) {ds : List Dependency} {r r' : Run} (h : r.Mirrors r')
    (hin : r.Within w u entry) (hin' : r'.Within w' u' entry) (hc : w.Covers calls r.world)
    (hds : ∀ d ∈ ds, w.Visits calls d.path .default) (hd : r.Fits u entry depth)
    (hd' : r'.Fits u' entry depth') :
    Ends w calls Eq (settle (fun r id ↦ visit depth r id .default) importer r ds)
      (settle (fun r id ↦ visit depth' r id .default) importer r' ds) := by
  induction ds generalizing r r' with
  | nil => exact ⟨.ok rfl, h, hc⟩
  | cons d ds ih =>
    have hid := hds d List.mem_cons_self
    obtain ⟨hresult, hrun, hcovers⟩ := hvisit h hin hin' hc hid hd hd'
    have hy := yields_visit depth r d.path .default
    have hy' := yields_visit depth' r' d.path .default
    rcases hx : visit depth r d.path .default with ⟨a, r₁⟩
    rcases hx' : visit depth' r' d.path .default with ⟨b, r₁'⟩
    rw [hx, hx'] at hresult hrun
    rw [hx] at hy hcovers
    rw [hx'] at hy'
    cases hresult with
    | error he =>
      rw [Run.settle_cons_error hx, Run.settle_cons_error hx']
      exact ⟨.error he, hrun, hcovers⟩
    | @ok m m' hm =>
      have hfound : ∀ m stop, Outcome.found m ≠ .stopped stop := fun _ _ h ↦ Outcome.noConfusion h
      have hstack := hy.frame.2 (hfound m)
      have hstack' := hy'.frame.2 (hfound m')
      obtain ⟨hsettle, hafter, hcovered⟩ := ih hrun (hin.after hid.normal.proper hy)
        (hin'.after hid.normal.proper hy') hcovers
        (fun d' hd' ↦ hds d' (List.mem_cons_of_mem d hd'))
        (by rwa [Fits, hstack]) (by rwa [Fits, hstack'])
      obtain ⟨hrenews, hsettledAs⟩ := hrun.settledAs hm importer d
      rw [Run.settle_cons hx, Run.settle_cons hx', hrenews, hsettledAs]
      refine ⟨?_, hafter, hcovered⟩
      generalize (settle (fun r id ↦ visit depth r id .default) importer r₁ ds).1 = x at hsettle
      generalize (settle (fun r id ↦ visit depth' r id .default) importer r₁' ds).1 = x' at hsettle
      cases hsettle with
      | error he => exact .error he
      | ok he =>
        rw [he]
        exact .ok rfl

theorem Run.visit_mirrors (hl : Lockstep w w' calls) (hu : w.Worked u) (hu' : w'.Worked u')
    {r r' : Run} (h : r.Mirrors r') (hin : r.Within w u entry) (hin' : r'.Within w' u' entry)
    (hc : w.Covers calls r.world) (hid : w.Visits calls id o)
    (ho : o.source? = none ∨ id = entry) (hd : r.Fits u entry depth)
    (hd' : r'.Fits u' entry depth') :
    Ends w calls Module.Mirrors (visit depth r id o) (visit depth' r' id o) := by
  induction depth generalizing depth' r r' id o with
  | zero =>
    have hle := hin.nested.length_le
    rw [Fits] at hd
    omega
  | succ depth ih =>
    obtain ⟨depth', rfl⟩ : ∃ n, depth' = n + 1 := by
      refine Nat.exists_eq_succ_of_ne_zero fun he ↦ ?_
      have hle := hin'.nested.length_le
      rw [Fits] at hd'
      omega
    have hproper := hid.normal.proper
    have hremote := h.world.find?_remote id
    cases hr : r.world.graph.remote.find? id with
    | some m =>
      rw [hr] at hremote
      obtain ⟨m', hr', hm⟩ := Option.map_eq_some_iff.1 hremote
      rw [visit_of_remote hr, visit_of_remote hr']
      exact ⟨.ok hm, h, hc⟩
    | none =>
      rw [hr] at hremote
      have hr' := Option.map_eq_none_iff.1 hremote
      by_cases hv : id ∈ r.visited
      · rw [visit_of_visited hr hv, visit_of_visited hr' (h.visited.symm ▸ hv)]
        obtain ⟨hresult, hrun⟩ := h.revisit id
        exact ⟨hresult, hrun, (world_revisit r id).symm ▸ hc⟩
      · have hv' : id ∉ r'.visited := h.visited.symm ▸ hv
        have hprevious : (r'.world.previous? id).map Module.unplaced =
            (r.world.previous? id).map Module.unplaced := by
          rw [hin.enrolled.previous?_eq hproper hr, hin'.enrolled.previous?_eq hproper hr',
            h.world.find?_modules]
        have halike := hl.relocated.alike hl.sheltered hl.sheltered' hin.worked hin'.worked hid
        obtain ⟨hresult, hworld⟩ := h.world.prepare halike hprevious
        rcases hp : r.world.prepare id o with ⟨a, world⟩
        rcases hp' : r'.world.prepare id o with ⟨b, world'⟩
        rw [hp, hp'] at hresult hworld
        have hentered := h.entered hworld id
        have hcovers : w.Covers calls world := fun x m hm ↦
          hc x m ((World.prepare_eq hp).1.has.1 hm)
        cases hresult with
        | error he =>
          rw [Run.visit_of_unprepared hr hv hp, Run.visit_of_unprepared hr' hv' hp']
          exact ⟨.error he, hentered, hcovers⟩
        | @ok p p' he =>
          obtain ⟨m, changed⟩ := p
          obtain ⟨m', changed'⟩ := p'
          obtain ⟨hm, hchanged⟩ := he
          obtain rfl : changed' = changed := hchanged
          have hprepares := Prepares.of_eq hp
          have hdeps := hin.visits hl.sheltered hc hid hr hprepares
          cases ha : o.alone with
          | true =>
            rw [visit_of_alone hr hv hp ha, visit_of_alone hr' hv' hp' ha]
            exact ⟨.ok hm, hentered.finished h hm _, hcovers.finish hdeps _⟩
          | false =>
            rw [Run.visit_of_prepared hr hv hp ha, Run.visit_of_prepared hr' hv' hp' ha]
            have hknown := hin.mem_known hl.sheltered hl.listed hu hid ho hv hr hprepares
            have hknown' := hin'.mem_known hl.sheltered' hl.listed' hu' (hl.relocated.visits hid)
              ho hv' hr' (.of_eq hp')
            obtain ⟨file, rfl⟩ := Module.Mirrors.exists_file hm
            obtain ⟨hsettled, hlast, hcovered⟩ := settle_mirrors
              (fun h hin hin' hc hid hd hd' ↦ ih h hin hin' hc hid (.inl rfl) hd hd') m.id
              (hentered.inside hm) (hin.inside hproper hv hknown hp)
              (hin'.inside hproper hv' hknown' hp') hcovers hdeps
              (by change _ < depth + (r.stack.length + 1); rw [Fits] at hd; omega)
              (by change _ < depth' + (r'.stack.length + 1); rw [Fits] at hd'; omega)
            obtain ⟨hresult, hrun⟩ := h.concluded hm _ ⟨hsettled, hlast⟩
            refine ⟨hresult, hrun, hcovered.concluded hdeps fun ds hds ↦ ?_⟩
            have hy := yields_settle (fun r id ↦ yields_visit depth r id .default) m.id
              ((r.entered id world).inside m) m.dependencies
            rw [hds] at hy
            exact hy.paths

end Lockstep

section Moving

variable {w w' u u' : World} {calls : List (String × Options)} {text : String} {o : Options}

theorem World.compile_mirrors (hl : Lockstep w w' calls) (hu : w.Between u) (hu' : w'.Between u')
    (hc : w.Covers calls u) (h : u.Mirrors u') (hm : (text, o) ∈ calls) :
    Matches Stop.Mirrors Module.Mirrors (u.compile text o).1 (u'.compile text o).1 ∧
      (u.compile text o).2.Mirrors (u'.compile text o).2 ∧
      w.Covers calls (u.compile text o).2 := by
  rw [World.compile, World.compile, hl.sheltered.entryId_eq hu.worked hm,
    hl.sheltered'.entryId_eq hu'.worked hm, World.entryId_eq_of_sameTree hl.relocated.tree]
  cases hid : w.entryId text with
  | error cause => exact ⟨.error rfl, h, hc⟩
  | ok id =>
    have hbound : ∀ v : World, (Run.start v).Fits v id v.depthBound := by
      intro v
      change (id :: v.knownIds).length < v.depthBound + 0
      rw [List.length_cons, World.depthBound]
      omega
    obtain ⟨hresult, hrun, hcovers⟩ := Run.visit_mirrors (o := o) hl hu.worked hu'.worked (.start h)
      (.start hu id) (.start hu' id) hc (.call hm hid) (.inr rfl) (hbound u) (hbound u')
    dsimp only
    generalize Run.visit u.depthBound (Run.start u) id o = p at hresult hrun hcovers
    generalize Run.visit u'.depthBound (Run.start u') id o = p' at hresult hrun
    obtain ⟨a, r⟩ := p
    obtain ⟨b, r'⟩ := p'
    dsimp only at hresult hrun hcovers
    cases hresult with
    | error he => exact ⟨.error he, hrun.world, hcovers⟩
    | ok hm =>
      have hsame := World.sameGraph_persistAliases r.world r.visited
      refine ⟨.ok hm, ?_, fun x m hx ↦ hcovers x m (hsame.has.1 hx)⟩
      exact hrun.world.of_sameGraph hsame (World.sameGraph_persistAliases _ _)
        (World.network_persistAliases _ _) (World.network_persistAliases _ _)

/-- The results of calls one after the other, and the world that they leave. -/
def World.compileAll (w : World) :
    List (String × Options) → List (Except Stop Module) × World
  | [] => ([], w)
  | (text, o) :: calls =>
    let (result, w) := w.compile text o
    let (results, w) := w.compileAll calls
    (result :: results, w)

theorem World.compileAll_singleton (w : World) (text : String) (o : Options) :
    (w.compileAll [(text, o)]).1 = [(w.compile text o).1] :=
  rfl

theorem Lockstep.compileAll (hl : Lockstep w w' calls) (hu : w.Between u) (hu' : w'.Between u')
    (hc : w.Covers calls u) (h : u.Mirrors u') {rest : List (String × Options)}
    (hrest : rest ⊆ calls) :
    List.Forall₂ (Matches Stop.Mirrors Module.Mirrors) (u.compileAll rest).1
        (u'.compileAll rest).1 ∧
      (u.compileAll rest).2.Mirrors (u'.compileAll rest).2 := by
  induction rest generalizing u u' with
  | nil => exact ⟨.nil, h⟩
  | cons call rest ih =>
    obtain ⟨text, o⟩ := call
    obtain ⟨hm, hrest⟩ := List.cons_subset.1 hrest
    obtain ⟨hresult, hworld, hcovers⟩ := World.compile_mirrors hl hu hu' hc h hm
    obtain ⟨hresults, hlast⟩ := ih (hu.compile text o) (hu'.compile text o) hcovers hworld hrest
    exact ⟨.cons hresult hresults, hlast⟩

theorem World.dialect_of_source? {id : String} {s : Source} (hp : w.graph.folder.Plain)
    (hid : Normal id) (hr : ¬ModuleId.isRemote id) (hx : (Dialect.ofPath? id).isSome)
    (hs : w.source? id = some s) : Dialect.ofPath? id = some s.dialect := by
  have hload := World.load_eq_ok hs
  rw [Source.load, if_neg hr] at hload
  dsimp only at hload
  obtain ⟨names, hnames, rfl⟩ := ModuleId.exists_segments (hid.resolve_left hr)
  obtain ⟨dialect, hd⟩ := Option.isSome_iff_exists.1 hx
  have hdialect := congrArg Source.dialect (Source.Folder.read_eq_ok hload hx).1
  rw [hp.ofPath?_basePath hnames, hd, Option.getD_some, Source.ofText] at hdialect
  rw [hd, hdialect]

/-- Calls on two new graphs give the same results and the same modules if the same files lie below the
source directories, the same is answered, and the paths of the directories have no question mark and
no number sign, as long as what the stores write does not matter to the calls. The dialect of a source
is then that of its id. -/
theorem compileAll_mirrors (hf : w.Fresh) (hf' : w'.Fresh)
    (hs : w'.graph.settings = w.graph.settings) (hn : w'.network = w.network)
    (ht : SameTree w.graph.folder w.disk w'.graph.folder w'.disk) (hp : w.graph.folder.Plain)
    (hp' : w'.graph.folder.Plain) (hw : w.Sheltered calls) (hw' : w'.Sheltered calls)
    (hl : w.Listed) :
    List.Forall₂ (Matches Stop.Mirrors Module.Mirrors) (w.compileAll calls).1
        (w'.compileAll calls).1 ∧
      (w.compileAll calls).2.Mirrors (w'.compileAll calls).2 ∧
      ∀ id s, Normal id → ¬ModuleId.isRemote id → (Dialect.ofPath? id).isSome →
        w.source? id = some s ∨ w'.source? id = some s → Dialect.ofPath? id = some s.dialect := by
  have hmirrors : w.Mirrors w' :=
    ⟨hs, by rw [hf.modules, hf'.modules], by rw [hf.remote, hf'.remote], hn⟩
  obtain ⟨hresults, hlast⟩ := Lockstep.compileAll ⟨⟨hs, hn, ht, hp, hp'⟩, hw, hw', hl⟩
    (.of_fresh hf) (.of_fresh hf') (.of_fresh hf calls) hmirrors (List.Subset.refl calls)
  refine ⟨hresults, hlast, fun id s hid hr hx hsource ↦ ?_⟩
  rcases hsource with hsource | hsource
  · exact World.dialect_of_source? hp hid hr hx hsource
  · exact World.dialect_of_source? hp' hid hr hx hsource

end Moving

section Moved

variable {id : String} {o : Options}

/-- The sources of `pairWorld` elsewhere, with the store among them. -/
def movedWorld : World :=
  ⟨.new ⟨"t/s", 1000⟩ ⟨"t/s/.cache"⟩ ⟨⟨[]⟩, true, false⟩,
    ⟨[], [(["t"], .directory), (["t", "s"], .directory),
      (["t", "s", "a.js"], .file "import\"./b.js\"".toUTF8), (["t", "s", "b.js"], .file "".toUTF8)]⟩,
    ⟨[], .error .hostNotFound, []⟩⟩

theorem tidy_pairWorld : pairWorld.disk.Tidy ∧ movedWorld.disk.Tidy := by
  constructor
  · exact ⟨by unfold IsSegment; decide +kernel, by decide +kernel, by decide +kernel⟩
  · exact ⟨by unfold IsSegment; decide +kernel, by decide +kernel, by decide +kernel⟩

theorem opens_pairWorld : pairWorld.disk.Opens "s" ["s"] ∧ movedWorld.disk.Opens "t/s" ["t", "s"] :=
  ⟨⟨rfl, rfl⟩, ⟨rfl, rfl⟩⟩

theorem plain_pairWorld : pairWorld.graph.folder.Plain ∧ movedWorld.graph.folder.Plain := by
  simp [Source.Folder.Plain, pairWorld, movedWorld, Graph.new]

theorem entry?_pairWorld (names : List String) :
    movedWorld.disk.entry? ("t" :: "s" :: names) = pairWorld.disk.entry? ("s" :: names) := by
  cases names with
  | nil => rfl
  | cons name names =>
    rw [Disk.entry?, Disk.entry?, if_neg (List.cons_ne_nil _ _), if_neg (List.cons_ne_nil _ _),
      movedWorld, pairWorld]
    simp [List.lookup]

theorem mem_files_pairWorld {names : List String} {content : ByteArray}
    (h : pairWorld.disk.entry? ("s" :: names) = some (.file content)) :
    names ∈ [["a.js"], ["b.js"]] := by
  have hmem := Disk.mem_entries_of_file h
  simp only [pairWorld, List.mem_cons, List.not_mem_nil, Prod.mk.injEq, List.cons.injEq, true_and,
    reduceCtorEq, and_false, false_or, or_false] at hmem
  rcases hmem with ⟨rfl, -⟩ | ⟨rfl, -⟩ <;> decide

theorem sameTree_movedWorld : SameTree pairWorld.graph.folder pairWorld.disk
    movedWorld.graph.folder movedWorld.disk := by
  refine .of_entries rfl tidy_pairWorld.1 tidy_pairWorld.2 opens_pairWorld.1 opens_pairWorld.2
    (fun names content ↦ ?_) fun names content h ↦ ?_
  · rw [show ["t", "s"] ++ names = "t" :: "s" :: names from rfl, entry?_pairWorld]
    rfl
  · have hcheck : ∀ names ∈ [["a.js"], ["b.js"]],
        Disk.checkPath (movedWorld.graph.folder.basePath (rooted names)) =
          Disk.checkPath (pairWorld.graph.folder.basePath (rooted names)) := by decide
    exact hcheck names (mem_files_pairWorld h)

theorem relocated_movedWorld : pairWorld.Relocated movedWorld :=
  ⟨rfl, rfl, sameTree_movedWorld, plain_pairWorld.1, plain_pairWorld.2⟩

theorem visits_pairWorld (h : pairWorld.Visits [("a.js", .default)] id o) :
    (id = "/a.js" ∨ id = "/b.js") ∧ o = .default := by
  induction h with
  | call hm he =>
    obtain ⟨rfl, rfl⟩ := Prod.mk.inj (List.mem_singleton.1 hm)
    rw [entryId_a] at he
    exact ⟨.inl (Except.ok.inj he).symm, rfl⟩
  | @dependency id path o s c _ hs hc hm ih =>
    obtain ⟨hid, rfl⟩ := ih
    have hdraws : pairWorld.Draws id path := ⟨s, c, ⟨hs, hc⟩, hm⟩
    exact ⟨.inr (draws_pairWorld hid hdraws).2, rfl⟩

theorem visits_movedWorld (h : movedWorld.Visits [("a.js", .default)] id o) :
    pairWorld.Visits [("a.js", .default)] id o :=
  relocated_movedWorld.symm.visits h

theorem separate_movedWorld (h : id = "/a.js" ∨ id = "/b.js") : movedWorld.Separate id := by
  have hroot : movedWorld.storePlace = ["t", "s", ".cache"] := by decide
  rcases h with rfl | rfl
  · have hl : movedWorld.disk.locate (movedWorld.graph.folder.basePath "/a.js") =
        .ok ["t", "s", "a.js"] := rfl
    exact separate_of_file (by decide) hl rfl (by rw [hroot]; decide)
  · have hl : movedWorld.disk.locate (movedWorld.graph.folder.basePath "/b.js") =
        .ok ["t", "s", "b.js"] := rfl
    exact separate_of_file (by decide) hl rfl (by rw [hroot]; decide)

theorem sheltered_movedWorld : movedWorld.Sheltered [("a.js", .default)] where
  entryId disk _ call hm := by
    obtain rfl := List.mem_singleton.1 hm
    rw [entryId_a, entryId_a]
  separate id o hv _ _ := separate_movedWorld (visits_pairWorld (visits_movedWorld hv)).1
  compiled disk hd id o s hv hs := by
    obtain ⟨hid, rfl⟩ := visits_pairWorld (visits_movedWorld hv)
    rw [relocated_movedWorld.sourceFor?_eq hv.normal] at hs
    have hexplicit := regular_pairWorld.explicit id s hid hs
    have hsame : ∀ disk, movedWorld.graph.compiledAs disk id .default s =
        pairWorld.graph.compiledAs pairWorld.disk id .default s := fun disk ↦
      compiledAs_eq_of_explicit (o := .default) relocated_movedWorld.settings hexplicit
    rw [hsame, hsame]

theorem exists_compile_movedWorld : ∃ m, (movedWorld.compile "a.js" .default).1 = .ok m ∧
    m.id = "/a.js" := by
  have hf : movedWorld.Fresh := World.fresh_of_entries rfl rfl (by decide)
  have hundisturbed := World.undisturbed_of_opens tidy_pairWorld.1 opens_pairWorld.1 (by decide)
    (by decide)
  have hresults := (compileAll_mirrors fresh_pairWorld hf rfl rfl sameTree_movedWorld
    plain_pairWorld.1 plain_pairWorld.2 (hundisturbed.sheltered [("a.js", .default)])
    sheltered_movedWorld fun _ h ↦ by cases h).1
  rw [World.compileAll_singleton, World.compileAll_singleton] at hresults
  obtain ⟨m, w', hc, hid, -⟩ := exists_compile_pairWorld
  rw [hc] at hresults
  generalize (movedWorld.compile "a.js" .default).1 = a at hresults
  cases hresults with
  | cons hresult _ =>
    cases hresult with
    | @ok _ m' hm =>
      obtain ⟨file, rfl⟩ := Module.Mirrors.exists_file hm
      exact ⟨_, rfl, hid⟩

end Moved

end SiteCompiler.Graph
