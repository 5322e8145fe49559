import SiteCompiler.Proofs.Site.Working
import SiteCompiler.Proofs.SourceTree

namespace SiteCompiler

namespace Site

open Disk (Place placeOf Grows)
open Discovery (Scanned)
open ModuleId (IsSegment rooted)
open SiteCompiler.Graph (Sound History)

variable {base : Place} {s s' : Site} {names : List String} {path id : String} {disk : Disk}
  {network : Network}

/-- The pages and the application's module are those that a fresh look finds. -/
def Current (s : Site) : Prop :=
  s.pages = .ofIds (Discovery.modules s.world.disk s.sourceDirectory) ∧
    s.appModule? = Discovery.appModule? s.world.disk s.sourceDirectory

/-- A path leads along names below the source directory: by itself, or on from the source directory. -/
def Denotes (s : Site) (path : String) (names : List String) : Prop :=
  path = "/".intercalate names ∨ FilePath.isAbsolute s.sourceDirectory = true ∧
    path = FilePath.join s.sourceDirectory ("/".intercalate names)

theorem mapM_nameOf? (h : ∀ name ∈ names, Text.startsWith name "." = false) :
    (names.map FilePath.Component.named).mapM nameOf? = some (names.map some) := by
  induction names with
  | nil => rfl
  | cons name names ih =>
    have hname : nameOf? (.named name) = some (some name) := by
      rw [nameOf?, h name List.mem_cons_self, if_neg Bool.false_ne_true]
    rw [List.map_cons, List.mapM_cons, hname,
      ih fun n hn ↦ h n (List.mem_cons_of_mem name hn)]
    rfl

theorem Denotes.moduleIdOf? (h : s.Denotes path names) (hn : ∀ name ∈ names, IsSegment name)
    (hne : names ≠ []) (hpublic : ∀ name ∈ names, Text.startsWith name "." = false)
    (hd : (Dialect.ofPath? (rooted names)).isSome) : s.moduleIdOf? path = some (rooted names) := by
  obtain ⟨-, hrelative⟩ := Disk.placeOf_names hn hne []
  have hbase := fun f : Source.Folder ↦ f.components_basePath hn hne
  simp only [Source.Folder.basePath, Source.Folder.trimStart_rooted hn] at hbase
  have hcomponents : (if FilePath.isAbsolute path then FilePath.below? s.sourceDirectory path
      else some (FilePath.components path)) = some (names.map .named) := by
    rcases h with rfl | ⟨habsolute, rfl⟩
    · have htop := hbase ⟨"", 0⟩
      rw [FilePath.join, hrelative] at htop
      rw [hrelative, if_neg Bool.false_ne_true]
      exact congrArg some htop
    · have hsource : s.sourceDirectory ≠ "" := by
        rintro he
        rw [he] at habsolute
        exact absurd habsolute (by decide)
      rw [Disk.isAbsolute_join hsource hrelative, if_pos habsolute, FilePath.below?,
        hbase ⟨s.sourceDirectory, 0⟩]
      exact List.isPrefixOf?_eq_some_iff_append_eq.2 rfl
  have hbind : s.moduleIdOf? path = (if FilePath.isAbsolute path then
      FilePath.below? s.sourceDirectory path else some (FilePath.components path)).bind fun components ↦
        (components.mapM nameOf?).bind fun names ↦
          if (Dialect.ofPath? (rooted (names.filterMap id))).isSome then
            some (rooted (names.filterMap id)) else none := by
    rw [Site.moduleIdOf?]
    split <;> rfl
  rw [hbind, hcomponents, Option.bind_some, mapM_nameOf? hpublic, Option.bind_some, List.filterMap_map,
    Function.id_comp, List.filterMap_some, if_pos hd]

/-- A page or the application's module is followed under its id, and it concerns the pages. -/
theorem Denotes.of_scanned (h : s.Denotes path names) (hn : ∀ name ∈ names, IsSegment name)
    (hscan : Scanned names) :
    s.moduleIdOf? path = some (rooted names) ∧ concernsPages (rooted names) = true := by
  rcases hscan with ⟨name, hname, rest, rfl, hne, hmodule, hroute⟩ | ⟨dialect, rfl⟩
  · have hpublic : ∀ n ∈ name :: rest, Text.startsWith n "." = false := by
      intro n hm
      rcases List.mem_cons.1 hm with rfl | hm
      · simp only [Discovery.moduleDirectories, List.mem_cons, List.not_mem_nil, or_false] at hname
        rcases hname with rfl | rfl <;> decide
      · rw [Discovery.isModule, Bool.and_eq_true, List.all_eq_true] at hmodule
        have hprivate := hmodule.1 n hm
        rw [Bool.not_eq_true', Discovery.isPrivate, Bool.or_eq_false_iff] at hprivate
        exact hprivate.1
    have hd : (Dialect.ofPath? (rooted (name :: rest))).isSome := by
      obtain ⟨route, hr⟩ := Option.isSome_iff_exists.1 hroute
      simp only [PageTable.pageRoute?, Option.bind_eq_bind, Option.bind_eq_some_iff] at hr
      obtain ⟨below, hbelow, dialect, hd, -⟩ := hr
      rw [Text.dropStart?_eq_some.1 hbelow, show "/pages/" = "/pages" ++ "/" from rfl,
        Dialect.ofPath?_append (by simp), hd]
      rfl
    refine ⟨h.moduleIdOf? hn (List.cons_ne_nil _ _) hpublic hd, ?_⟩
    rw [concernsPages, hroute, Bool.true_or]
  · refine ⟨h.moduleIdOf? hn (List.cons_ne_nil _ _) ?_ ?_, ?_⟩
    · intro n hm
      rw [List.mem_singleton.1 hm]
      cases dialect <;> decide
    · cases dialect <;> decide
    · cases dialect <;> decide

/-- A disk on which one file below the source directory has appeared, changed or gone, and nothing in
the store. -/
structure Edited (s : Site) (base : Place) (names : List String) (disk : Disk) : Prop where
  segments : names ≠ [] ∧ ∀ name ∈ names, IsSegment name
  tidy : disk.Tidy
  workingDirectory : disk.workingDirectory = s.world.disk.workingDirectory
  elsewhere : ∀ p ≠ base ++ names, disk.entry? p = s.world.disk.entry? p ∨
    s.world.disk.entry? p = none ∧ disk.entry? p = some .directory
  file : s.world.disk.entry? (base ++ names) ≠ some .directory
  store : ∀ p, s.world.storePlace <+: p → disk.entry? p = s.world.disk.entry? p

/-- The site with other files, and other answers of the network. -/
def withFiles (s : Site) (disk : Disk) (network : Network) : Site :=
  { s with world := { s.world with disk, network } }

def Misses (s : Site) (disk : Disk) (network : Network) (path : String) : Prop :=
  ∃ id stop, s.moduleIdOf? path = some id ∧ concernsPages id = true ∧
    s.world.disk.isFile (s.world.graph.folder.basePath id) = false ∧
    disk.isFile (s.world.graph.folder.basePath id) = true ∧
    ((s.withFiles disk network).recompile id).1 = .error stop

def LooksAgain (s : Site) (disk : Disk) (network : Network) (path : String) : Prop :=
  ∃ id, s.moduleIdOf? path = some id ∧
    (disk.isFile (s.world.graph.folder.basePath id) = false ∨ concernsPages id = true ∧
      ∃ isChanged, ((s.withFiles disk network).recompile id).1 = .ok isChanged)

/-- The states of a site that is opened over a store of earlier graphs and then told of each file below
its source directory that appears, changes or goes. The flag tells whether no page can be missing:
one that appears with a source that does not compile is missing until the next look. -/
inductive Watched (base : Place) : Bool → Site → Prop
  | opened {disk : Disk} {network : Network} {env : Environment} {root : String} {o : Options}
      {config : Config} {map : ImportMap} {ws : List Graph.World} {s : Site} (tidy : disk.Tidy)
      (settings : loadSettings disk env root o = .ok (config, map))
      (history : History (fun _ _ ↦ True) ((prepare disk network config map o).world :: ws))
      (ok : (openAt disk network env root o).result = .ok s)
      (opens : s.world.disk.Opens s.sourceDirectory base)
      (apart : ¬s.world.storePlace <+: base) : Watched base true s
  | looked {s : Site} {isComplete : Bool} {names : List String} {disk : Disk} {path : String}
      (before : Watched base isComplete s) (edited : s.Edited base names disk)
      (denotes : s.Denotes path names) (network : Network)
      (looks : s.LooksAgain disk network path) :
      Watched base true ((s.withFiles disk network).change path).2
  | kept {s : Site} {isComplete : Bool} {names : List String} {disk : Disk} {path : String}
      (before : Watched base isComplete s) (edited : s.Edited base names disk)
      (denotes : s.Denotes path names) (network : Network)
      (hits : ¬s.Misses disk network path) :
      Watched base isComplete ((s.withFiles disk network).change path).2
  | missed {s : Site} {isComplete : Bool} {names : List String} {disk : Disk} {path : String}
      (before : Watched base isComplete s) (edited : s.Edited base names disk)
      (denotes : s.Denotes path names) (network : Network) :
      Watched base false ((s.withFiles disk network).change path).2

structure Follows (base : Place) (s : Site) : Prop where
  tidy : s.world.disk.Tidy
  opens : s.world.disk.Opens s.sourceDirectory base
  sound : Sound False (fun _ ↦ True) s.world
  folder : s.world.graph.folder.directory = s.sourceDirectory
  store : ∃ p, s.world.storePlace = p ++ [".cache"]
  apart : ¬s.world.storePlace <+: base

theorem cache_not_mem (h : Scanned names) : ".cache" ∉ names := by
  rcases h with ⟨name, hname, rest, rfl, -, hmodule, -⟩ | ⟨dialect, rfl⟩
  · intro hm
    rcases List.mem_cons.1 hm with rfl | hm
    · exact absurd hname (by decide)
    · rw [Discovery.isModule, Bool.and_eq_true, List.all_eq_true] at hmodule
      exact absurd (hmodule.1 ".cache" hm) (by decide)
  · intro hm
    have he := List.mem_singleton.1 hm
    cases dialect <;> exact absurd he (by decide)

theorem Follows.not_prefix (h : Follows base s) (hscan : Scanned names) :
    ¬s.world.storePlace <+: base ++ names := by
  intro hbelow
  obtain ⟨p, hp⟩ := h.store
  obtain ⟨rest, hrest⟩ := (List.prefix_or_prefix_of_prefix hbelow
    (List.prefix_append base names)).resolve_left h.apart
  have hne : rest ≠ [] := by
    rintro rfl
    rw [List.append_nil] at hrest
    exact h.apart (hrest ▸ List.prefix_refl base)
  obtain ⟨front, last, rfl⟩ := (List.eq_nil_or_concat' rest).resolve_left hne
  rw [← hrest, List.prefix_append_right_inj] at hbelow
  rw [← hrest, ← List.append_assoc] at hp
  obtain rfl := List.singleton_inj.1 (List.append_inj' hp rfl).2
  exact cache_not_mem hscan (hbelow.subset List.mem_concat_self)

theorem Works.sound (h : Works (fun _ ↦ False) s s') (hs : Sound False (fun _ ↦ True) s.world) :
    Sound False (fun _ ↦ True) s'.world ∧ s.world.Worked s'.world := by
  induction h with
  | refl => exact ⟨hs, .refl _⟩
  | compile _ id ih =>
    obtain ⟨hs', hw⟩ := ih
    exact ⟨hs'.compile False.elim id .default fun _ _ _ ↦ trivial,
      hw.trans (Graph.World.worked_compile hs' id .default)⟩
  | execute _ request ih => exact ih
  | write _ hp text ih => exact hp.elim

theorem Follows.works (h : Follows base s) (hw : Works (fun _ ↦ False) s s') :
    Follows base s' ∧ ∀ names, Scanned names →
      (s'.world.disk.HasFile (base ++ names) ↔ s.world.disk.HasFile (base ++ names)) := by
  obtain ⟨hsound, hworked⟩ := hw.sound h.sound
  have hgrows := hworked.disk.grows fun _ ↦ Graph.Keeps.writes_below
  have hsource : s'.sourceDirectory = s.sourceDirectory :=
    congrArg Config.sourceDirectory hw.alike.config
  have hplace : s'.world.storePlace = s.world.storePlace := by
    rw [Graph.World.storePlace, Graph.World.storePlace, hworked.store, hgrows.workingDirectory]
  refine ⟨⟨hw.tidy h.tidy, ⟨?_, hgrows.directories _ h.opens.directory⟩, hsound, ?_, ?_, ?_⟩,
    fun names hscan ↦ ⟨?_, ?_⟩⟩
  · rw [hsource]
    exact hgrows.locate h.opens.locate
  · rw [hworked.folder, hsource, h.folder]
  · rw [hplace]
    exact h.store
  · rw [hplace]
    exact h.apart
  · rintro ⟨c, hc⟩
    exact ⟨c, (hgrows.origin _ c hc).resolve_right (h.not_prefix hscan)⟩
  · rintro ⟨c, hc⟩
    exact hgrows.files _ c hc

theorem Edited.directory (he : s.Edited base names disk) {p : Place}
    (hd : s.world.disk.entry? p = some .directory) : disk.entry? p = some .directory := by
  by_cases hp : p = base ++ names
  · exact absurd (hp ▸ hd) he.file
  · rcases he.elsewhere p hp with hsame | ⟨hnone, -⟩
    · rw [hsame, hd]
    · rw [hnone] at hd
      cases hd

theorem Follows.withFiles (h : Follows base s) (he : s.Edited base names disk)
    (network : Network) : Follows base (s.withFiles disk network) := by
  have hplace : (s.withFiles disk network).world.storePlace = s.world.storePlace := by
    change placeOf disk.workingDirectory _ = placeOf s.world.disk.workingDirectory _
    rw [he.workingDirectory]
    rfl
  have hadmits : s.world.Admits (.edit disk network) := ⟨hplace, he.store⟩
  refine ⟨he.tidy, ⟨?_, he.directory h.opens.directory⟩, ?_, h.folder, ?_, ?_⟩
  · exact Disk.locate_of_directories he.workingDirectory (fun _ ↦ he.directory) h.opens.locate
  · exact h.sound.react False.elim hadmits fun _ _ _ ↦ trivial
  · rw [hplace]
    exact h.store
  · rw [hplace]
    exact h.apart

theorem Follows.removed (h : Follows base s) (id : String) :
    Follows base { s with world := { s.world with graph := (s.graph.remove id).2 } } :=
  ⟨h.tidy, h.opens, h.sound.react (e := .remove id) False.elim trivial fun _ _ _ ↦ trivial, h.folder,
    h.store, h.apart⟩

theorem Follows.refreshPages (h : Follows base s) : Follows base s.refreshPages :=
  ⟨h.tidy, h.opens, h.sound, h.folder, h.store, h.apart⟩

theorem current_refreshPages (s : Site) : s.refreshPages.Current :=
  ⟨rfl, rfl⟩

/-- The pages stay those that a fresh look finds while the same files are where they are looked for. -/
theorem Current.congr (h : s.Current) (hf : Follows base s) (hf' : Follows base s')
    (ha : s.Alike s') (hscan : ∀ names, Scanned names →
      (s'.world.disk.HasFile (base ++ names) ↔ s.world.disk.HasFile (base ++ names))) :
    s'.Current := by
  have hsource : s'.sourceDirectory = s.sourceDirectory :=
    congrArg Config.sourceDirectory ha.config
  have hopens := hf'.opens
  rw [hsource] at hopens
  obtain ⟨hpages, happ⟩ := Discovery.scan_congr hf.tidy hf'.tidy hf.opens hopens hscan
  rw [Current, ha.pages, ha.appModule?, hsource, hpages, happ]
  exact h

theorem Follows.hasFile (h : Follows base s) (hn : ∀ name ∈ names, IsSegment name) (hne : names ≠ [])
    (hw : disk.workingDirectory = s.world.disk.workingDirectory)
    (hfile : disk.isFile (s.world.graph.folder.basePath (rooted names)) = true) :
    disk.HasFile (base ++ names) := by
  obtain ⟨p, c, hl, hc⟩ := Disk.exists_of_isFile hfile
  have hp := Disk.locate_eq_ok hl
  obtain ⟨hplace, hrelative⟩ := Disk.placeOf_names hn hne base
  rw [Source.Folder.basePath, Source.Folder.trimStart_rooted hn, Disk.placeOf_join hrelative, hw,
    h.folder, ← Disk.locate_eq_ok h.opens.locate, hplace] at hp
  exact ⟨c, hp ▸ hc⟩

theorem alike_withFiles (s : Site) (disk : Disk) (network : Network) :
    s.Alike (s.withFiles disk network) :=
  ⟨rfl, rfl, rfl, rfl, rfl, rfl, rfl⟩

theorem Follows.change (h : Follows base s) (path : String) : Follows base (s.change path).2 := by
  rcases change_cases s path with ⟨-, he⟩ | ⟨id, -, ⟨-, he⟩ | ⟨-, he⟩⟩ <;> rw [he]
  · exact h
  · obtain ⟨s₁, hw, ⟨stop, -, he⟩ | ⟨-, he⟩⟩ := changedModule_cases s id <;> rw [he]
    · exact (h.works hw).1
    · split
      · exact (h.works hw).1.refreshPages
      · exact (h.works hw).1
  · exact (h.removed id).refreshPages

theorem current_of_looksAgain (h : s.LooksAgain disk network path) :
    ((s.withFiles disk network).change path).2.Current := by
  obtain ⟨id, hid, hlooks⟩ := h
  rcases change_cases (s.withFiles disk network) path with
    ⟨hnone, -⟩ | ⟨id', hid', ⟨hfile, he⟩ | ⟨-, he⟩⟩
  · exact absurd (hid.symm.trans hnone) (Option.some_ne_none id)
  · obtain rfl := Option.some_inj.1 (hid.symm.trans hid')
    obtain ⟨hconcerns, isChanged, hok⟩ := hlooks.resolve_left fun hgone ↦
      Bool.false_ne_true (hgone.symm.trans hfile)
    obtain ⟨s₁, -, ⟨stop, hstop, -⟩ | ⟨-, he'⟩⟩ := changedModule_cases (s.withFiles disk network) id
    · rw [hok] at hstop
      cases hstop
    · rw [he, he', if_pos hconcerns]
      exact current_refreshPages s₁
  · rw [he]
    exact current_refreshPages _

/-- The pages stay those that are found if the file that changed is looked for neither before nor after,
or both before and after. -/
theorem Current.of_edited (hc : s.Current) (h : Follows base s) (he : s.Edited base names disk)
    (hs : Follows base s') (ha : s.Alike s') (hscan : ∀ ns, Scanned ns →
      (s'.world.disk.HasFile (base ++ ns) ↔ disk.HasFile (base ++ ns)))
    (hown : Scanned names → disk.HasFile (base ++ names) ∧ s.world.disk.HasFile (base ++ names)) :
    s'.Current := by
  refine hc.congr h hs ha fun ns hns ↦ (hscan ns hns).trans ?_
  by_cases hp : base ++ ns = base ++ names
  · obtain rfl := List.append_cancel_left hp
    exact iff_of_true (hown hns).1 (hown hns).2
  · rw [Disk.HasFile, Disk.HasFile]
    rcases he.elsewhere _ hp with hsame | ⟨hnone, hdirectory⟩
    · rw [hsame]
    · rw [hnone, hdirectory]
      refine iff_of_false ?_ ?_ <;>
        · rintro ⟨_, hc⟩
          cases hc

theorem Current.change (hc : s.Current) (h : Follows base s) (he : s.Edited base names disk)
    (hd : s.Denotes path names) (hits : ¬s.Misses disk network path) :
    ((s.withFiles disk network).change path).2.Current := by
  obtain ⟨hne, hn⟩ := he.segments
  have hfollows := h.withFiles he network
  have halike := alike_withFiles s disk network
  have hscanned := fun hscan ↦ hd.of_scanned hn hscan
  rcases change_cases (s.withFiles disk network) path with
    ⟨hnone, hsame⟩ | ⟨id, hid, ⟨hfile, hsame⟩ | ⟨-, hsame⟩⟩ <;> rw [hsame]
  · exact hc.of_edited h he hfollows halike (fun _ _ ↦ .rfl) fun hscan ↦
      absurd ((hscanned hscan).1.symm.trans hnone) (Option.some_ne_none _)
  · obtain ⟨s₁, hw, ⟨stop, hstop, hsame⟩ | ⟨-, hsame⟩⟩ :=
      changedModule_cases (s.withFiles disk network) id <;> rw [hsame]
    · obtain ⟨hfollows', hfiles⟩ := hfollows.works hw
      refine hc.of_edited h he hfollows' (halike.trans hw.alike) hfiles fun hscan ↦ ?_
      obtain ⟨hid', hconcerns⟩ := hscanned hscan
      obtain rfl := Option.some_inj.1 (hid.symm.trans hid')
      refine ⟨h.hasFile hn hne he.workingDirectory hfile, h.hasFile hn hne rfl ?_⟩
      by_contra hnew
      exact hits ⟨_, stop, hid, hconcerns, Bool.eq_false_iff.2 hnew, hfile, hstop⟩
    · split
      · exact current_refreshPages s₁
      · next hother =>
        obtain ⟨hfollows', hfiles⟩ := hfollows.works hw
        refine hc.of_edited h he hfollows' (halike.trans hw.alike) hfiles fun hscan ↦ ?_
        obtain ⟨hid', hconcerns⟩ := hscanned hscan
        obtain rfl := Option.some_inj.1 (hid.symm.trans hid')
        exact absurd hconcerns hother
  · exact current_refreshPages _

theorem exists_storePlace {config : Config} {map : ImportMap} {o : Options}
    (h : (prepare disk network config map o).world.Worked s.world) :
    ∃ p, s.world.storePlace = p ++ [".cache"] := by
  have hstore : (prepare disk network config map o).world.graph.store = ⟨config.cacheDirectory⟩ := by
    change (ArtifactStore.openAt disk config.cacheDirectory Graph.storeVersion).1 = _
    rw [ArtifactStore.openAt]
    split <;> rfl
  have hsegment : ∀ name ∈ [".cache"], IsSegment name :=
    List.forall_mem_singleton.2 ⟨by decide, by decide, by decide, by decide⟩
  have hcache := Disk.placeOf_names hsegment (List.cons_ne_nil _ _)
  rw [String.intercalate_singleton] at hcache
  refine ⟨placeOf s.world.disk.workingDirectory config.rootDirectory, ?_⟩
  rw [Graph.World.storePlace, h.store, hstore, Config.cacheDirectory,
    Disk.placeOf_join (hcache []).2, (hcache _).1]

theorem Watched.follows {isComplete : Bool} (h : Watched base isComplete s) : Follows base s := by
  induction h with
  | @opened disk network env root o config map ws s ht hset hh hok hopens hapart =>
    obtain ⟨config', map', s₀, hset', hw, rfl⟩ := openAt_eq_ok hok
    obtain ⟨rfl, rfl⟩ := Prod.mk.inj (Except.ok.inj (hset.symm.trans hset'))
    have hstart : Sound False (fun _ ↦ True) (prepare disk network config map o).world :=
      Graph.sound_of_history hh False.elim (fun _ _ _ _ _ ↦ trivial) _ List.mem_cons_self
    obtain ⟨hsound, hworked⟩ := hw.sound hstart
    have hsource : s₀.sourceDirectory = config.sourceDirectory :=
      congrArg Config.sourceDirectory hw.alike.config
    refine ⟨hw.tidy (ArtifactStore.tidy_openAt ht _ _), hopens, hsound, ?_,
      exists_storePlace hworked, hapart⟩
    exact (congrArg Source.Folder.directory hworked.folder).trans hsource.symm
  | looked _ he _ network _ ih => exact (ih.withFiles he network).change _
  | kept _ he _ network _ ih => exact (ih.withFiles he network).change _
  | missed _ he _ network ih => exact (ih.withFiles he network).change _

/-- The pages of a site are always those that a fresh look would find, which are those that the site
would have if it were opened anew, as long as no page has appeared with a source that does not compile
since the last look. -/
theorem current_of_watched (h : Watched base true s) : s.Current := by
  generalize hw : true = isComplete at h
  induction h with
  | opened _ _ _ hok =>
    obtain ⟨_, _, s₀, -, -, rfl⟩ := openAt_eq_ok hok
    exact current_refreshPages s₀
  | looked _ _ _ _ hlooks => exact current_of_looksAgain hlooks
  | kept before he hd network hits ih => exact (ih hw).change before.follows he hd hits
  | missed => cases hw

def indexDisk : Disk :=
  (storeDisk.put ["pages"] .directory).put ["pages", "index.js"] (.file "".toUTF8)

set_option maxRecDepth 8000 in
theorem recompile_indexDisk : (((topSite storeDisk .empty).withFiles indexDisk
    ⟨[], .error .hostNotFound, []⟩).recompile "/pages/index.js").1.isOk = true := by
  decide +kernel

theorem edited_indexDisk : (topSite storeDisk .empty).Edited [] ["pages", "index.js"] indexDisk := by
  have hnone : ∀ p, p = ["pages"] ∨ p = ["pages", "index.js"] → storeDisk.entry? p = none := by
    rintro p (rfl | rfl) <;> exact (by decide)
  have hother : ∀ p, p ≠ ["pages"] → p ≠ ["pages", "index.js"] →
      indexDisk.entry? p = storeDisk.entry? p := fun p hp hp' ↦ by
    rw [indexDisk, Disk.entry?_put_of_ne hp', Disk.entry?_put_of_ne hp]
  refine ⟨⟨by decide, ?_⟩, ⟨?_, by decide, by decide⟩, rfl, fun p hp ↦ ?_, ?_,
    fun p hp ↦ ?_⟩
  · exact List.forall_mem_cons.2 ⟨⟨by decide, by decide, by decide, by decide⟩,
      List.forall_mem_singleton.2 ⟨by decide, by decide, by decide, by decide⟩⟩
  · unfold IsSegment
    decide
  · by_cases hpages : p = ["pages"]
    · subst hpages
      exact .inr ⟨hnone _ (.inl rfl), by decide⟩
    · exact .inl (hother p hpages hp)
  · rw [show (topSite storeDisk .empty).world.disk = storeDisk from rfl, List.nil_append,
      hnone _ (.inr rfl)]
    exact nofun
  · have hplace : (topSite storeDisk .empty).world.storePlace = [".cache"] := by
      decide
    rw [hplace] at hp
    refine hother p ?_ ?_ <;> rintro rfl <;> exact absurd hp (by decide)

theorem watched_topSite : Watched [] true (topSite storeDisk .empty) := by
  have hopens : storeDisk.Opens "/" [] := ⟨rfl, rfl⟩
  have hplace : (topSite storeDisk .empty).world.storePlace = [".cache"] := by
    decide
  have hfresh : (topSite storeDisk .empty).world.Fresh :=
    Graph.World.fresh_of_entries rfl rfl (by decide)
  have hhistory : History (fun _ _ ↦ True) [(prepare ⟨[], []⟩ ⟨[], .error .hostNotFound, []⟩
      (.default "/") ⟨[]⟩ { Options.default with importMap? := some ⟨[]⟩ }).world] := by
    rw [prepare_topSite]
    exact .start hfresh
  exact .opened Disk.tidy_empty rfl hhistory openAt_topSite hopens (by rw [hplace]; decide)

theorem current_indexDisk : Watched [] true (((topSite storeDisk .empty).withFiles indexDisk
      ⟨[], .error .hostNotFound, []⟩).change "pages/index.js").2 ∧
    (((topSite storeDisk .empty).withFiles indexDisk
      ⟨[], .error .hostNotFound, []⟩).change "pages/index.js").2.Current := by
  have hlooks : (topSite storeDisk .empty).LooksAgain indexDisk ⟨[], .error .hostNotFound, []⟩
      "pages/index.js" := by
    refine ⟨"/pages/index.js", by decide, .inr ⟨by decide, ?_⟩⟩
    have hok := recompile_indexDisk
    generalize (Site.recompile _ _).1 = result at hok ⊢
    cases result with
    | error stop => cases hok
    | ok isChanged => exact ⟨isChanged, rfl⟩
  have hwatched := watched_topSite.looked edited_indexDisk (.inl (by decide))
    ⟨[], .error .hostNotFound, []⟩ hlooks
  exact ⟨hwatched, current_of_watched hwatched⟩

end Site
end SiteCompiler
