import SiteCompiler.Proofs.FoundModules
import SiteCompiler.Proofs.Graph.Relocation
import SiteCompiler.Proofs.Graph.Vendoring

namespace SiteCompiler

open ModuleId (IsSegment rooted normalizeLocal cleanSegments)

namespace Source.Folder

variable {f : Folder} {d d' : Disk} {place : Disk.Place} {names found : List String} {c : String}

/-- No file below a place has a name before whose end an extension is looked for. -/
def Unmarked (d : Disk) (place : Disk.Place) : Prop :=
  ∀ names content, d.entry? (place ++ names) = some (.file content) →
    ∀ s ∈ names, Text.isMarked s = false

theorem Unmarked.of_isFile (hu : Unmarked d place) (ht : d.Tidy) (ho : d.Opens f.directory place)
    (hne : names ≠ []) (hs : ∀ s ∈ names, IsSegment s)
    (hf : d.isFile (f.basePath (rooted names)) = true) : ∀ s ∈ names, Text.isMarked s = false := by
  obtain ⟨content, hc⟩ := Disk.isFile_iff.1 hf
  exact hu names content ((find?_basePath_eq_some ht ho hne hs).1 hc).2.2

theorem isSome_ofPath?_append {name : String} (hn : '/' ∉ name.toList) (dialect : Dialect)
    (hm : Text.isMarked (name ++ ("." ++ dialect.extension)) = false) :
    (Dialect.ofPath? (name ++ ("." ++ dialect.extension))).isSome = true := by
  have hslash : '/' ∉ (name ++ ("." ++ dialect.extension)).toList := by
    rw [String.toList_append]
    refine fun hm ↦ (List.mem_append.1 hm).elim hn fun hm ↦ ?_
    cases dialect <;> exact absurd hm (by decide)
  have hdot : '.' ∉ dialect.extension.toList := by cases dialect <;> decide
  have hbefore : Text.before (fun c ↦ c = '?' || c = '#') (name ++ ("." ++ dialect.extension)) =
      name ++ ("." ++ dialect.extension) :=
    Text.before_eq_self fun c hc ↦ Bool.eq_false_iff.2 fun h ↦
      Bool.eq_false_iff.1 hm (List.any_eq_true.2 ⟨c, hc, h⟩)
  have hcut : Text.cutLast? (· = '.') (name ++ ("." ++ dialect.extension)) =
      some (name, dialect.extension) := by
    rw [← String.append_assoc]
    exact Text.cutLast?_append hdot
  rw [Dialect.ofPath?, hbefore, Text.afterLast_of_not_mem hslash]
  simp only [hcut, Option.bind_eq_bind, Option.bind_some]
  cases dialect <;> rfl

theorem exists_append_mem {s : String} (hm : found ∈ candidateNames names) (hs : s ∈ names) :
    ∃ ending, s ++ ending ∈ found := by
  rcases List.mem_append.1 hm with hm | hm
  · obtain ⟨dialect, -, rfl⟩ := List.mem_map.1 hm
    have hne := List.ne_nil_of_mem hs
    rw [← List.dropLast_concat_getLast hne] at hs
    rw [extended, List.getLast?_eq_getLast_of_ne_nil hne, Option.getD_some]
    rcases List.mem_append.1 hs with hs | hs
    · exact ⟨"", String.append_empty.symm ▸ List.mem_append_left _ hs⟩
    · rw [List.mem_singleton.1 hs]
      exact ⟨_, List.mem_append_right _ List.mem_cons_self⟩
  · obtain ⟨dialect, -, rfl⟩ := List.mem_map.1 hm
    exact ⟨"", String.append_empty.symm ▸ List.mem_append_left _ hs⟩

theorem isSome_of_mem_candidateNames (hs : ∀ s ∈ names, IsSegment s)
    (hm : found ∈ candidateNames names) (hu : ∀ s ∈ found, Text.isMarked s = false) :
    (Dialect.ofPath? (rooted found)).isSome = true := by
  obtain ⟨front, name, dialect, hname, rfl⟩ : ∃ front name dialect, '/' ∉ name.toList ∧
      found = front ++ [name ++ ("." ++ Dialect.extension dialect)] := by
    rcases List.mem_append.1 hm with hm | hm
    · obtain ⟨dialect, -, rfl⟩ := List.mem_map.1 hm
      refine ⟨_, _, dialect, ?_, rfl⟩
      cases hl : names.getLast? with
      | none => exact List.not_mem_nil
      | some last => exact (hs last (List.mem_of_getLast? hl)).2.2.2
    · obtain ⟨dialect, -, rfl⟩ := List.mem_map.1 hm
      exact ⟨names, "index", dialect, by decide, by cases dialect <;> rfl⟩
  have hnone : (front ++ [name ++ ("." ++ dialect.extension)]).find? Text.isMarked = none :=
    List.find?_eq_none.2 fun s hs ↦ by rw [hu s hs]; exact Bool.false_ne_true
  rw [ModuleId.rooted_eq_spelled (by simp), Dialect.ofPath?_spelled, hnone, Option.none_or,
    List.getLast?_concat, Option.bind_some]
  exact isSome_ofPath?_append hname dialect (hu _ (List.mem_append_right _ List.mem_cons_self))

structure StandsFor (f : Folder) (d : Disk) (names found : List String) : Prop where
  namesOf? : f.namesOf? d names = some found
  segments : ∀ s ∈ found, IsSegment s
  dialect : (Dialect.ofPath? (rooted found)).isSome = true
  file : d.isFile (f.basePath (rooted found)) = true
  /-- An id that stands for another one has no extension. -/
  shorter : found ≠ names → (Dialect.ofPath? (rooted names)).isSome = false ∧
    ∀ s ∈ names, Text.isMarked s = false

theorem standsFor (ht : d.Tidy) (ho : d.Opens f.directory place) (hu : Unmarked d place)
    (hs : ∀ s ∈ names, IsSegment s) (hc : f.canonicalId? d (rooted names) = some c) :
    ∃ found, c = rooted found ∧ StandsFor f d names found := by
  rw [f.canonicalId?_rooted d hs, Option.map_eq_some_iff] at hc
  obtain ⟨found, hfound, rfl⟩ := hc
  obtain ⟨hne, hs', hfile⟩ := isFile_of_namesOf? hs hfound
  have hmarks := hu.of_isFile ht ho hne hs' hfile
  refine ⟨found, rfl, hfound, hs', ?_, hfile, ?_⟩
  · rw [Folder.namesOf?] at hfound
    split at hfound
    · next hx =>
      split at hfound
      · obtain rfl := Option.some.inj hfound
        exact hx
      · cases hfound
    · exact isSome_of_mem_candidateNames hs (List.mem_of_find?_eq_some hfound) hmarks
  · intro hother
    rw [Folder.namesOf?] at hfound
    split at hfound
    · split at hfound
      · exact absurd (Option.some.inj hfound).symm hother
      · cases hfound
    · next hx =>
      refine ⟨Bool.eq_false_iff.2 hx, fun s hm ↦ ?_⟩
      obtain ⟨ending, hending⟩ := exists_append_mem (List.mem_of_find?_eq_some hfound) hm
      have hlonger := hmarks _ hending
      rw [Text.isMarked, String.toList_append, List.any_append, Bool.or_eq_false_iff] at hlonger
      exact hlonger.1

theorem isSome_namesOf?_of_grows {new : Disk.Place → ByteArray → Prop} (hg : Disk.Grows new d d')
    (h : (f.namesOf? d names).isSome = true) : (f.namesOf? d' names).isSome = true := by
  rw [Folder.namesOf?] at h ⊢
  split at h
  · next hx =>
    rw [if_pos hx]
    split at h
    · next hfile =>
      rw [if_pos (hg.isFile hfile)]
      rfl
    · cases h
  · next hx =>
    rw [if_neg hx]
    rw [List.find?_isSome] at h ⊢
    obtain ⟨ns, hm, hfile⟩ := h
    exact ⟨ns, hm, hg.isFile hfile⟩

namespace StandsFor

variable (h : StandsFor f d names found)
include h

theorem resolve_ne {new : Disk.Place → ByteArray → Prop} (hg : Disk.Grows new d d')
    (hs : ∀ s ∈ names, IsSegment s) (hne : found ≠ names) (path : String) :
    f.resolve d' path ≠ rooted names := by
  obtain ⟨hx, hmarks⟩ := h.shorter hne
  have hclean : ∀ s ∈ cleanSegments path, IsSegment s := fun _ ↦
    ModuleId.isSegment_of_mem_cleanSegments
  have hinj : ∀ {ns : List String}, (∀ s ∈ ns, IsSegment s) → rooted ns = rooted names → ns = names := by
    intro ns hns he
    rw [← PageTable.segments_rooted hns, he, PageTable.segments_rooted hs]
  intro he
  rw [resolve] at he
  split at he
  · next hx' =>
    rw [he, hx] at hx'
    cases hx'
  · next hx' =>
    rw [normalizeLocal, f.canonicalId?_rooted d' hclean] at he
    cases hn : f.namesOf? d' (cleanSegments path) with
    | none =>
      rw [hn] at he
      have hsome := isSome_namesOf?_of_grows hg (Option.isSome_of_eq_some h.namesOf?)
      rw [← hinj hclean he, hn] at hsome
      cases hsome
    | some ns =>
      rw [hn] at he
      obtain ⟨-, hns, -⟩ := isFile_of_namesOf? hclean hn
      obtain rfl := hinj hns he
      rw [normalizeLocal] at hx'
      rw [Folder.namesOf?, if_neg hx'] at hn
      have hdialect := isSome_of_mem_candidateNames hclean (List.mem_of_find?_eq_some hn) hmarks
      rw [hx] at hdialect
      cases hdialect

theorem self : f.namesOf? d found = some found := by
  rw [Folder.namesOf?, if_pos h.dialect, if_pos h.file]

theorem canonicalId?_self : f.canonicalId? d (rooted found) = some (rooted found) := by
  rw [f.canonicalId?_rooted d h.segments, h.self]
  rfl

theorem read_eq (hs : ∀ s ∈ names, IsSegment s) :
    (f.read d (rooted found)) = f.read d (rooted names) := by
  unfold Folder.read
  rw [f.path?_rooted d h.segments, f.path?_rooted d hs, h.self, h.namesOf?]
  rfl

theorem resolve_eq (hs : ∀ s ∈ names, IsSegment s) {path : String}
    (hp : normalizeLocal path = rooted names ∨ normalizeLocal path = rooted found) :
    f.resolve d path = rooted found := by
  rcases hp with hp | hp
  · rw [resolve, hp]
    by_cases he : found = names
    · subst he
      rw [if_pos h.dialect]
    · rw [if_neg (by rw [(h.shorter he).1]; exact Bool.false_ne_true), f.canonicalId?_rooted d hs,
        h.namesOf?]
      rfl
  · rw [resolve, hp, if_pos h.dialect]

end StandsFor

end Source.Folder

namespace Linkage

variable {l : Linkage} {specifier id : String}

/-- A specifier that leads to a local module is linked to it by its place among the dependencies. -/
theorem link_of_target {dependencies : List String} (hi : ModuleId.isRemote l.importer = false)
    (h : l.target specifier = .ok (.localModule id)) : l.link dependencies specifier =
      .ok (.dependency (record dependencies id).1 (l.pathTo id) true, (record dependencies id).2) := by
  rw [link, h]
  simp only [bind, Except.bind, hi]
  rfl

end Linkage

namespace Source.Folder.StandsFor

variable {f : Folder} {d : Disk} {names found : List String}

theorem isAsset_eq (h : StandsFor f d names found) : Linkage.isAsset (rooted found) = false := by
  rw [Linkage.isAsset]
  split
  · rw [Option.isNone_eq_false_iff.2 h.dialect, Bool.and_false]
  · rfl

theorem localTarget_eq (h : StandsFor f d names found) (hs : ∀ s ∈ names, IsSegment s)
    {l : Linkage} (hl : l.locate? = f.canonicalId? d) {specifier id : String}
    (hid : id = rooted names ∧ Linkage.isAsset id = false ∨ id = rooted found) :
    l.localTarget specifier id = .localModule (rooted found) := by
  have hasset : Linkage.isAsset id = false := by
    rcases hid with ⟨-, ha⟩ | rfl
    · exact ha
    · exact h.isAsset_eq
  have hclean : normalizeLocal id = id := by
    rcases hid with ⟨rfl, -⟩ | rfl
    · exact ModuleId.normalizeLocal_rooted hs
    · exact ModuleId.normalizeLocal_rooted h.segments
  have hresolve : f.resolve d id = rooted found := h.resolve_eq hs (by
    rw [hclean]
    exact hid.imp_left And.left)
  rw [resolve, hclean] at hresolve
  rw [Linkage.localTarget, hasset, if_neg Bool.false_ne_true, hl]
  split at hresolve
  · next hx =>
    rw [if_neg (by rw [Option.isNone_eq_false_iff.2 hx]; exact Bool.false_ne_true), hresolve]
  · next hx =>
    rw [if_pos (by rw [Option.isNone_iff_eq_none]; exact Option.not_isSome_iff_eq_none.1 hx), hresolve]

end Source.Folder.StandsFor

namespace Graph

open Source (Folder)

variable {w : World} {names found : List String} {text : String} {o : Options} {m : Module}

theorem has_of_found {id : String} {r : Run}
    (h : Yields (Run.start w) (.visit id o) (.found m) r) : r.world.Has id m := by
  have hself : ∀ (v : World) (m : Module) (changed : Bool), m.id = id →
      (v.finish m changed).Has id m := fun v m changed hid ↦ hid ▸ v.has_finish_self m changed
  cases h with
  | vendored remote => exact .inr remote
  | again remote visited known => exact absurd visited List.not_mem_nil
  | leaf remote visited prepared alone =>
    exact hself _ _ _ ((World.prepare_eq prepared).2 _ _ rfl).id_eq
  | kept remote visited prepared whole below =>
    exact hself _ _ _ ((World.prepare_eq prepared).2 _ _ rfl).id_eq
  | relinked remote visited prepared whole below relinked =>
    exact hself _ _ _ ((relink_id relinked).1.trans ((World.prepare_eq prepared).2 _ _ rfl).id_eq)

theorem World.has_of_compile {id : String} {w' : World} (he : w.entryId text = .ok id)
    (h : w.compile text o = (.ok m, w')) : m.id = id ∧ w'.Has id m := by
  rcases compile_cases w text o with ⟨cause, -, hc⟩ | ⟨id', r, he', ⟨stop, hy, hc⟩ | ⟨m', hy, hc⟩⟩
  · rw [hc] at h
    cases h
  · rw [hc] at h
    cases h
  · rw [hc] at h
    rw [he] at he'
    obtain rfl := Except.ok.inj he'
    obtain ⟨hm, rfl⟩ := Prod.mk.inj h
    obtain rfl := Except.ok.inj hm
    have hhas := has_of_found hy
    exact ⟨hhas.id_eq, (World.sameGraph_persistAliases _ _).has.2 hhas⟩

/-- No module that is registered or recorded has a dependency with an id. -/
def World.Unimported (w : World) (id : String) : Prop :=
  Recorded (fun _ ↦ True) (fun m ↦ ∀ d ∈ m.dependencies, d.path ≠ id) w

theorem World.Unimported.of_fresh (h : w.Fresh) (id : String) : w.Unimported id :=
  recorded_of_fresh h

section Shadowed

variable (h : w.graph.folder.StandsFor w.disk names found) (hs : ∀ s ∈ names, IsSegment s)
  (hne : found ≠ names)
include h hs hne

theorem ne_of_leads {u : World} (hu : w.Worked u) {importer id : String}
    (hid : (u.graph.linkage u.disk importer).Leads id) : id ≠ rooted names := by
  rcases Linkage.remote_or_resolve_of_leads hid with ⟨specifier, ht⟩ | ⟨path, hpath⟩
  · intro he
    have hremote := Linkage.isRemote_of_target ht
    rw [he, rooted, ModuleId.isRemote_slash] at hremote
    cases hremote
  · rw [hpath, hu.folder]
    exact h.resolve_ne (hu.disk.grows fun _ ↦ Keeps.writes_below) hs hne path

theorem ne_of_entryId {u : World} (hu : w.Worked u) {id : String} (hid : u.entryId text = .ok id) :
    id ≠ rooted names := by
  rcases World.isRemote_or_resolve_of_entryId hid with hr | ⟨path, hpath⟩
  · intro he
    rw [he, rooted, ModuleId.isRemote_slash] at hr
    cases hr
  · rw [hpath, hu.folder]
    exact h.resolve_ne (hu.disk.grows fun _ ↦ Keeps.writes_below) hs hne path

/-- A call registers nothing under an id that stands for another one, and no dependency with it, if
there was no such dependency before. -/
theorem shadowed_compile {u : World} (hu : w.Worked u) (hsound : Sound False (fun _ ↦ True) u)
    (hn : u.Unimported (rooted names)) (text : String) (o : Options) :
    (u.compile text o).2.Unimported (rooted names) ∧
      ∀ m, (u.compile text o).2.Has (rooted names) m → u.Has (rooted names) m := by
  have hleads : ∀ {v : World} {importer id : String}, u.Worked v →
      (v.graph.linkage v.disk importer).Leads id → id ≠ rooted names := fun hv hid ↦
    ne_of_leads h hs hne (hu.trans hv) hid
  refine ⟨Recorded.compile False.elim (standard_of_leads hleads) hsound hn text trivial
    fun _ _ _ ↦ trivial, fun m hm ↦ ?_⟩
  rcases World.has_or_called_of_compile hm with hm | ⟨c, hc, hid⟩
  · exact hm
  · exact absurd hid (forall_calls_of_leads (fun _ ↦ ne_of_entryId h hs hne hu) hleads hsound hn c hc)

theorem shadowed_compileAll {u : World} (hu : w.Worked u) (hsound : Sound False (fun _ ↦ True) u)
    (hn : u.Unimported (rooted names)) (calls : List (String × Options)) :
    ∀ m, (u.compileAll calls).2.Has (rooted names) m → u.Has (rooted names) m := by
  induction calls generalizing u with
  | nil => exact fun _ hm ↦ hm
  | cons call calls ih =>
    obtain ⟨text, o⟩ := call
    obtain ⟨hn', hhas⟩ := shadowed_compile h hs hne hu hsound hn text o
    exact fun m hm ↦ hhas m (ih (hu.trans (World.worked_compile hsound text o))
      (hsound.compile False.elim text o fun _ _ _ ↦ trivial) hn' m hm)

end Shadowed

/-- What a local id and the id of its file, if it has one, have in common. -/
structure World.OneId (w : World) (x : String) : Prop where
  missing : w.graph.folder.canonicalId? w.disk x = none →
    w.graph.folder.read w.disk x = .error (.notFound x)
  file : ∀ c, w.graph.folder.canonicalId? w.disk x = some c → (Dialect.ofPath? c).isSome = true ∧
    w.graph.folder.canonicalId? w.disk c = some c ∧
      w.graph.folder.read w.disk c = w.graph.folder.read w.disk x
  compiled : ∀ c text o m w', w.graph.folder.canonicalId? w.disk x = some c →
    ModuleId.isRemote text = false → normalizeLocal text = x ∨ normalizeLocal text = c →
      w.compile text o = (.ok m, w') → m.id = c ∧ w'.Has c m
  /-- The other id is not registered, as long as it is not that of a dependency from before. -/
  apart : ∀ c calls m, w.graph.folder.canonicalId? w.disk x = some c → c ≠ x → w.Unimported x →
    (w.compileAll calls).2.Has x m → w.Has x m
  linked : ∀ c importer specifier dependencies, w.graph.folder.canonicalId? w.disk x = some c →
    (w.graph.linkage w.disk importer).localPath? specifier = some x ∧ Linkage.isAsset x = false ∨
        (w.graph.linkage w.disk importer).localPath? specifier = some c →
      (w.graph.linkage w.disk importer).link dependencies specifier =
        .ok (.dependency (Linkage.record dependencies c).1
          ((w.graph.linkage w.disk importer).pathTo c) true, (Linkage.record dependencies c).2)

/-- In every state of a graph a file has one id, also for the paths that name it without extension. -/
theorem oneId_of_history {allowed : World → Event → Prop} {ws : List World} {place : Disk.Place}
    {x : String} (h : History allowed ws) (hw : w ∈ ws) (ht : w.disk.Tidy)
    (ho : w.disk.Opens w.graph.folder.directory place) (hu : Folder.Unmarked w.disk place)
    (hx : normalizeLocal x = x) : w.OneId x := by
  obtain ⟨names, hs, rfl⟩ := ModuleId.exists_segments hx
  have hsound : Sound False (fun _ ↦ True) w :=
    sound_of_history h False.elim (fun _ _ _ _ _ ↦ trivial) w hw
  have hstands := fun c hc ↦ Folder.standsFor (c := c) ht ho hu hs hc
  refine ⟨fun hc ↦ ?_, fun c hc ↦ ?_, fun c text o m w' hc hr hp hok ↦ ?_, fun c calls m hc hne hn ↦ ?_,
    fun c importer specifier dependencies hc hp ↦ ?_⟩
  · rw [Folder.canonicalId?_rooted _ _ hs, Option.map_eq_none_iff] at hc
    unfold Folder.read
    rw [Folder.path?_rooted _ _ hs, hc, Option.map_none]
  · obtain ⟨found, rfl, hstand⟩ := hstands c hc
    exact ⟨hstand.dialect, hstand.canonicalId?_self, hstand.read_eq hs⟩
  · obtain ⟨found, rfl, hstand⟩ := hstands c hc
    refine World.has_of_compile ?_ hok
    rw [World.entryId_eq_resolve hr, hstand.resolve_eq hs hp]
  · obtain ⟨found, rfl, hstand⟩ := hstands c hc
    exact shadowed_compileAll hstand hs (fun he ↦ hne (congrArg rooted he)) (.refl w) hsound hn
      calls m
  · obtain ⟨found, rfl, hstand⟩ := hstands c hc
    have hlink : ∀ id, (w.graph.linkage w.disk importer).localPath? specifier = some id →
        id = rooted names ∧ Linkage.isAsset id = false ∨ id = rooted found →
        (w.graph.linkage w.disk importer).link dependencies specifier =
          .ok (.dependency (Linkage.record dependencies (rooted found)).1
            ((w.graph.linkage w.disk importer).pathTo (rooted found)) true,
            (Linkage.record dependencies (rooted found)).2) := by
      intro id hid hcase
      obtain ⟨hi, htarget⟩ := Linkage.target_of_localPath? hid
      rw [hstand.localTarget_eq (l := w.graph.linkage w.disk importer) hs rfl hcase] at htarget
      exact Linkage.link_of_target hi htarget
    rcases hp with ⟨hp, ha⟩ | hp
    · exact hlink _ hp (.inl ⟨rfl, ha⟩)
    · exact hlink _ hp (.inr rfl)

theorem unmarked_pairWorld : Folder.Unmarked pairWorld.disk ["s"] := by
  have hall : ∀ names ∈ [["a.js"], ["b.js"]], ∀ s ∈ names, Text.isMarked s = false := by decide
  exact fun names content hentry ↦ hall names (mem_files_pairWorld hentry)

/-- Without an extension `b.js` has the id with the extension. -/
theorem oneId_pairWorld : pairWorld.disk.Tidy ∧ pairWorld.disk.Opens "s" ["s"] ∧
    Folder.Unmarked pairWorld.disk ["s"] ∧ normalizeLocal "/b" = "/b" ∧
      pairWorld.graph.folder.canonicalId? pairWorld.disk "/b" = some "/b.js" ∧
        pairWorld.Unimported "/b" ∧ pairWorld.OneId "/b" := by
  have ht : pairWorld.disk.Tidy :=
    ⟨by unfold ModuleId.IsSegment; decide +kernel, by decide +kernel, by decide +kernel⟩
  have ho : pairWorld.disk.Opens "s" ["s"] := ⟨rfl, rfl⟩
  have hx : normalizeLocal "/b" = "/b" := by decide
  refine ⟨ht, ho, unmarked_pairWorld, hx, by decide +kernel, .of_fresh fresh_pairWorld _, ?_⟩
  exact oneId_of_history (.start fresh_pairWorld : History (fun _ _ ↦ True) [pairWorld])
    (List.mem_singleton_self _) ht ho unmarked_pairWorld hx

end Graph
end SiteCompiler
