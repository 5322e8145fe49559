import SiteCompiler.Proofs.Graph.Artifacts
import SiteCompiler.Proofs.Linkage

namespace SiteCompiler.Source.Folder

theorem read_congr {f : Folder} {d d' : Disk} {id : String} {place : Disk.Place}
    {content : ByteArray} (hid : (Dialect.ofPath? id).isSome)
    (hl : d.locate (f.basePath id) = .ok place) (he : d.entry? place = some (.file content))
    (hl' : d'.locate (f.basePath id) = .ok place)
    (he' : d'.entry? place = some (.file content)) : f.read d' id = f.read d id := by
  have hread : ∀ d : Disk, d.locate (f.basePath id) = .ok place →
      d.entry? place = some (.file content) →
      f.path? d id = some (f.basePath id) ∧ d.readBytes (f.basePath id) = .ok content := by
    intro d hl he
    have hf : d.isFile (f.basePath id) = true := by
      rw [Disk.isFile, Disk.find?, hl]
      dsimp only
      rw [he]
    exact ⟨by rw [path?, if_pos hid, if_pos hf], Disk.readBytes_of_file hl he⟩
  obtain ⟨hf, hb⟩ := hread d hl he
  obtain ⟨hf', hb'⟩ := hread d' hl' he'
  unfold read
  rw [hf, hf']
  dsimp only
  rw [hb, hb']

end SiteCompiler.Source.Folder

namespace SiteCompiler.Graph

open Disk (Through)

theorem Known.weaken {F : Prop} {store : ArtifactStore} {m : Module} (h : Known F store m) :
    Known False store m :=
  ⟨h.toFiled, False.elim⟩

/-- What is sound if texts are told apart by their hashes is sound in a weaker sense in any case. -/
theorem Sound.weaken {F : Prop} {T : String → Prop} {w : World} (h : Sound F T w) :
    Sound False (fun _ ↦ True) w where
  sorted := h.sorted
  modules := fun id m hm ↦ ⟨(h.modules id m hm).1.weaken, trivial, (h.modules id m hm).2.2⟩
  remote := fun id m hm ↦ ⟨(h.remote id m hm).1.weaken, trivial, (h.remote id m hm).2.2⟩
  records := fun place content hb he hc ↦
    have ⟨m, hm, _, ht⟩ := h.records place content hb he hc
    ⟨m, hm.weaken, trivial, ht⟩
  codes := fun place content hb he hc ↦
    have ⟨t, _, ht⟩ := h.codes place content hb he hc
    ⟨t, trivial, ht⟩

namespace World

/-- The same is compiled in the same way, except for the contents of the disk. -/
structure SameTerms (w w' : World) : Prop where
  folder : w'.graph.folder = w.graph.folder
  settings : w'.graph.settings = w.graph.settings
  answers : w'.network.answers = w.network.answers
  otherwise : w'.network.otherwise = w.network.otherwise

/-- One world comes from another by compiling: requests have been made, and the store has been
written to. -/
structure Worked (w w' : World) : Prop extends SameTerms w w' where
  store : w'.graph.store = w.graph.store
  disk : Through (Keeps w.graph.store ModuleId.Proper) w.disk w'.disk

variable {w w' w'' : World} {id : String} {m : Module}

theorem SameTerms.refl (w : World) : w.SameTerms w :=
  ⟨rfl, rfl, rfl, rfl⟩

theorem SameTerms.symm (h : w.SameTerms w') : w'.SameTerms w :=
  ⟨h.folder.symm, h.settings.symm, h.answers.symm, h.otherwise.symm⟩

theorem SameTerms.trans (h : w.SameTerms w') (h' : w'.SameTerms w'') : w.SameTerms w'' :=
  ⟨h'.folder.trans h.folder, h'.settings.trans h.settings, h'.answers.trans h.answers,
    h'.otherwise.trans h.otherwise⟩

theorem Worked.refl (w : World) : w.Worked w :=
  ⟨.refl w, rfl, .refl _⟩

theorem Worked.trans (h : w.Worked w') (h' : w'.Worked w'') : w.Worked w'' :=
  ⟨h.toSameTerms.trans h'.toSameTerms, h'.store.trans h.store, h.disk.trans (h.store ▸ h'.disk)⟩

theorem network_obtain (w : World) (id : String) (o : Options) (previous : Option Module) :
    (w.obtain id o previous).2.network.answers = w.network.answers ∧
      (w.obtain id o previous).2.network.otherwise = w.network.otherwise := by
  have hload : ∀ r n, Source.load w.graph.folder w.disk w.network id = (r, n) →
      n.answers = w.network.answers ∧ n.otherwise = w.network.otherwise := by
    intro r n h
    rw [Source.load] at h
    split at h
    · rw [Source.fetch] at h
      rw [← (Prod.mk.inj h).2]
      exact ⟨rfl, rfl⟩
    · rw [← (Prod.mk.inj h).2]
      exact ⟨rfl, rfl⟩
  rw [obtain]
  split
  · exact ⟨rfl, rfl⟩
  · split
    · exact ⟨rfl, rfl⟩
    · split
      · next hl => exact hload _ _ hl
      · next hl => exact hload _ _ hl

theorem requests_load (w : World) (id : String) :
    (Source.load w.graph.folder w.disk w.network id).2.requests =
      if ModuleId.isRemote id then id :: w.network.requests else w.network.requests := by
  rw [Source.load]
  split <;> rfl

/-- A source is requested if it is remote, and there is neither an inline one nor a record that will
do. -/
theorem requests_obtain (w : World) (id : String) (o : Options) (previous : Option Module) :
    (w.obtain id o previous).2.network.requests =
      if ModuleId.isRemote id && o.source?.isNone && (previous.isNone || ModuleId.isLoopback id)
      then id :: w.network.requests else w.network.requests := by
  obtain ⟨source, dialect, alone⟩ := o
  rw [obtain]
  cases source with
  | some text => rw [Option.isNone_some, Bool.and_false, Bool.false_and, if_neg Bool.false_ne_true]
  | none =>
    dsimp only
    by_cases hkept : (ModuleId.isRemote id && previous.isSome && !ModuleId.isLoopback id) = true
    · rw [if_pos hkept, if_neg]
      cases previous <;> simp_all
    · have hload := w.requests_load id
      have hcond : (ModuleId.isRemote id && Option.isNone (none : Option String) &&
          (previous.isNone || ModuleId.isLoopback id)) = ModuleId.isRemote id := by
        cases previous <;> cases hr : ModuleId.isRemote id <;> simp_all
      rw [if_neg hkept, hcond, ← hload]
      rcases Source.load w.graph.folder w.disk w.network id with ⟨cause | s, network⟩ <;> rfl

theorem network_prepare (w : World) (id : String) (o : Options) :
    (w.prepare id o).2.network = (w.obtain id o (w.previous? id)).2.network := by
  rw [prepare]
  rw [show (w.graph.modules.find? id).or (w.graph.loadPersisted? w.disk id) = w.previous? id
    from rfl]
  rcases w.obtain id o (w.previous? id) with ⟨cause | (_ | s), w₁⟩
  · rfl
  · dsimp only
    cases w.previous? id <;> rfl
  · dsimp only
    cases w₁.graph.transpile w₁.disk id s o (w.previous? id) <;> rfl

theorem worked_prepare {o : Options} {r : Except Stop (Module × Bool)}
    (h : w.prepare id o = (r, w')) : w.Worked w' := by
  obtain ⟨hs, -⟩ := prepare_eq h
  have hn := w.network_prepare id o
  rw [h] at hn
  obtain ⟨ha, ho⟩ := w.network_obtain id o (w.previous? id)
  refine ⟨⟨hs.folder, hs.settings, hn ▸ ha, hn ▸ ho⟩, hs.store, ?_⟩
  rw [hs.disk]
  exact .refl _

theorem network_persistBy (w : World) (a : Disk.Action Unit) : (w.persistBy a).network = w.network := by
  rw [persistBy]
  generalize w.disk.perform a = r
  obtain ⟨r, d⟩ := r
  cases r <;> rfl

theorem network_register (w : World) (m : Module) : (w.register m).network = w.network := rfl

theorem network_finish (w : World) (m : Module) (changed : Bool) :
    (w.finish m changed).network = w.network := by
  rw [finish, network_register]
  split
  · exact w.network_persistBy _
  · rfl

theorem worked_finish (hm : Filed w.graph.store m) (changed : Bool) :
    w.Worked (w.finish m changed) := by
  obtain ⟨hf, hs, ht, -, -⟩ := w.modules_finish m changed
  have hn := w.network_finish m changed
  refine ⟨⟨hf, ht, by rw [hn], by rw [hn]⟩, hs, (through_finish hm changed).mono fun _ ha ↦ ?_⟩
  exact ha.mono fun _ hx ↦ hx ▸ hm.proper

theorem network_persistAliases (w : World) (visited : List String) :
    (w.persistAliases visited).network = w.network := by
  rw [persistAliases]
  generalize w.graph.aliases.filter (fun a ↦ visited.contains a.target.id) = as
  induction as generalizing w with
  | nil => rfl
  | cons a as ih =>
    rw [List.foldl_cons, ih, persistAlias]
    split
    · rfl
    · exact w.network_persistBy _

theorem worked_persistAliases {F : Prop} {T : String → Prop} (h : Sound F T w)
    (visited : List String) : w.Worked (w.persistAliases visited) := by
  have hsame := sameGraph_persistAliases w visited
  have hn := w.network_persistAliases visited
  exact ⟨⟨hsame.folder, hsame.settings, by rw [hn], by rw [hn]⟩, hsame.store,
    (through_persistAliases h visited).mono fun _ ha ↦ ha.mono fun _ hx ↦ hx.2⟩

end World

/-- A part of a run leaves the settings and the answers of the network, and only the store writes. -/
theorem Yields.worked {r r' : Run} {t : Task} {out : Outcome} (h : Yields r t out r')
    (hs : r.Sound False fun _ ↦ True) (ht : t.Proper) : r.world.Worked r'.world := by
  have hT : Faithful False fun _ ↦ True := False.elim
  have hall : ∀ w : World, w.Each fun _ ↦ True := fun _ _ _ _ ↦ trivial
  induction h with
  | deep => exact .refl _
  | vendored => exact .refl _
  | again => exact .refl _
  | lost => exact .refl _
  | unprepared _ _ hp => exact World.worked_prepare hp
  | @leaf r id o m changed world hr hv hp _ =>
    obtain ⟨hm, -, -⟩ := hs.inside hT ht hp
    have hw := World.worked_prepare hp
    exact hw.trans (World.worked_finish (hw.store ▸ hm.toFiled) changed)
  | @dropped r inner id o m changed world stop hr hv hp ha hb ih =>
    obtain ⟨-, hs', ht'⟩ := hs.inside hT ht hp
    exact (World.worked_prepare hp).trans (ih hs' ht')
  | @kept r inner id o m changed world ds hr hv hp ha hb ih =>
    obtain ⟨hm, hs', ht'⟩ := hs.inside hT ht hp
    have hw := (World.worked_prepare hp).trans (ih hs' ht')
    exact hw.trans (World.worked_finish (hw.store ▸ hm.toFiled) changed)
  | @broken r inner id o m changed world ds stop hr hv hp ha hb hl ih =>
    obtain ⟨-, hs', ht'⟩ := hs.inside hT ht hp
    exact (World.worked_prepare hp).trans (ih hs' ht')
  | @relinked r inner id o m m' changed world ds hr hv hp ha hb hl ih =>
    obtain ⟨hm, hs', ht'⟩ := hs.inside hT ht hp
    have hw := (World.worked_prepare hp).trans (ih hs' ht')
    have hm' : Known False inner.world.graph.store m' :=
      Known.relink (hw.store ▸ hm) (hb.sound hT hs' ht' (hall _)).2 hl
    exact hw.trans (World.worked_finish hm'.toFiled true)
  | done => exact .refl _
  | failed hf ih => exact ih hs (ht _ List.mem_cons_self).2
  | @cut r r' r'' importer d rest m stop hf ho ih ih' =>
    obtain ⟨hframe, hst⟩ := hf.frame
    have hvisit := (ht d List.mem_cons_self).2
    have hs' := hs.after hframe (hst fun _ h ↦ Outcome.noConfusion h)
      (hf.sound hT hs hvisit (hall _)).1
    exact (ih hs hvisit).trans (ih' hs' fun d' hd ↦ ht d' (List.mem_cons_of_mem d hd))
  | @next r r' r'' importer d rest settled m changed hf ho ih ih' =>
    obtain ⟨hframe, hst⟩ := hf.frame
    have hvisit := (ht d List.mem_cons_self).2
    have hs' := hs.after hframe (hst fun _ h ↦ Outcome.noConfusion h)
      (hf.sound hT hs hvisit (hall _)).1
    exact (ih hs hvisit).trans (ih' hs' fun d' hd ↦ ht d' (List.mem_cons_of_mem d hd))

namespace World

variable {w w' : World} {id text : String} {o : Options}

theorem worked_compile {F : Prop} {T : String → Prop} (h : Sound F T w) (text : String)
    (o : Options) : w.Worked (w.compile text o).2 := by
  have hall : ∀ w : World, w.Each fun _ ↦ True := fun _ _ _ _ ↦ trivial
  have hT : Faithful False fun _ ↦ True := False.elim
  have hs := h.weaken
  have hrun : (Run.start w).Sound False fun _ ↦ True := ⟨hs, fun _ hm ↦ by cases hm⟩
  rcases compile_cases w text o with ⟨cause, -, hc⟩ | ⟨id, r, he, ⟨stop, hy, hc⟩ | ⟨m, hy, hc⟩⟩
  · rw [hc]
    exact .refl w
  · rw [hc]
    exact hy.worked hrun (proper_entryId he)
  · rw [hc]
    have hid := proper_entryId he
    exact (hy.worked hrun hid).trans
      (worked_persistAliases (hy.sound hT hrun hid (hall _)).1 r.visited)

/-- What the store writes for modules does not change the source of a module. -/
def Separate (w : World) (id : String) : Prop :=
  ∀ disk, Through (Keeps w.graph.store ModuleId.Proper) w.disk disk →
    w.graph.folder.read disk id = w.graph.folder.read w.disk id

def source? (w : World) (id : String) : Option Source :=
  (Source.load w.graph.folder w.disk w.network id).1.toOption

theorem load_eq_ok {s : Source} (h : w.source? id = some s) :
    (Source.load w.graph.folder w.disk w.network id).1 = .ok s := by
  rw [source?] at h
  cases hx : (Source.load w.graph.folder w.disk w.network id).1 with
  | error cause => rw [hx] at h; cases h
  | ok s' => rw [hx] at h; rw [Option.some_inj.1 h]

theorem Worked.separate (h : w.Worked w') (hs : w.Separate id) : w'.Separate id := by
  intro disk hd
  rw [h.store] at hd
  rw [h.folder, hs disk (h.disk.trans hd), hs w'.disk h.disk]

theorem SameTerms.source?_eq (h : w.SameTerms w')
    (hs : ModuleId.isRemote id ∨ w.graph.folder.read w'.disk id = w.graph.folder.read w.disk id) :
    w'.source? id = w.source? id := by
  rw [source?, source?, Source.load, Source.load]
  by_cases hr : ModuleId.isRemote id
  · rw [if_pos hr, if_pos hr]
    change ((Source.ofAnswer id (w'.network.answer id)).mapError _).toOption =
      ((Source.ofAnswer id (w.network.answer id)).mapError _).toOption
    rw [Network.answer, Network.answer, h.answers, h.otherwise]
  · rw [if_neg hr, if_neg hr, h.folder, hs.resolve_left hr]

theorem Worked.source? (h : w.Worked w') (hs : ModuleId.isRemote id ∨ w.Separate id) :
    w'.source? id = w.source? id :=
  h.source?_eq (hs.imp_right fun hs ↦ hs w'.disk h.disk)

end World

theorem Keeps.writes_below {store : ArtifactStore} {a : Disk.Action Unit}
    (h : Keeps store ModuleId.Proper a) :
    Disk.Writes (fun wd p _ ↦ Disk.placeOf wd store.root <+: p) a := by
  have hcode : ∀ {id hash code sourceMap wd p c}, ModuleId.Proper id → Names id hash →
      ArtifactStore.PutsCode (store.codePath (ModuleId.stem id) hash) code sourceMap wd p c →
      Disk.placeOf wd store.root <+: p := by
    intro id hash code sourceMap wd p c hid hn hputs
    have hhash : ∀ x ∈ hash, ∃ text, x = Digest.contentHash text := by
      rintro x rfl
      exact hn.2
    rcases hputs with ⟨rfl, -⟩ | ⟨map, -, rfl, -⟩
    · exact store.root_prefix_codePath wd (ModuleId.staysBelow_stem hid) hhash
    · exact store.root_prefix_sourceMapPath wd (ModuleId.staysBelow_stem hid) hhash
  cases h with
  | @write m hf hid =>
    refine (ArtifactStore.writes_write _ _ _ _ _ _).mono fun wd p c hn ↦ ?_
    rcases hn with ⟨rfl, -⟩ | hn
    · exact store.root_prefix_recordPath wd (ModuleId.staysBelow_stem hid)
    · rw [hf.file] at hn
      exact hcode hid hf.names hn
  | writeUnder code map hid hn =>
    exact (ArtifactStore.writes_writeCode _ _ _).mono fun wd p c hp ↦ hcode hid hn hp

theorem separate_of_file {w : World} {id : String} {place : Disk.Place} {content : ByteArray}
    (hid : (Dialect.ofPath? id).isSome)
    (hl : w.disk.locate (w.graph.folder.basePath id) = .ok place)
    (he : w.disk.entry? place = some (.file content))
    (hp : ¬w.storePlace <+: place) : w.Separate id := by
  intro disk hd
  have hg := hd.grows fun _ ↦ Keeps.writes_below
  obtain ⟨content', he', hc⟩ := hg.file he
  obtain rfl := hc.resolve_right hp
  exact Source.Folder.read_congr hid hl he (hg.locate hl) he'

theorem separate_of_missing {w : World} {id : String} {place : Disk.Place}
    (hid : (Dialect.ofPath? id).isSome)
    (hl : w.disk.locate (w.graph.folder.basePath id) = .ok place)
    (he : ∀ content, w.disk.entry? place ≠ some (.file content))
    (hp : ¬w.storePlace <+: place) : w.Separate id := by
  intro disk hd
  have hg := hd.grows fun _ ↦ Keeps.writes_below
  have hread : ∀ d : Disk, d.locate (w.graph.folder.basePath id) = .ok place →
      (∀ content, d.entry? place ≠ some (.file content)) → w.graph.folder.path? d id = none := by
    intro d hl he
    have hf : d.isFile (w.graph.folder.basePath id) = false := by
      rw [Disk.isFile, Disk.find?, hl]
      dsimp only
      split
      · next content hc => exact absurd hc (he content)
      · rfl
    rw [Source.Folder.path?, if_pos hid, if_neg (by rw [hf]; exact Bool.false_ne_true)]
  unfold Source.Folder.read
  rw [hread w.disk hl he, hread disk (hg.locate hl) fun content hc ↦
    (hg.origin place content hc).elim (he content) hp]

theorem World.exists_prepare_error {w : World} {id : String} (hl : ModuleId.isRemote id = false)
    (hs : w.source? id = none) : ∃ stop world, w.prepare id .default = (.error stop, world) := by
  have hobtain : ∃ cause world, w.obtain id .default (w.previous? id) = (.error cause, world) := by
    rw [World.obtain]
    dsimp only [Options.default]
    rw [hl, Bool.false_and, Bool.false_and, if_neg Bool.false_ne_true]
    rw [World.source?] at hs
    rcases hload : Source.load w.graph.folder w.disk w.network id with ⟨cause | s, network⟩
    · exact ⟨_, _, rfl⟩
    · rw [hload] at hs
      cases hs
  obtain ⟨cause, world, ho⟩ := hobtain
  refine ⟨.error cause, world, ?_⟩
  rw [World.prepare, show (w.graph.modules.find? id).or (w.graph.loadPersisted? w.disk id) =
    w.previous? id from rfl, ho]

end SiteCompiler.Graph
