import SiteCompiler.Proofs.Graph.Closure
import SiteCompiler.Proofs.Graph.Vendoring

namespace SiteCompiler.Graph

open Relation (ReflTransGen TransGen)
open Digest (contentHash)

def Options.single : Options :=
  { Options.default with alone := true }

variable {w u : World} {ws : List World} {r : Run} {id text : String} {m : Module} {depth : Nat}

section Remote

/-- Dependencies that are in the graph under the hashes that are recorded are settled already. -/
theorem settle_of_remoteModule? (importer : String) {ds : List Dependency}
    (h : ∀ d ∈ ds, ∃ m, r.world.graph.remoteModule? d.path = some m ∧ m.hash = d.hash) :
    Run.settle (fun r id ↦ Run.visit (depth + 1) r id .default) importer r ds =
      (.ok (ds, false), r) := by
  induction ds with
  | nil => rfl
  | cons d rest ih =>
    obtain ⟨m, hm, hhash⟩ := h d List.mem_cons_self
    have hvisit : Run.visit (depth + 1) r d.path .default = (.ok m, r) := by
      rw [Run.visit, show r.world.graph.remote.find? d.path = some m from hm]
    have hsame : r.renews importer d m = false := by
      rw [Run.renews, hhash]
      simp
    rw [Run.settle_cons hvisit, ih fun d' hd ↦ h d' (List.mem_cons_of_mem d hd), Run.settledAs, hsame]
    rfl

theorem World.prepare_single (w : World) (id : String) :
    w.prepare id .single = w.prepare id .default :=
  rfl

/-- A module is compiled alone as it is with its dependencies, if these are settled already. -/
theorem compile_single_eq (hid : w.entryId text = .ok id) (hok : (w.compile text .single).1 = .ok m)
    (hd : ∀ d ∈ m.dependencies, ∃ m', w.graph.remoteModule? d.path = some m' ∧ m'.hash = d.hash) :
    w.compile text .single = w.compile text .default := by
  have hdepth : w.depthBound = 2 * w.knownIds.length + 2 + 1 + 1 := rfl
  suffices hvisit : Run.visit w.depthBound (Run.start w) id .single =
      Run.visit w.depthBound (Run.start w) id .default by
    rw [World.compile, World.compile, hid]
    dsimp only
    rw [hvisit]
  have hfound : ∀ {m'}, (Run.visit w.depthBound (Run.start w) id .single).1 = .ok m' → m' = m := by
    intro m' hm'
    rw [World.compile, hid] at hok
    dsimp only at hok
    rcases hv : Run.visit w.depthBound (Run.start w) id .single with ⟨stop | m₁, r⟩
    · rw [hv] at hm'
      cases hm'
    · rw [hv] at hok hm'
      exact (Except.ok.inj hm').symm.trans (Except.ok.inj hok)
  rw [hdepth] at hfound ⊢
  cases hr : (Run.start w).world.graph.remote.find? id with
  | some m' => rw [Run.visit, Run.visit, hr]
  | none =>
    have hv : id ∉ (Run.start w).visited := List.not_mem_nil
    rcases hp : (Run.start w).world.prepare id .default with ⟨stop | ⟨m', changed⟩, world⟩
    · have hsingle := ((Run.start w).world.prepare_single id).trans hp
      rw [Run.visit_of_unprepared hr hv hp, Run.visit_of_unprepared hr hv hsingle]
    · have hsingle : Run.visit (2 * w.knownIds.length + 2 + 1 + 1) (Run.start w) id .single =
          ((Run.start w).entered id world).finish m' changed := by
        rw [Run.visit, hr]
        dsimp only
        rw [if_neg fun hc ↦ hv (List.contains_iff_mem.1 hc), World.prepare_single, hp]
        rfl
      rw [hsingle] at hfound ⊢
      obtain rfl := hfound rfl
      have hsettle := @settle_of_remoteModule? (((Run.start w).entered id world).inside m')
        (2 * w.knownIds.length + 2) m'.id _ fun d hm ↦ by
          obtain ⟨m₁, hm₁, hhash⟩ := hd d hm
          refine ⟨m₁, ?_, hhash⟩
          change world.graph.remote.find? d.path = some m₁
          rw [(World.prepare_eq hp).1.remote]
          exact hm₁
      rw [Run.visit_of_prepared hr hv hp rfl, hsettle]
      rfl

/-- A remote module that has been compiled alone is compiled, if it was in the graph before or its
dependencies were, under the hashes that it records. -/
theorem compile_compile_single (hs : Sound False (fun _ ↦ True) w)
    (hentry : ∀ v : World, v.entryId text = .ok id) (hremote : ModuleId.isRemote id = true)
    (hok : w.compile text .single = (.ok m, u))
    (hm : (∃ m', w.graph.remoteModule? id = some m') ∨
      ∀ d ∈ m.dependencies, ∃ m', w.graph.remoteModule? d.path = some m' ∧ m'.hash = d.hash) :
    w.compile text .default = (.ok m, u) ∧ u.compile text .default = (.ok m, u) := by
  rcases hm with ⟨m', hm'⟩ | hd
  · rw [compile_of_remoteModule? (hentry w) hm'] at hok ⊢
    obtain ⟨hfound, rfl⟩ := Prod.mk.inj hok
    obtain rfl := Except.ok.inj hfound
    exact ⟨rfl, compile_of_remoteModule? (hentry w) hm' .default⟩
  · have hdefault := (compile_single_eq (hentry w) (by rw [hok]) hd).symm.trans hok
    refine ⟨hdefault, compile_of_remoteModule? (hentry u) ?_ .default⟩
    obtain ⟨-, -, -, he, -, -, -, hhas⟩ := traversal_of_compile hdefault
    obtain rfl : id = m.id := Except.ok.inj ((hentry w).symm.trans he)
    have hsound : Sound False (fun _ ↦ True) (w.compile text .default).2 :=
      Sound.compile False.elim hs text .default fun _ _ _ ↦ trivial
    rw [hdefault] at hsound
    exact hhas.resolve_left fun hx ↦ (hsound.modules _ _ hx).2.2 hremote

end Remote

/-- Whatever a graph has been used for, a module that has been compiled alone is then compiled just if
it would have been at once, and with it all that it draws on comes to the same: the module is local,
or it was in the graph before, or its dependencies were under the hashes that it records. -/
theorem deferred_of_history (h : History World.Incremental (w :: ws)) (hlisted : w.Listed)
    (hid : normalizeId text = .ok id) (hext : ModuleId.isRemote id ∨ (Dialect.ofPath? id).isSome)
    (hok : w.compile text .single = (.ok m, u))
    (hremote : ModuleId.isRemote id → (∃ m', w.graph.remoteModule? id = some m') ∨
      ∀ d ∈ m.dependencies, ∃ m', w.graph.remoteModule? d.path = some m' ∧ m'.hash = d.hash)
    (hacyclic : ∀ x, w.Closure id x → ¬TransGen w.Draws x x)
    (hexplicit : ∀ x s, w.Closure id x → w.source? x = some s →
      (w.graph.linkage w.disk x).Explicit s.dialect s.text)
    (hsep : ∀ v ∈ w :: ws, ∀ x, w.Closure id x → ModuleId.isRemote x ∨ v.Separate x)
    (htold : ∀ v ∈ ws, ∀ x s s', w.Closure id x → v.source? x = some s → w.source? x = some s' →
      contentHash s.text = contentHash s'.text → s.text = s'.text)
    (hc : NoCollision ((w.compile text .default).2 :: w :: ws))
    (hc' : NoCollision ((u.compile text .default).2 :: u :: w :: ws)) :
    ((∃ m, (w.compile text .default).1 = .ok m) ↔ ∃ m, (u.compile text .default).1 = .ok m) ∧
    ((∃ m, (w.compile text .default).1 = .ok m) → ∀ x, w.Closure id x → ∃ m m',
      (w.compile text .default).2.Has x m ∧ (u.compile text .default).2.Has x m' ∧
        m.record = m'.record ∧ m.code = m'.code) := by
  have hsound : Sound False (fun _ ↦ True) w :=
    sound_of_history h (fun hF ↦ hF.elim) (fun _ _ _ _ _ ↦ trivial) w List.mem_cons_self
  have hnames := namesFile_normalizeId hid hext
  have hentry : ∀ v : World, v.entryId text = .ok id := fun v ↦ entryId_eq_ok hid hnames
  have hw : w.Regular (w.Closure id) := ⟨fun _ _ ha hd ↦ ha.tail hd, hacyclic, hexplicit⟩
  have hnamed : ∀ x, w.Closure id x → ModuleId.NamesFile x :=
    fun x hx ↦ hw.namesFile_of_closure hnames hx
  have htold' : ∀ v ∈ w :: ws, ∀ x s s', w.Closure id x → v.source? x = some s →
      w.source? x = some s' → contentHash s.text = contentHash s'.text → s.text = s'.text := by
    intro v hv x s s' hx hs hs' he
    rcases List.mem_cons.1 hv with rfl | hv
    · rw [Option.some_inj.1 (hs.symm.trans hs')]
    · exact htold v hv x s s' hx hs hs' he
  by_cases hr : ModuleId.isRemote id = true
  · -- both calls end in the world that the first one has left
    obtain ⟨hdefault, hagain⟩ := compile_compile_single hsound hentry hr hok (hremote hr)
    refine ⟨by rw [hdefault, hagain], fun hfirst x hx ↦ ?_⟩
    obtain ⟨m', hm', -⟩ := clean_of_history h hw hnamed hsep htold' (hentry w) .refl hc hfirst x hx
    refine ⟨m', m', hm', ?_, rfl, rfl⟩
    rw [hdefault] at hm'
    rw [hagain]
    exact hm'
  · have htext : ¬ModuleId.isRemote text := by
      intro ht
      rw [normalizeId, if_pos ht] at hid
      cases hn : ModuleId.normalizeRemote text with
      | error cause => rw [hn] at hid; cases hid
      | ok url =>
        rw [hn] at hid
        exact hr (Except.ok.inj hid ▸ ModuleId.isRemote_of_normalizeRemote ht hn)
    have hu : w.react (.compile text .single) = u := by rw [World.react_compile, hok]
    have h' : History World.Incremental (u :: w :: ws) :=
      hu ▸ .step h (w.admits_compile text .single) (.inr ⟨rfl, htext⟩)
    have hworked : w.Worked u := by
      have hworked := World.worked_compile hsound text .single
      rwa [hok] at hworked
    have hagrees : w.Agrees u (w.Closure id) := hworked.agrees (hsep w List.mem_cons_self)
    refine compile_eq_of_agrees h h' hw hagrees hnamed hsep (fun v hv x hx ↦ ?_) htold'
      (fun v hv x s s' hx hs hs' he ↦ ?_) (hentry w) (hentry u) .refl hlisted
      (by rw [World.Listed, hworked.otherwise]; exact hlisted) hc hc'
    · rcases List.mem_cons.1 hv with rfl | hv
      · exact (hsep w List.mem_cons_self x hx).imp_right hworked.separate
      · exact hsep v hv x hx
    · rw [hagrees.sources x hx] at hs'
      rcases List.mem_cons.1 hv with rfl | hv
      · rw [hagrees.sources x hx] at hs
        rw [Option.some_inj.1 (hs.symm.trans hs')]
      · exact htold' v hv x s s' hx hs hs' he

section Locked

variable {m' : Module} {a b code filled : String} {slots : List HashSlot} {s : Source}

theorem World.SameModules.previous? (h : World.SameModules w u) (id : String) :
    u.previous? id = w.previous? id := by
  obtain ⟨g, d, n⟩ := w
  obtain ⟨g', d', n'⟩ := u
  obtain ⟨f, s, t, a, b, x⟩ := g
  obtain ⟨f', s', t', a', b', x'⟩ := g'
  obtain ⟨rfl, rfl, rfl, rfl, rfl, rfl⟩ := h
  rfl

theorem exists_source_of_prepare (h : w.prepare id .default = (.ok (m, true), u)) :
    ∃ s, w.source? id = some s ∧ m.sourceHash = s.hash := by
  cases (World.prepare_eq h).2 m true rfl with
  | compiled ho ht =>
    obtain ⟨_, _, _, -, -, rfl⟩ := transpile_eq_ok ht
    exact ⟨_, source?_of_obtain rfl ho, rfl⟩

theorem exists_prepare_of_empty {F : Prop} {T : String → Prop} (hsound : Sound F T w) (hs : w.source? id = some s) (ht : s.text = "")
    (hp : w.previous? id = none) (hl : ModuleId.isRemote id = false)
    (hmap : w.graph.settings.sourceMap = false) :
    ∃ m world, w.prepare id .default = (.ok (m, true), world) ∧ draft m = ⟨id, false, "", [], []⟩ := by
  have hload := World.load_eq_ok hs
  have hobtain : ∃ world, w.obtain id .default none = (.ok (some s), world) := by
    rw [World.obtain]
    dsimp only [Options.default]
    rw [hl, Bool.false_and, Bool.false_and, if_neg Bool.false_ne_true]
    rcases hr : Source.load w.graph.folder w.disk w.network id with ⟨r, network⟩
    rw [hr] at hload
    obtain rfl : r = .ok s := hload
    exact ⟨_, rfl⟩
  obtain ⟨world, ho⟩ := hobtain
  have hsame := w.sameModules_obtain id .default none
  rw [ho] at hsame
  have hcompile : ∀ l d, Compiled.compile l d s.text w.graph.settings.sourceMap =
      .ok ⟨"", none, [], []⟩ := by
    rw [ht, hmap]
    intro l d
    cases d <;> rfl
  obtain ⟨m, hm⟩ : ∃ m, w.graph.transpile w.disk id s .default none = .ok m :=
    exists_transpile (hcompile _ _) (isHash_knownHash hsound fun _ hm ↦ by cases hm)
  refine ⟨m, world.count fun s ↦ { s with compiled := s.compiled + 1 }, ?_, ?_⟩
  · rw [World.prepare, show (w.graph.modules.find? id).or (w.graph.loadPersisted? w.disk id) = none
      from hp, ho]
    dsimp only
    rw [hsame.transpile, hm]
  · obtain ⟨c, _, code, hc, hf, rfl⟩ := transpile_eq_ok hm
    obtain rfl := Except.ok.inj ((hcompile _ _).symm.trans hc)
    obtain ⟨-, rfl⟩ := Prod.mk.inj (Option.some_inj.1 hf)
    rw [draft]
    change (⟨id, ModuleId.isRemote id, "", [], []⟩ : Draft) = _
    rw [hl]

/-- What a module is compiled to alone, and then with the one that it imports, which is empty. -/
theorem exists_compile_single_of_draft (hf : w.Fresh) (hentry : ∀ v : World, v.entryId text = .ok a)
    (hlt : a < b) (hla : ModuleId.isRemote a = false) (hlb : ModuleId.isRemote b = false)
    (hproper : ModuleId.Proper b) (hprepare : w.prepare a .default = (.ok (m, true), u))
    (hdraft : draft m = ⟨a, false, code, [⟨b, ""⟩], slots⟩)
    (hsep : ∀ x, x = a ∨ x = b → w.Separate x) (hmap : w.graph.settings.sourceMap = false)
    (hs : w.source? b = some s) (ht : s.text = "")
    (hfill : HashSlot.fill code slots [Digest.contentHash ""] = some (true, filled)) :
    ∃ m v, w.compile text .single = (.ok m, v) ∧ m.dependencies = [⟨b, ""⟩] ∧
      contents v.graph = [(a, code, [⟨b, ""⟩])] ∧
      contents (v.compile text .default).2.graph =
        [(a, filled, [⟨b, Digest.contentHash ""⟩]), (b, "", [])] := by
  obtain ⟨rfl, hlocal, hcode, hdeps, hslots⟩ := Draft.mk.inj hdraft
  have hsound := sound_of_fresh (F := False) (T := fun _ ↦ True) hf
  have hsame := (World.prepare_eq hprepare).1
  obtain ⟨depth, hdepth⟩ := w.exists_depthBound
  have hnone : w.graph.remote.find? m.id = none := by
    rw [hf.remote]
    rfl
  obtain ⟨r, hvisit, hworld, hvisited⟩ := Run.exists_visit_of_leaf (depth + 3)
    (r := Run.start w) (o := .single) hnone List.not_mem_nil (show w.prepare m.id .single = _ from hprepare)
    rfl
  have hyields := yields_visit (depth + 4) (Run.start w) m.id .single
  rw [hvisit] at hyields
  have hpasses := (Run.Passes.start hsound).after hyields (proper_entryId (hentry w)) fun _ h ↦ by cases h
  have hworked := hyields.worked hsound.run (proper_entryId (hentry w))
  obtain ⟨hmodules, hremote⟩ := World.modules_finish_local u true hlocal
  rw [← hworld, hsame.modules, hf.modules] at hmodules
  rw [← hworld, hsame.remote, hf.remote] at hremote
  replace hmodules : r.world.graph.modules = ⟨[m]⟩ := hmodules
  have haliases : r.world.graph.aliases = [] := by
    refine List.eq_nil_iff_forall_not_mem.2 fun x hx ↦ ?_
    obtain ⟨y, hy, d, hd, he⟩ := exists_of_mem_aliases hx
    rw [hmodules] at hy
    rw [List.mem_singleton.1 hy, hdeps] at hd
    exact (aliasOf?_eq_some he).2.1 (by rw [List.mem_singleton.1 hd])
  have hcompile : w.compile text .single = (.ok m, r.world) := by
    rw [World.compile, hentry]
    dsimp only
    rw [hdepth, hvisit]
    dsimp only
    rw [World.persistAliases, haliases]
    rfl
  refine ⟨m, r.world, hcompile, hdeps, ?_, ?_⟩
  · rw [contents, hmodules, hremote]
    change [(m.id, m.code, m.dependencies)] = _
    rw [hcode, hdeps]
  obtain ⟨source, hsource, hhash⟩ := exists_source_of_prepare hprepare
  have hprevious : r.world.previous? m.id = some m := by
    rw [World.previous?, hmodules, ModuleTable.find?, List.find?_cons_of_pos (by simp)]
    rfl
  obtain ⟨v, hagain⟩ := World.prepare_of_source? (o := .default) hprevious rfl
    ((hworked.source? (.inr (hsep _ (.inl rfl)))).trans hsource) hhash
  have hsame' := (World.prepare_eq hagain).1
  have hworked' := hworked.trans (World.worked_prepare hagain)
  have hblank : v.previous? b = none := by
    rw [hsame'.previous?]
    refine hpasses.previous?_eq_none hf hproper ?_
    rw [hvisited]
    exact fun hm ↦ String.lt_irrefl b ((List.mem_singleton.1 hm) ▸ hlt)
  obtain ⟨m', u', hprepare', hdraft'⟩ := exists_prepare_of_empty (hpasses.sound.world.sameModules hsame')
    ((hworked'.source? (.inr (hsep b (.inr rfl)))).trans hs) ht hblank hlb
    (by rw [hworked'.settings]; exact hmap)
  obtain ⟨_, w', hcompile', -, hcontents, -⟩ := exists_compile_of_drafts (w := r.world)
    (fun x hx ↦ by
      rw [hmodules] at hx
      rw [List.mem_singleton.1 hx]) (by rw [hmodules]; exact List.pairwise_singleton _ _) hremote (hentry _)
    hlt hagain hprepare' (by rw [draft, hla, hcode, hdeps, hslots]) hdraft' hfill
  rw [hcompile']
  exact hcontents

/-- The modules of `pairWorld`, and a store that cannot be written. -/
def lockedWorld : World :=
  ⟨.new ⟨"s", 1000⟩ ⟨"f/c"⟩ ⟨⟨[]⟩, true, false⟩,
    ⟨[], [(["s"], .directory), (["s", "a.js"], .file "import\"./b.js\"".toUTF8),
      (["s", "b.js"], .file "".toUTF8), (["f"], .file "".toUTF8)]⟩,
    ⟨[], .error .hostNotFound, []⟩⟩

theorem fresh_lockedWorld : lockedWorld.Fresh :=
  World.fresh_of_entries rfl rfl (by decide)

theorem separate_lockedWorld {x : String} (hx : x = "/a.js" ∨ x = "/b.js") :
    lockedWorld.Separate x := by
  have hroot : lockedWorld.storePlace = ["f", "c"] := by decide
  rcases hx with rfl | rfl
  · have hl : lockedWorld.disk.locate (lockedWorld.graph.folder.basePath "/a.js") =
        .ok ["s", "a.js"] := rfl
    exact separate_of_file (by decide) hl rfl (by rw [hroot]; decide)
  · have hl : lockedWorld.disk.locate (lockedWorld.graph.folder.basePath "/b.js") =
        .ok ["s", "b.js"] := rfl
    exact separate_of_file (by decide) hl rfl (by rw [hroot]; decide)

theorem agrees_lockedWorld : pairWorld.Agrees lockedWorld fun x ↦ x = "/a.js" ∨ x = "/b.js" := by
  refine ⟨rfl, fun x hx ↦ ?_⟩
  rcases hx with rfl | rfl <;> rfl

def half : List (String × String × List Dependency) :=
  [("/a.js", "import \"./b.000000000.js\";\n", [⟨"/b.js", ""⟩])]

set_option maxRecDepth 8000 in
theorem prepare_lockedWorld : (lockedWorld.prepare "/a.js" .default).1.toOption.map
    (fun p ↦ (draft p.1, p.2)) =
      some (⟨"/a.js", false, importing "000000000", [⟨"/b.js", ""⟩], [⟨0, 12⟩]⟩, true) := by
  decide +kernel

theorem prepare_imported_lockedWorld :
    ((lockedWorld.prepare "/a.js" .default).2.prepare "/b.js" .default).1.toOption.map
      (fun p ↦ (draft p.1, p.2)) = some (⟨"/b.js", false, "", [], []⟩, true) := by
  decide +kernel

theorem exists_compile_lockedWorld : ∃ m w, lockedWorld.compile "a.js" .default = (.ok m, w) ∧
    contents w.graph = pair := by
  obtain ⟨m, hprepare, hdraft⟩ := exists_of_draft prepare_lockedWorld
  obtain ⟨m', hprepare', hdraft'⟩ := exists_of_draft prepare_imported_lockedWorld
  obtain ⟨m, w, hcompile, -, hcontents, -⟩ := exists_compile_of_drafts (w := lockedWorld)
    (fun _ h ↦ by cases h) .nil rfl (entryId_a _) (by decide) hprepare hprepare' hdraft hdraft'
    fill_importing
  rw [contentHash_empty] at hcontents
  exact ⟨m, w, hcompile, hcontents⟩

theorem exists_compile_single_lockedWorld : ∃ m u, lockedWorld.compile "a.js" .single = (.ok m, u) ∧
    m.dependencies = [⟨"/b.js", ""⟩] ∧ contents u.graph = half ∧
      contents (u.compile "a.js" .default).2.graph = pair := by
  obtain ⟨m, hprepare, hdraft⟩ := exists_of_draft prepare_lockedWorld
  have hcompile := exists_compile_single_of_draft (w := lockedWorld) fresh_lockedWorld entryId_a (by decide)
    (by decide) (by decide) (.inr (by decide)) hprepare hdraft (fun x hx ↦ separate_lockedWorld hx) rfl
    (show lockedWorld.source? "/b.js" = some (.ofText "" .js) from rfl) rfl fill_importing
  rw [contentHash_empty] at hcompile
  exact hcompile

theorem contentHash_half :
    contentHash "import \"./b.000000000.js\";\n" = "27ccfe823f9a4f19e760444219ae09a33b9d0082" := by
  decide +kernel

theorem noCollision_lockedWorld {ws : List World} (h : ∀ v ∈ ws,
    contents v.graph = pair ∨ contents v.graph = half ∨ contents v.graph = []) : NoCollision ws := by
  have htexts : ∀ t ∈ ["import \"./b.da39a3ee5.js\";\n", "import \"./b.000000000.js\";\n", ""],
      ∀ t' ∈ ["import \"./b.da39a3ee5.js\";\n", "import \"./b.000000000.js\";\n", ""],
      contentHash t = contentHash t' → t = t' := by
    simp only [List.forall_mem_cons, contentHash_empty, contentHash_importer, contentHash_half]
    decide
  refine noCollision_of_contents htexts fun v hv ↦ ?_
  rcases h v hv with h | h | h <;> rw [h] <;> decide

theorem deferred_lockedWorld : ∃ m u m₁ m₂, lockedWorld.compile "a.js" .single = (.ok m, u) ∧
    m.dependencies = [⟨"/b.js", ""⟩] ∧ (lockedWorld.compile "a.js" .default).2.Has "/b.js" m₁ ∧
    (u.compile "a.js" .default).2.Has "/b.js" m₂ ∧ m₁.record = m₂.record ∧ m₁.code = m₂.code := by
  have hregular := regular_pairWorld.agrees agrees_lockedWorld
  have hclosure : ∀ x, lockedWorld.Closure "/a.js" x → x = "/a.js" ∨ x = "/b.js" := by
    intro x hx
    induction hx with
    | refl => exact .inl rfl
    | tail _ hd ih => exact hregular.closed _ _ ih hd
  have hb : lockedWorld.Closure "/a.js" "/b.js" :=
    .single ((regular_pairWorld.draws_iff agrees_lockedWorld (.inl rfl)).2 imports_pairWorld)
  have hfresh := fresh_lockedWorld
  have hlisted : lockedWorld.Listed := fun _ he ↦ by cases he
  have hsep : ∀ v ∈ [lockedWorld], ∀ x, lockedWorld.Closure "/a.js" x →
      ModuleId.isRemote x ∨ v.Separate x := by
    intro v hv x hx
    rw [List.mem_singleton.1 hv]
    exact .inr (separate_lockedWorld (hclosure x hx))
  have hstart : contents lockedWorld.graph = [] := rfl
  obtain ⟨m₀, w, hcompile, hpair⟩ := exists_compile_lockedWorld
  obtain ⟨m, u, hok, hdependencies, hhalf, hpair'⟩ := exists_compile_single_lockedWorld
  generalize hagain : (u.compile "a.js" .default).2 = w' at hpair'
  have hc : NoCollision [w, lockedWorld] := noCollision_lockedWorld fun v hv ↦ by
    rcases List.mem_cons.1 hv with rfl | hv
    · exact .inl hpair
    · rw [List.mem_singleton.1 hv]
      exact .inr (.inr hstart)
  have hc' : NoCollision [w', u, lockedWorld] := noCollision_lockedWorld fun v hv ↦ by
    rcases List.mem_cons.1 hv with rfl | hv
    · exact .inl hpair'
    · rcases List.mem_cons.1 hv with rfl | hv
      · exact .inr (.inl hhalf)
      · rw [List.mem_singleton.1 hv]
        exact .inr (.inr hstart)
  obtain ⟨-, hsame⟩ := deferred_of_history (.start hfresh) hlisted
    (show normalizeId "a.js" = .ok "/a.js" from rfl) (.inr rfl) hok
    (fun hr ↦ absurd hr (by decide)) (fun x hx ↦ hregular.acyclic x (hclosure x hx))
    (fun x s hx ↦ hregular.explicit x s (hclosure x hx)) hsep (fun v hv ↦ by cases hv)
    (by rw [hcompile]; exact hc) (by rw [hagain]; exact hc')
  obtain ⟨m₁, m₂, hm₁, hm₂, hrecord, hcode⟩ := hsame ⟨m₀, by rw [hcompile]⟩ "/b.js" hb
  exact ⟨m, u, m₁, m₂, hok, hdependencies, hm₁, hm₂, hrecord, hcode⟩

end Locked

section Orphan

/-- A remote module that imports another one, which is missing. -/
def orphanWorld : World :=
  ⟨.new ⟨"s", 1000⟩ ⟨"c"⟩ ⟨⟨[]⟩, true, false⟩, ⟨[], [(["s"], .directory), (["c"], .directory)]⟩,
    ⟨[("http://x/a.js", .ok ⟨200, none, "import\"./c.js\"".toUTF8⟩)], .error .hostNotFound, []⟩⟩

theorem fresh_orphanWorld : orphanWorld.Fresh :=
  World.fresh_of_entries rfl rfl (by decide)

theorem source_orphanWorld :
    (orphanWorld.source? "http://x/a.js").map (fun s ↦ (s.text, s.dialect)) =
      some ("import\"./c.js\"", .js) ∧ orphanWorld.source? "http://x/c.js" = none :=
  ⟨rfl, rfl⟩

set_option maxRecDepth 8000 in
theorem compile_orphanWorld :
    (Compiled.compile (orphanWorld.graph.linkage orphanWorld.disk "http://x/a.js") .js
      "import\"./c.js\"" false).toOption.map (·.dependencies) = some ["http://x/c.js"] ∧
    normalizeId "http://x/a.js" = .ok "http://x/a.js" ∧
    ((orphanWorld.compile "http://x/a.js" .single).1.toOption.map (·.dependencies),
      ((orphanWorld.compile "http://x/a.js" .single).2.graph.remoteModule? "http://x/a.js").isSome,
      (orphanWorld.compile "http://x/a.js" .default).1.toOption.isSome) =
        (some [⟨"http://x/c.js", ""⟩], true, false) := by
  decide +kernel

theorem not_draws_orphanWorld {b : String} : ¬orphanWorld.Draws "http://x/c.js" b := by
  rintro ⟨s, c, ⟨hs, -⟩, -⟩
  rw [source_orphanWorld.2] at hs
  cases hs

theorem draws_orphanWorld {b : String} (h : orphanWorld.Draws "http://x/a.js" b) :
    b = "http://x/c.js" := by
  obtain ⟨s, c, ⟨hs, hc⟩, hb⟩ := h
  have hsource := source_orphanWorld.1
  have hdeps := compile_orphanWorld.1
  rw [hs] at hsource
  obtain ⟨ht, hd⟩ := Prod.mk.inj (Option.some_inj.1 hsource)
  rw [hd, ht] at hc
  rw [show Compiled.compile _ _ _ false = _ from hc] at hdeps
  rw [show c.dependencies = ["http://x/c.js"] from Option.some_inj.1 hdeps] at hb
  exact List.mem_singleton.1 hb

theorem acyclic_orphanWorld {x : String} (hx : orphanWorld.Closure "http://x/a.js" x) :
    ModuleId.isRemote x = true ∧ ¬TransGen orphanWorld.Draws x x := by
  have hids : x = "http://x/a.js" ∨ x = "http://x/c.js" := by
    induction hx with
    | refl => exact .inl rfl
    | tail _ hd ih =>
      rcases ih with rfl | rfl
      · exact .inr (draws_orphanWorld hd)
      · exact absurd hd not_draws_orphanWorld
  have hleaf : ¬TransGen orphanWorld.Draws "http://x/c.js" "http://x/c.js" := by
    intro h
    obtain ⟨b, hb, -⟩ := TransGen.head'_iff.1 h
    exact not_draws_orphanWorld hb
  rcases hids with rfl | rfl
  · refine ⟨by decide, fun h ↦ ?_⟩
    obtain ⟨b, hb, hback⟩ := TransGen.head'_iff.1 h
    obtain rfl := draws_orphanWorld hb
    rcases hback.cases_head with he | ⟨c, hc, -⟩
    · exact absurd he (by decide)
    · exact not_draws_orphanWorld hc
  · exact ⟨by decide, hleaf⟩

/-- A remote module that is compiled alone counts as compiled, although what it imports cannot be
had. -/
theorem not_deferred_orphanWorld : ∃ m u, orphanWorld.Fresh ∧
    (∀ x, orphanWorld.Closure "http://x/a.js" x → ¬TransGen orphanWorld.Draws x x) ∧
    (∀ x s, orphanWorld.Closure "http://x/a.js" x → orphanWorld.source? x = some s →
      (orphanWorld.graph.linkage orphanWorld.disk x).Explicit s.dialect s.text) ∧
    orphanWorld.compile "http://x/a.js" .single = (.ok m, u) ∧
    ¬((∃ m, (u.compile "http://x/a.js" .default).1 = .ok m) ↔
      ∃ m, (orphanWorld.compile "http://x/a.js" .default).1 = .ok m) := by
  have hentry : ∀ v : World, v.entryId "http://x/a.js" = .ok "http://x/a.js" := fun v ↦
    entryId_eq_ok compile_orphanWorld.2.1 (.inl (by decide))
  have hfresh := fresh_orphanWorld
  have hacyclic := @acyclic_orphanWorld
  have h := compile_orphanWorld.2.2
  generalize orphanWorld = w at h hfresh hacyclic ⊢
  generalize w.compile "http://x/a.js" .single = p at h ⊢
  generalize w.compile "http://x/a.js" .default = q at h ⊢
  obtain ⟨hfound, h⟩ := Prod.mk.inj h
  obtain ⟨hregistered, hnone⟩ := Prod.mk.inj h
  obtain ⟨_ | m, u⟩ := p
  · cases hfound
  obtain ⟨m', hm'⟩ := Option.isSome_iff_exists.1 hregistered
  refine ⟨m, u, hfresh, fun x hx ↦ (hacyclic hx).2,
    fun x s hx _ ↦ Linkage.explicit_of_isRemote (hacyclic hx).1 _ _, rfl, fun hiff ↦ ?_⟩
  obtain ⟨m₁, hm₁⟩ := hiff.1 ⟨m', by rw [compile_of_remoteModule? (hentry u) hm']⟩
  rw [hm₁] at hnone
  cases hnone

end Orphan

end SiteCompiler.Graph
