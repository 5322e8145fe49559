import SiteCompiler.Proofs.Graph.Calls

namespace SiteCompiler.Graph

open Disk (Place placeOf Through)

/-- The places at which the store keeps a module: that of its record, those of its code under any
hash, and those of the source maps beside that. -/
inductive Stored (store : ArtifactStore) (workingDirectory : Place) (id : String) : Place → Prop
  | record : Stored store workingDirectory id
      (placeOf workingDirectory (store.recordPath (ModuleId.stem id)))
  | code {hash : Option String} (names : Names id hash) : Stored store workingDirectory id
      (placeOf workingDirectory (store.codePath (ModuleId.stem id) hash))
  | sourceMap {hash : Option String} (names : Names id hash) : Stored store workingDirectory id
      (placeOf workingDirectory
        (ArtifactStore.sourceMapPath (store.codePath (ModuleId.stem id) hash)))

namespace World

def Stores (w : World) (id : String) (place : Place) : Prop :=
  Stored w.graph.store w.disk.workingDirectory id place

/-- The record of a module and its files are the same in both worlds. -/
structure Leaves (w w' : World) (id : String) : Prop where
  registered : w'.graph.module? id = w.graph.module? id
  vendored : w'.graph.remoteModule? id = w.graph.remoteModule? id
  files : ∀ place, w.Stores id place → ∀ content,
    w'.disk.entry? place = some (.file content) ↔ w.disk.entry? place = some (.file content)

def Involves (w : World) (text : String) (o : Options) (id : String) : Prop :=
  (∃ m, w.Has id m) ∨ ∃ c ∈ w.calls text o, c.id = id

end World

section Files

variable {store : ArtifactStore} {ids : String → Prop} {w w' : World} {id : String}

theorem Keeps.writes_stored {a : Disk.Action Unit} (h : Keeps store ids a) :
    Disk.Writes (fun wd p _ ↦ ∃ id, ids id ∧ Stored store wd id p) a := by
  cases h with
  | @write m hf hid =>
    refine (ArtifactStore.writes_write _ _ _ _ _ _).mono fun wd p c hn ↦ ⟨m.id, hid, ?_⟩
    rw [hf.file] at hn
    rcases hn with ⟨rfl, -⟩ | ⟨rfl, -⟩ | ⟨map, -, rfl, -⟩
    · exact .record
    · exact .code hf.names
    · exact .sourceMap hf.names
  | @writeUnder id hash code map hid hn =>
    refine (ArtifactStore.writes_writeCode _ _ _).mono fun wd p c hp ↦ ⟨id, hid, ?_⟩
    rcases hp with ⟨rfl, -⟩ | ⟨map, -, rfl, -⟩
    · exact .code hn
    · exact .sourceMap hn

theorem leaves_of_through (hm : w'.graph.module? id = w.graph.module? id)
    (hr : w'.graph.remoteModule? id = w.graph.remoteModule? id)
    (h : Through (Keeps w.graph.store ids) w.disk w'.disk)
    (hne : ∀ id', ids id' → ∀ place, w.Stores id place → ¬w.Stores id' place) : w.Leaves w' id := by
  refine ⟨hm, hr, fun place hp content ↦ ?_⟩
  have hg := h.grows fun _ ↦ Keeps.writes_stored
  constructor
  · intro hc
    refine (hg.origin place content hc).resolve_right ?_
    rintro ⟨id', hid, hs⟩
    exact hne id' hid place hp hs
  · intro hc
    obtain ⟨content', hc', rfl | ⟨id', hid, hs⟩⟩ := hg.file hc
    · exact hc'
    · exact absurd hs (hne id' hid place hp)

end Files

section Untouched

variable {w : World} {id text : String} {o : Options} {c : Call} {F : Prop} {T : String → Prop}

theorem leaves_of_not_called (hs : Sound F T w) (hne : ∀ c ∈ w.calls text o, c.id ≠ id)
    (hapart : ∀ c ∈ w.calls text o, ∀ place, w.Stores id place → ¬w.Stores c.id place) :
    w.Leaves (w.compile text o).2 id := by
  cases he : w.entryId text with
  | error cause =>
    rw [World.compile, he]
    exact ⟨rfl, rfl, fun _ _ _ ↦ .rfl⟩
  | ok entry =>
    have hyields := (w.entry entry o).yields
    have hproper := proper_entryId he
    have hstart : (Run.start w).Passes w := .start hs
    obtain ⟨hf, hw⟩ := hstart.ahead hyields hproper
    have hsound := (hyields.sound False.elim hstart.sound hproper fun _ _ _ ↦ trivial).1
    have hx : id ∉ (w.entry entry o).result.2.visited := by
      intro hx
      obtain ⟨c, hc, -, hid⟩ := World.exists_call_of_visited he hx
      exact hne c hc hid
    have hapart : ∀ x, x ∈ (w.entry entry o).result.2.visited →
        ∀ place, w.Stores id place → ¬w.Stores x place := by
      intro x hv
      obtain ⟨c, hc, -, rfl⟩ := World.exists_call_of_visited he hv
      exact hapart c hc
    rcases World.compile_eq he o with ⟨stop, -, hcompile⟩ | ⟨m, -, hcompile⟩
    · rw [hcompile]
      exact leaves_of_through (hf.modules id (.inr hx)) (hf.remote id (.inr hx)) hw
        fun x hv ↦ hapart x hv.2
    · have hsame := World.sameGraph_persistAliases (w.entry entry o).result.2.world
        (w.entry entry o).result.2.visited
      have haliases := through_persistAliases hsound (w.entry entry o).result.2.visited
      rw [hf.store] at haliases
      rw [hcompile]
      refine leaves_of_through ?_ ?_ ((hw.mono fun _ ha ↦ ha.mono fun x hv ↦ hv.2).trans
        (haliases.mono fun _ ha ↦ ha.mono fun x hv ↦ hv.1)) hapart
      · rw [module?, hsame.modules]
        exact hf.modules id (.inr hx)
      · rw [remoteModule?, hsame.remote]
        exact hf.remote id (.inr hx)

theorem Call.leaves_of_stopped (hc : c.run.Passes w) (hid : ModuleId.Proper c.id)
    (hv : c.id ∉ c.run.visited) {stop : Stop} {r : Run} (he : c.result = (.error stop, r))
    (hapart : ∀ x ∈ r.visited, x ≠ c.id → ∀ place, w.Stores c.id place → ¬w.Stores x place) :
    w.Leaves r.world c.id := by
  have hy := c.yields
  rw [he] at hy
  have hf := hc.frame.trans hy.frame.1
  -- what is written before and below the module are other modules
  have hwrites : r.world.graph.modules.find? c.id = c.run.world.graph.modules.find? c.id ∧
      r.world.graph.remote.find? c.id = c.run.world.graph.remote.find? c.id ∧
      Through (Keeps w.graph.store fun x ↦ x ∈ r.visited ∧ x ≠ c.id) w.disk r.world.disk := by
    have hbefore : ∀ {r : Run}, (∀ x ∈ c.run.visited, x ∈ r.visited) →
        Through (Keeps w.graph.store fun x ↦ x ∈ r.visited ∧ x ≠ c.id) w.disk c.run.world.disk :=
      fun hmono ↦ hc.writes.mono fun _ ha ↦ ha.mono fun x hx ↦
        ⟨hmono x hx.2, fun hx' ↦ hv (hx' ▸ hx.2)⟩
    have hbelow : ∀ {m : Module} {changed : Bool} {world : World} {t : Task} {out : Outcome}
        {inner : Run}, c.run.world.prepare c.id c.options = (.ok (m, changed), world) →
        Yields ((c.run.entered c.id world).inside m) t out inner → t.Proper →
        inner.world.graph.modules.find? c.id = c.run.world.graph.modules.find? c.id ∧
        inner.world.graph.remote.find? c.id = c.run.world.graph.remote.find? c.id ∧
        Through (Keeps w.graph.store fun x ↦ x ∈ inner.visited ∧ x ≠ c.id) w.disk
          inner.world.disk := by
      intro m changed world t out inner hp hb ht
      have hsame := (World.prepare_eq hp).1
      have hin : c.id ∈ ((c.run.entered c.id world).inside m).visited := List.mem_cons_self
      have hframe := hb.frame.1
      have hlast := hb.writes (hc.inside hid hp).sound ht
      rw [Writes, (hc.inside hid hp).frame.store] at hlast
      change Through _ world.disk _ at hlast
      rw [hsame.disk] at hlast
      refine ⟨?_, ?_, (hbefore fun x hx ↦ hframe.visited x (List.mem_cons_of_mem _ hx)).trans
        (hlast.mono fun _ ha ↦ ha.mono fun x hx ↦ ⟨hx.2, fun hx' ↦ hx.1 (hx' ▸ hin)⟩)⟩
      · rw [hframe.modules c.id (.inl hin), ← hsame.modules]
        rfl
      · rw [hframe.remote c.id (.inl hin), ← hsame.remote]
        rfl
    cases hy with
    | deep => exact ⟨rfl, rfl, hbefore fun _ hx ↦ hx⟩
    | lost _ hv' => exact absurd hv' hv
    | @unprepared _ _ _ _ world _ _ hp =>
      have hsame := (World.prepare_eq hp).1
      change world.graph.modules.find? c.id = _ ∧ world.graph.remote.find? c.id = _ ∧
        Through _ _ world.disk
      rw [hsame.modules, hsame.remote, hsame.disk]
      refine ⟨rfl, rfl, ?_⟩
      exact hbefore fun x hx ↦ List.mem_cons_of_mem _ hx
    | dropped _ _ hp _ hb => exact hbelow hp hb (hc.sound.inside False.elim hid hp).2.2
    | broken _ _ hp _ hb => exact hbelow hp hb (hc.sound.inside False.elim hid hp).2.2
  obtain ⟨hm, hr, hw⟩ := hwrites
  exact leaves_of_through (hm.trans (hc.frame.modules _ (.inr hv)))
    (hr.trans (hc.frame.remote _ (.inr hv))) hw fun x hx ↦ hapart x hx.1 hx.2

theorem Call.not_mem_visited_of_stopped (hc : c.run.Passes w) (hd : c.depth ≠ 0) {stop : Stop}
    {r : Run} (he : c.result = (.error stop, r)) : c.id ∉ c.run.visited := by
  intro hv
  obtain ⟨depth, hdepth⟩ := Nat.exists_eq_succ_of_ne_zero hd
  rw [Call.result, hdepth, Run.visit] at he
  cases hr : c.run.world.graph.remote.find? c.id with
  | some m =>
    rw [hr] at he
    cases (Prod.mk.inj he).1
  | none =>
    obtain ⟨m, hm⟩ := hc.tracked.exists_known hv hr
    rw [hr] at he
    dsimp only at he
    rw [if_pos (List.contains_iff_mem.2 hv), Run.revisit] at he
    dsimp only at he
    rw [hm] at he
    cases (Prod.mk.inj he).1

/-- Of the modules that share no place in the store with others, a call leaves all registered ones
that it does not come to. If it is stopped, it leaves each module whose visit is stopped with it: the
one that is to be compiled, and all that lead from it to the one that fails. -/
theorem leaves_of_history {ws : List World} (h : History (fun _ _ ↦ True) (w :: ws)) (text : String)
    (o : Options) (hapart : ∀ x y, w.Involves text o x → w.Involves text o y → x ≠ y →
      ∀ place, w.Stores x place → ¬w.Stores y place) :
    (∀ x m, w.Has x m → (∀ c ∈ w.calls text o, c.id ≠ x) →
      w.Leaves (w.compile text o).2 x) ∧
    ∀ c ∈ w.calls text o, ∀ stop, c.result.1 = .error stop → c.depth ≠ 0 →
      w.Leaves (w.compile text o).2 c.id := by
  have hs := sound_heldIn h w List.mem_cons_self
  refine ⟨fun x m hm hne ↦ ?_, fun c hc stop hstop hd ↦ ?_⟩
  · exact leaves_of_not_called hs hne fun c hc ↦
      hapart x c.id (.inl ⟨m, hm⟩) (.inr ⟨c, hc, rfl⟩) fun he ↦ hne c hc he.symm
  · cases he : w.entryId text with
    | error cause =>
      rw [World.calls, he] at hc
      cases hc
    | ok id =>
      have hc' := hc
      rw [World.calls_eq_of_entryId he] at hc
      have hresult : c.result = (.error stop, c.result.2) := Prod.ext hstop rfl
      have hentry := Call.result_of_stopped hc hresult
      obtain ⟨hpasses, hid⟩ := Call.passes_of_mem_calls hs he hc
      have hv := Call.not_mem_visited_of_stopped hpasses hd hresult
      rcases World.compile_eq he o with ⟨_, hr, hcompile⟩ | ⟨_, hr, -⟩
      · rw [hcompile, hentry]
        refine Call.leaves_of_stopped hpasses hid hv hresult fun x hx hne ↦ ?_
        have hx : x ∈ (w.entry id o).result.2.visited := by
          rw [hentry]
          exact hx
        obtain ⟨c', hc'', -, hid'⟩ := World.exists_call_of_visited he hx
        exact hapart c.id x (.inr ⟨c, hc', rfl⟩) (.inr ⟨c', hc'', hid'⟩) hne.symm
      · rw [hentry] at hr
        cases hr

end Untouched

section TopLevel

variable {store : ArtifactStore} {wd place : Place} {a b na nb id name : String}

theorem TopLevel.placeOf_path (h : TopLevel id name) {ending : String} (hl : 3 ≤ ending.length)
    (hs : '/' ∉ ending.toList) :
    placeOf wd (store.path (ModuleId.stem id ++ ending)) =
      placeOf wd store.root ++ [name ++ ending] := by
  have hslash : '/' ∉ (name ++ ending).toList := by
    rw [String.toList_append]
    exact fun hm ↦ (List.mem_append.1 hm).elim h.slash hs
  have hpieces : Text.pieces '/' (ModuleId.stem id ++ ending) = ["", name ++ ending] := by
    rw [h.stem, String.append_assoc]
    change Text.pieces '/' ("" ++ String.singleton '/' ++ (name ++ ending)) = _
    rw [Text.pieces_append_sep, Text.pieces_of_not_mem hslash]
    rfl
  rw [ArtifactStore.placeOf_path, hpieces, List.foldl_cons, List.foldl_cons, List.foldl_nil,
    Disk.lexicalStep_of_length (by rw [String.length_append]; omega)]
  rfl

/-- The store keeps a top-level module in its root, at names that start with that of the module. -/
theorem TopLevel.exists_ending (h : TopLevel id name) (hp : Stored store wd id place) :
    ∃ ending, place = placeOf wd store.root ++ [name ++ ending] := by
  have hlocal : ∀ {hash : Option String}, Names id hash → ∃ ending : String, 3 ≤ ending.length ∧
      '/' ∉ ending.toList ∧
        store.codePath (ModuleId.stem id) hash = store.path (ModuleId.stem id ++ ending) := by
    rintro (_ | hash) hn
    · exact absurd hn h.isLocal
    · obtain ⟨-, text, rfl⟩ := hn
      have hlen : (localEnding text).length = 13 := length_localEnding text
      exact ⟨localEnding text, by omega, fun hm ↦ (mem_localEnding hm).1 rfl,
        codePath_local store _ text⟩
  cases hp with
  | record => exact ⟨_, h.placeOf_path (by decide) (by decide)⟩
  | code hn =>
    obtain ⟨ending, hl, hs, he⟩ := hlocal hn
    rw [he]
    exact ⟨_, h.placeOf_path hl hs⟩
  | sourceMap hn =>
    obtain ⟨ending, hl, hs, he⟩ := hlocal hn
    have hmap : store.path (ModuleId.stem id ++ ending) ++ ".map" =
        store.path (ModuleId.stem id ++ (ending ++ ".map")) := by
      rw [← store.path_append (by rintro c ⟨⟩; decide), String.append_assoc]
    rw [he, ArtifactStore.sourceMapPath, hmap]
    refine ⟨_, h.placeOf_path (by rw [String.length_append]; omega) ?_⟩
    rw [String.toList_append]
    exact fun hm ↦ (List.mem_append.1 hm).elim hs (by decide)

theorem TopLevel.not_stored (ha : TopLevel a na) (hb : TopLevel b nb)
    (hl : na.toList.length = nb.toList.length) (hne : na ≠ nb) (h : Stored store wd a place) :
    ¬Stored store wd b place := by
  intro h'
  obtain ⟨x, rfl⟩ := ha.exists_ending h
  obtain ⟨y, hy⟩ := hb.exists_ending h'
  have hnames : na ++ x = nb ++ y := by simpa using hy
  have hlist := congrArg String.toList hnames
  rw [String.toList_append, String.toList_append] at hlist
  exact hne (String.toList_inj.1 (List.append_inj' hlist (by
    have := congrArg List.length hlist
    simp only [List.length_append] at this
    omega)).1)

def danglingWorld : World :=
  ⟨.new ⟨"s", 1000⟩ ⟨"c"⟩ ⟨⟨[]⟩, true, false⟩,
    ⟨[], [(["s"], .directory), (["s", "a.js"], .file "import\"./c.js\"".toUTF8),
      (["c"], .directory)]⟩,
    ⟨[], .error .hostNotFound, []⟩⟩

theorem fresh_danglingWorld : danglingWorld.Fresh :=
  World.fresh_of_entries rfl rfl (by decide)

set_option maxRecDepth 8000 in
theorem calls_danglingWorld :
    (danglingWorld.calls "a.js" .default).map (·.id) = ["/a.js", "/c.js"] ∧
    (danglingWorld.compile "a.js" .default).1.isOk = false := by
  decide +kernel

theorem leaves_danglingWorld : ∃ c ∈ danglingWorld.calls "a.js" .default, c.id = "/a.js" ∧
    (∃ stop, c.result.1 = .error stop) ∧
      danglingWorld.Leaves (danglingWorld.compile "a.js" .default).2 "/a.js" := by
  obtain ⟨hcalls, hfails⟩ := calls_danglingWorld
  have he : danglingWorld.entryId "a.js" = .ok "/a.js" := by decide
  have hids : ∀ x, danglingWorld.Involves "a.js" .default x →
      ∃ name, TopLevel x name ∧ name.toList.length = 1 ∧ x = "/" ++ name ++ ".js" := by
    rintro x (⟨m, hm | hm⟩ | ⟨c, hc, rfl⟩)
    · cases hm
    · cases hm
    · have hmem := List.mem_map_of_mem (f := Call.id) hc
      rw [hcalls] at hmem
      rcases List.mem_cons.1 hmem with hid | hmem
      · rw [hid]
        exact ⟨"a", ⟨by decide, by decide, by decide, by decide, by decide⟩, rfl, by decide⟩
      · rw [List.mem_singleton.1 hmem]
        exact ⟨"c", ⟨by decide, by decide, by decide, by decide, by decide⟩, rfl, by decide⟩
  have hleaves := (leaves_of_history (.start fresh_danglingWorld) "a.js" .default
    fun x y hx hy hne place ↦ by
      obtain ⟨nx, htx, hlx, rfl⟩ := hids x hx
      obtain ⟨ny, hty, hly, rfl⟩ := hids y hy
      exact htx.not_stored hty (hlx.trans hly.symm) fun h ↦ hne (by rw [h])).2
  have hmem : danglingWorld.entry "/a.js" .default ∈ danglingWorld.calls "a.js" .default := by
    rw [World.calls_eq_of_entryId he]
    exact Call.self_mem_calls _
  rcases World.compile_eq he .default with ⟨stop, hr, -⟩ | ⟨m, -, hcompile⟩
  · exact ⟨_, hmem, rfl, ⟨stop, hr⟩, hleaves _ hmem stop hr (Nat.succ_ne_zero _)⟩
  · rw [hcompile] at hfails
    cases hfails

end TopLevel

/-- What registered local modules import from among the local ones is registered. -/
def World.Closed (w : World) : Prop :=
  ∀ a m, w.graph.module? a = some m → ∀ d ∈ m.dependencies, ¬ModuleId.isRemote d.path →
    ∃ target, w.graph.module? d.path = some target

/-- What registered local modules import from among the local ones is registered, or it has been
visited. -/
def Run.Closed (r : Run) : Prop :=
  ∀ a m, r.world.graph.module? a = some m → ∀ d ∈ m.dependencies, ¬ModuleId.isRemote d.path →
    d.path ∈ r.visited ∨ ∃ target, r.world.graph.module? d.path = some target

def Outcome.Visited (r : Run) : Task → Outcome → Prop
  | .visit id _, .found _ => id ∈ r.visited ∨ ModuleId.isRemote id
  | .settle _ ds, .settled _ _ => ∀ d ∈ ds, d.path ∈ r.visited ∨ ModuleId.isRemote d.path
  | _, _ => True

section Closing

variable {w : World} {r r' inner : Run} {id : String} {o : Options} {m m' : Module} {changed : Bool}
  {world : World} {t : Task} {out : Outcome}

theorem Run.Closed.inside (h : r.Closed) (hp : r.world.prepare id o = (.ok (m, changed), world)) :
    ((r.entered id world).inside m).Closed := by
  intro a x hx d hd hl
  have hsame := (World.prepare_eq hp).1
  change world.graph.modules.find? a = some x at hx
  change d.path ∈ id :: r.visited ∨ ∃ target, world.graph.modules.find? d.path = some target
  rw [hsame.modules] at hx ⊢
  exact (h a x hx d hd hl).imp_left (List.mem_cons_of_mem id)

theorem Run.Closed.finished (h : inner.Closed)
    (hd : ∀ d ∈ m.dependencies, d.path ∈ inner.visited ∨ ModuleId.isRemote d.path)
    (stack : List Module) (changed : Bool) : (inner.finished stack m changed).Closed := by
  intro a x hx d hdx hl
  obtain ⟨-, -, -, hmod, -⟩ := inner.world.modules_finish m changed
  change (inner.world.finish m changed).graph.modules.find? a = some x at hx
  change d.path ∈ inner.visited ∨
    ∃ target, (inner.world.finish m changed).graph.modules.find? d.path = some target
  rw [hmod] at hx ⊢
  split
  · next hr =>
    rw [if_pos hr] at hx
    exact h a x hx d hdx hl
  · next hr =>
    rw [if_neg hr, ModuleTable.find?_insert] at hx
    have hkeep : ∀ y, (∃ target, inner.world.graph.modules.find? y = some target) →
        ∃ target, (inner.world.graph.modules.insert m).find? y = some target := by
      rintro y ⟨target, ht⟩
      rw [ModuleTable.find?_insert]
      split
      · exact ⟨m, rfl⟩
      · exact ⟨target, ht⟩
    split at hx
    · obtain rfl := Option.some_inj.1 hx
      exact .inl ((hd d hdx).resolve_right hl)
    · exact (h a x hx d hdx hl).imp_right (hkeep d.path)

theorem Yields.closes (h : Yields r t out r') (hs : r.Sound False fun _ ↦ True) (ht : t.Proper)
    (hw : t.Whole) (hc : r.Closed) : r'.Closed ∧ out.Visited r' t := by
  have hT : Faithful False fun _ ↦ True := False.elim
  have hall : ∀ w : World, w.Each fun _ ↦ True := fun _ _ _ _ ↦ trivial
  induction h with
  | deep => exact ⟨hc, trivial⟩
  | vendored hr => exact ⟨hc, .inr (hs.world.remote _ _ hr).2.2⟩
  | again _ hv _ => exact ⟨hc, .inl hv⟩
  | lost => exact ⟨hc, trivial⟩
  | @unprepared r id o stop world _ _ hp =>
    refine ⟨fun a x hx d hd hl ↦ ?_, trivial⟩
    have hsame := (World.prepare_eq hp).1
    change world.graph.modules.find? a = some x at hx
    change d.path ∈ id :: r.visited ∨ ∃ target, world.graph.modules.find? d.path = some target
    rw [hsame.modules] at hx ⊢
    exact (hc a x hx d hd hl).imp_left (List.mem_cons_of_mem id)
  | @leaf r id o m changed world _ hv hp ha =>
    have hd : m.dependencies = [] := ha.resolve_left (by rw [hw]; exact Bool.false_ne_true)
    exact ⟨(hc.inside hp).finished (by rw [hd]; exact fun _ h ↦ by cases h) r.stack changed,
      .inl List.mem_cons_self⟩
  | dropped _ _ hp _ _ ih =>
    obtain ⟨-, hs', ht'⟩ := hs.inside hT ht hp
    exact ⟨(ih hs' ht' trivial (hc.inside hp)).1, trivial⟩
  | @kept r inner id o m changed world ds _ _ hp _ hb ih =>
    obtain ⟨-, hs', ht'⟩ := hs.inside hT ht hp
    obtain ⟨hin, hd⟩ := ih hs' ht' trivial (hc.inside hp)
    exact ⟨hin.finished hd r.stack changed, .inl (hb.frame.1.visited id List.mem_cons_self)⟩
  | broken _ _ hp _ _ _ ih =>
    obtain ⟨-, hs', ht'⟩ := hs.inside hT ht hp
    exact ⟨(ih hs' ht' trivial (hc.inside hp)).1, trivial⟩
  | @relinked r inner id o m m' changed world ds _ _ hp _ hb hl ih =>
    obtain ⟨-, hs', ht'⟩ := hs.inside hT ht hp
    obtain ⟨hin, hd⟩ := ih hs' ht' trivial (hc.inside hp)
    refine ⟨hin.finished (fun d hd' ↦ ?_) r.stack true,
      .inl (hb.frame.1.visited id List.mem_cons_self)⟩
    rw [relink_dependencies hl] at hd'
    have hmem := List.mem_map_of_mem (f := Dependency.path) hd'
    rw [hb.paths] at hmem
    obtain ⟨d₀, hd₀, he⟩ := List.mem_map.1 hmem
    rw [← he]
    exact hd d₀ hd₀
  | done => exact ⟨hc, fun _ h ↦ by cases h⟩
  | failed _ ih => exact ⟨(ih hs (ht _ List.mem_cons_self).2 rfl hc).1, trivial⟩
  | @cut r r' r'' importer d rest m stop hf ho ih ih' =>
    obtain ⟨hframe, hst⟩ := hf.frame
    have hvisit := (ht d List.mem_cons_self).2
    have hs' := hs.after hframe (hst fun _ h ↦ Outcome.noConfusion h)
      (hf.sound hT hs hvisit (hall _)).1
    exact ⟨(ih' hs' (fun d' hd ↦ ht d' (List.mem_cons_of_mem d hd)) trivial
      (ih hs hvisit rfl hc).1).1, trivial⟩
  | @next r r' r'' importer d rest settled m changed hf ho ih ih' =>
    obtain ⟨hframe, hst⟩ := hf.frame
    have hvisit := (ht d List.mem_cons_self).2
    have hs' := hs.after hframe (hst fun _ h ↦ Outcome.noConfusion h)
      (hf.sound hT hs hvisit (hall _)).1
    obtain ⟨hc', hfirst⟩ := ih hs hvisit rfl hc
    obtain ⟨hc'', hrest⟩ := ih' hs' (fun d' hd ↦ ht d' (List.mem_cons_of_mem d hd)) trivial hc'
    refine ⟨hc'', fun d' hd' ↦ ?_⟩
    rcases List.mem_cons.1 hd' with rfl | hd'
    · exact hfirst.imp_left (ho.frame.1.visited d'.path)
    · exact hrest d' hd'

end Closing

section Failing

variable {w : World} {c c' : Call} {text : String}

/-- How a visit is stopped: by one that it makes, before any other module is visited, or when its
module is linked. -/
theorem Call.stopped_cases {stop : Stop} {r : Run} (he : c.result = (.error stop, r)) :
    (∃ c' ∈ c.made, c'.result = (.error stop, r)) ∨ (∀ x ∈ r.visited, x = c.id ∨ x ∈ c.run.visited) ∨
      (c.run.Tracked → r.Tracked) ∧ ∃ m : Module, m.id = c.id ∧ r.stack = m :: c.run.stack := by
  by_cases hent : c.enters = true
  · obtain ⟨hd, hr, hnew⟩ := enters_iff.1 hent
    obtain ⟨depth, hd⟩ := Nat.exists_eq_succ_of_ne_zero hd
    rcases hp : c.run.world.prepare c.id c.options with ⟨stop' | ⟨m, changed⟩, world⟩
    · rw [result, hd, Run.visit_of_unprepared hr hnew hp] at he
      obtain ⟨-, rfl⟩ := Prod.mk.inj he
      exact .inr (.inl fun x ↦ List.mem_cons.1)
    · cases ha : c.options.alone with
      | true =>
        rw [result, hd, Run.visit, hr] at he
        dsimp only at he
        rw [if_neg fun hc ↦ hnew (List.contains_iff_mem.1 hc), hp] at he
        dsimp only at he
        rw [ha] at he
        cases (Prod.mk.inj he).1
      | false =>
        have hid := (Prepares.of_eq hp).id_eq
        rw [result, hd, Run.visit_of_prepared hr hnew hp ha] at he
        rcases hs : Run.settle (fun r id ↦ Run.visit depth r id .default) m.id
          ((c.run.entered c.id world).inside m) m.dependencies with ⟨stop' | ⟨ds, _ | _⟩, inner⟩
        · rw [hs] at he
          obtain ⟨hstop, rfl⟩ := Prod.mk.inj he
          obtain ⟨c', hc', hr'⟩ := exists_of_settle_error (Except.error.inj hstop ▸ hs)
          refine .inl ⟨c', ?_, hr'⟩
          rw [made_of_prepared hent ha hp, hd]
          exact hc'
        · rw [hs] at he
          cases (Prod.mk.inj he).1
        · have hy := yields_of_settle hs
          rw [hs, concluded] at he
          cases hl : inner.world.graph.relink m ds with
          | ok m' =>
            rw [hl] at he
            cases (Prod.mk.inj he).1
          | error stop' =>
            rw [hl] at he
            obtain ⟨-, rfl⟩ := Prod.mk.inj he
            exact .inr (.inr ⟨fun ht ↦ hy.tracked (ht.inside hp) fun _ h ↦ Outcome.noConfusion h,
              m, hid, hy.frame.2 fun _ h ↦ Outcome.noConfusion h⟩)
  · have hv := visited_result c
    rw [calls_eq, made_eq_nil fun h ↦ absurd h hent, entered, List.filter_cons_of_neg hent, he] at hv
    exact .inr (.inl fun x hx ↦ .inr (by rwa [show r.visited = c.run.visited from hv] at hx))

/-- What has been visited when a visit is stopped is still being visited, or it is registered, or its
visit is stopped as well. -/
theorem Call.exists_of_stopped (ht : c.run.Tracked) {stop : Stop} {r : Run}
    (he : c.result = (.error stop, r)) {x : String} (hx : x ∈ r.visited) :
    (∃ m ∈ c.run.stack, m.id = x) ∨ (∃ m, r.world.Has x m) ∨
      ∃ c' ∈ c.calls, c'.id = x ∧ c'.result.1 = .error stop := by
  revert ht he
  refine induction_made (P := fun c ↦ c.run.Tracked → c.result = (.error stop, r) →
    (∃ m ∈ c.run.stack, m.id = x) ∨ (∃ m, r.world.Has x m) ∨
      ∃ c' ∈ c.calls, c'.id = x ∧ c'.result.1 = .error stop) (fun c ih ht he ↦ ?_) c
  have hself : ∃ c' ∈ c.calls, c'.id = c.id ∧ c'.result.1 = .error stop :=
    ⟨c, self_mem_calls c, rfl, by rw [he]⟩
  rcases stopped_cases he with ⟨c', hc', hr⟩ | hv | ⟨htracked, m, hid, hstack⟩
  · have hmakes := makes_of_mem hc'
    rcases ih c' hc' (hmakes.tracked ht) hr with ⟨y, hy, hyx⟩ | hhas | ⟨c'', hc'', hx'⟩
    · obtain ⟨m, hid, hstack⟩ := hmakes.stack_eq
      rw [hstack] at hy
      rcases List.mem_cons.1 hy with rfl | hy
      · exact .inr (.inr (hyx ▸ hid ▸ hself))
      · exact .inl ⟨y, hy, hyx⟩
    · exact .inr (.inl hhas)
    · exact .inr (.inr ⟨c'', mem_calls_of_mem_made hc' hc'', hx'⟩)
  · rcases hv x hx with rfl | hx
    · exact .inr (.inr hself)
    · have hf := c.yields.frame.1
      rw [he] at hf
      exact (ht x hx).imp_right fun ⟨m, hm⟩ ↦ .inl ⟨m, (hf.has (.inl hx) m).2 hm⟩
  · rcases htracked ht x hx with ⟨y, hy, hyx⟩ | hhas
    · rw [hstack] at hy
      rcases List.mem_cons.1 hy with rfl | hy
      · exact .inr (.inr (hyx ▸ hid ▸ hself))
      · exact .inl ⟨y, hy, hyx⟩
    · exact .inr (.inl hhas)

/-- If a call is stopped, what the registered local modules import from among the local ones is
registered, except for the modules whose visits are stopped with it: a module on a cycle with one of
these can have been registered before. -/
theorem closed_of_stopped {ws : List World} (h : History (fun _ _ ↦ True) (w :: ws))
    (hclosed : w.Closed) {stop : Stop} (hstop : (w.compile text .default).1 = .error stop)
    {a : String} {m : Module} (hm : (w.compile text .default).2.graph.module? a = some m)
    {d : Dependency} (hd : d ∈ m.dependencies) (hlocal : ¬ModuleId.isRemote d.path) :
    (∃ target, (w.compile text .default).2.graph.module? d.path = some target) ∨
      ∃ c ∈ w.calls text .default, c.id = d.path ∧ c.result.1 = .error stop := by
  have hs := sound_heldIn h w List.mem_cons_self
  have hstart : (Run.start w).Passes w := .start hs
  cases he : w.entryId text with
  | error cause =>
    rw [World.compile, he] at hm ⊢
    exact .inl (hclosed a m hm d hd hlocal)
  | ok id =>
    have hproper := proper_entryId he
    rcases World.compile_eq he .default with ⟨stop', hr, hcompile⟩ | ⟨_, -, hcompile⟩
    · rw [hcompile] at hstop hm ⊢
      obtain rfl := Except.error.inj hstop
      have hresult : (w.entry id .default).result = (.error stop', (w.entry id .default).result.2) :=
        Prod.ext hr rfl
      have hy := (w.entry id .default).yields
      have hopen : (Run.start w).Closed := fun a x hx d hd hl ↦ .inr (hclosed a x hx d hd hl)
      have hsound := (hy.sound False.elim hstart.sound hproper fun _ _ _ ↦ trivial).1
      rcases (hy.closes hstart.sound hproper rfl hopen).1 a m hm d hd hlocal with hv | htarget
      · rcases Call.exists_of_stopped (tracked_start w) hresult hv with
          ⟨x, hx, -⟩ | ⟨x, hx | hx⟩ | ⟨c, hc, hid, hr⟩
        · cases hx
        · exact .inl ⟨x, hx⟩
        · exact absurd (hsound.remote _ x hx).2.2 hlocal
        · rw [World.calls_eq_of_entryId he]
          exact .inr ⟨c, hc, hid, hr⟩
      · exact .inl htarget
    · rw [hcompile] at hstop
      cases hstop

end Failing

section Severed

variable {w u u' : World} {m m' : Module} {text a b c code code' : String} {slots slots' : List HashSlot}

/-- What is registered when a call is stopped at the second import: the first one, which imports what
was to be compiled. -/
theorem exists_left_of_drafts (hfresh : w.Fresh) (hentry : w.entryId text = .ok a) (hab : a ≠ b)
    (hac : a ≠ c) (hbc : b ≠ c)
    (hprepare : w.prepare a .default = (.ok (m, true), u))
    (hprepare' : u.prepare b .default = (.ok (m', true), u'))
    (hdraft : draft m = ⟨a, false, code, [⟨b, ""⟩, ⟨c, ""⟩], slots⟩)
    (hdraft' : draft m' = ⟨b, false, code', [⟨a, ""⟩], slots'⟩)
    (hsep : w.Separate c) (hlocal : ModuleId.isRemote c = false) (hs : w.source? c = none) :
    ∃ stop w' m, w.compile text .default = (.error stop, w') ∧ w'.graph.modules.modules = [m] ∧
      m.id = b ∧ m.dependencies.map (·.path) = [a] := by
  obtain ⟨rfl, -, -, hdeps, -⟩ := Draft.mk.inj hdraft
  obtain ⟨rfl, hlocal', -, hdeps', -⟩ := Draft.mk.inj hdraft'
  have hall : ∀ w : World, w.Each fun _ ↦ True := fun _ _ _ _ ↦ trivial
  have hsame := (World.prepare_eq hprepare).1
  have hsame' := (World.prepare_eq hprepare').1
  obtain ⟨-, hsound, hproper⟩ := Run.Sound.inside (F := False) (T := fun _ ↦ True) (r := Run.start w)
    ⟨sound_of_fresh hfresh, fun _ hm ↦ by cases hm⟩
    False.elim (proper_entryId hentry) hprepare
  obtain ⟨depth, hdepth⟩ := w.exists_depthBound
  have hremote : ∀ v : World, v.graph.remote = w.graph.remote → ∀ id, v.graph.remote.find? id = none := by
    intro v hv id
    rw [hv, hfresh.remote]
    rfl
  obtain ⟨m'', r, hvisit, hworld, hvisited, hid, hlocal'', hdeps'', -⟩ :=
    Run.exists_visit_of_cycle
    (r := ((Run.start w).entered m.id u).inside m) (depth + 1) (hsame.remote.trans hfresh.remote)
    (fun hm ↦ hab (List.mem_singleton.1 hm).symm) List.mem_cons_self hprepare' hdeps' rfl
    (show [m', m].find? (·.id = m.id) = some m by
      rw [List.find?_cons_of_neg (by simpa using hab.symm), List.find?_cons_of_pos (by simp)])
    (hash_of_prepare hprepare)
  have hlocal'' : m''.isRemote = false := hlocal''.trans hlocal'
  have hyields := yields_visit (depth + 3) (((Run.start w).entered m.id u).inside m) m'.id .default
  rw [hvisit] at hyields
  have hworked := (World.worked_prepare hprepare).trans
    (hyields.worked hsound (hproper ⟨m'.id, ""⟩ (hdeps ▸ List.mem_cons_self)).2)
  obtain ⟨hmodules, hvendored⟩ := World.modules_finish_local u' true hlocal''
  obtain ⟨stop, world, hprepare''⟩ := World.exists_prepare_error (w := r.world) hlocal
    ((hworked.source? (.inr hsep)).trans hs)
  have hstopped : Run.visit (depth + 3) r c .default = (.error stop, r.entered c world) := by
    refine Run.visit_of_unprepared (hremote _ ?_ c) ?_ hprepare''
    · rw [hworld, hvendored, hsame'.remote, hsame.remote]
    · rw [hvisited]
      exact List.not_mem_cons_of_ne_of_not_mem hbc.symm fun hm ↦ hac (List.mem_singleton.1 hm).symm
  have hsettle : Run.settle (fun r id ↦ Run.visit (depth + 3) r id .default) m.id
      (((Run.start w).entered m.id u).inside m) m.dependencies = (.error stop, r.entered c world) := by
    rw [hdeps, Run.settle_cons hvisit, Run.settle_cons_error hstopped]
    rfl
  refine ⟨stop, world, m'', ?_, ?_, hid, by rw [hdeps'']; rfl⟩
  · rw [World.compile, hentry]
    dsimp only
    rw [hdepth, Run.visit_of_prepared (hremote w rfl m.id) List.not_mem_nil hprepare rfl, hsettle]
    rfl
  · rw [(World.prepare_eq hprepare'').1.modules, hworld, hmodules, hsame'.modules, hsame.modules,
      hfresh.modules]
    rfl

/-- Two modules that import each other, the first of which also imports a file that is not there. -/
def severedWorld : World :=
  ⟨.new ⟨"s", 1000⟩ ⟨"c"⟩ ⟨⟨[]⟩, true, false⟩,
    ⟨[], [(["s"], .directory), (["s", "a.js"], .file "import\"./b.js\";import\"./c.js\"".toUTF8),
      (["s", "b.js"], .file "import\"./a.js\"".toUTF8), (["c"], .directory)]⟩,
    ⟨[], .error .hostNotFound, []⟩⟩

theorem fresh_severedWorld : severedWorld.Fresh :=
  World.fresh_of_entries rfl rfl (by decide)

set_option maxRecDepth 8000 in
theorem prepare_severedWorld : (severedWorld.prepare "/a.js" .default).1.toOption.map
    (fun p ↦ (draft p.1, p.2)) =
      some (⟨"/a.js", false, "import \"./b.000000000.js\";\nimport \"./c.000000000.js\";\n",
        [⟨"/b.js", ""⟩, ⟨"/c.js", ""⟩], [⟨0, 12⟩, ⟨1, 39⟩]⟩, true) := by
  decide +kernel

set_option maxRecDepth 8000 in
theorem prepare_imported_severedWorld :
    ((severedWorld.prepare "/a.js" .default).2.prepare "/b.js" .default).1.toOption.map
      (fun p ↦ (draft p.1, p.2)) =
        some (⟨"/b.js", false, "import \"./a.000000000.js\";\n", [⟨"/a.js", ""⟩], [⟨0, 12⟩]⟩, true) := by
  decide +kernel

theorem separate_severedWorld : severedWorld.Separate "/c.js" := by
  have hroot : severedWorld.storePlace = ["c"] := by decide
  have hl : severedWorld.disk.locate (severedWorld.graph.folder.basePath "/c.js") = .ok ["s", "c.js"] :=
    rfl
  exact separate_of_missing (by decide) hl (fun _ ↦ nofun) (by rw [hroot]; decide)

theorem left_severedWorld : ∃ stop w' m, severedWorld.compile "a.js" .default = (.error stop, w') ∧
    w'.graph.modules.modules = [m] ∧ m.id = "/b.js" ∧ m.dependencies.map (·.path) = ["/a.js"] := by
  have hentry : severedWorld.entryId "a.js" = .ok "/a.js" := by decide
  obtain ⟨m, hprepare, hdraft⟩ := exists_of_draft prepare_severedWorld
  obtain ⟨m', hprepare', hdraft'⟩ := exists_of_draft prepare_imported_severedWorld
  exact exists_left_of_drafts fresh_severedWorld hentry (by decide) (by decide) (by decide) hprepare
    hprepare' hdraft hdraft' separate_severedWorld (by decide) rfl

/-- The module that is registered imports one that is not. -/
theorem closed_severedWorld : ∃ stop w' m d, severedWorld.compile "a.js" .default = (.error stop, w') ∧
    severedWorld.Closed ∧ w'.graph.module? "/b.js" = some m ∧ d ∈ m.dependencies ∧
    d.path = "/a.js" ∧ w'.graph.module? d.path = none ∧
    ∃ c ∈ severedWorld.calls "a.js" .default, c.id = d.path ∧ c.result.1 = .error stop := by
  have hclosed : severedWorld.Closed := fun a m hm ↦ by cases hm
  obtain ⟨stop, w', m, hr, hmods, hid, hdeps⟩ := left_severedWorld
  obtain ⟨d, ds, hds, hd, -⟩ := List.map_eq_cons_iff.1 hdeps
  have hmem : d ∈ m.dependencies := hds ▸ List.mem_cons_self
  have hfind : ∀ x, w'.graph.module? x = if m.id = x then some m else none := by
    intro x
    rw [module?, ModuleTable.find?, hmods, List.find?_cons, List.find?_nil]
    by_cases hx : m.id = x <;> simp [hx]
  have hb : w'.graph.module? "/b.js" = some m := by rw [hfind, if_pos hid]
  have hnone : w'.graph.module? d.path = none := by
    rw [hfind, hid, hd]
    exact if_neg (by decide)
  have hend := closed_of_stopped (.start fresh_severedWorld) hclosed
    (show (severedWorld.compile "a.js" .default).1 = .error stop by rw [hr]) (by rw [hr]; exact hb) hmem
    (by rw [hd]; decide)
  rw [hr] at hend
  refine ⟨stop, w', m, d, hr, hclosed, hb, hmem, hd, hnone, hend.resolve_left ?_⟩
  rintro ⟨target, ht⟩
  rw [hnone] at ht
  cases ht

end Severed
end SiteCompiler.Graph
