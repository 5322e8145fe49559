import SiteCompiler.Proofs.Graph.Provenance
import SiteCompiler.Proofs.Graph.Recovery
import SiteCompiler.Proofs.Graph.WarmStart

namespace SiteCompiler.Graph

open Digest (IsHash)
open ArtifactStore (Flat flat_of_entries mapEnding)
open Disk (EndsIn)

namespace Call

def source? (c : Call) : Option Source :=
  c.run.world.sourceFor? c.id c.options

/-- What compiling that source gives in the state that the visit starts from. -/
def afresh? (c : Call) : Option Module :=
  c.source?.bind fun s ↦
    (c.run.world.graph.transpile c.run.world.disk c.id s c.options none).toOption

/-- The record that a visit takes in place of compiling the source: that of a remote module which is
registered, or one which is current. -/
def reused? (c : Call) : Option Module :=
  match c.run.world.graph.remote.find? c.id with
  | some m => some m
  | none =>
    if c.enters then
      match c.run.world.prepare c.id c.options with
      | (.ok (m, false), _) => some m
      | _ => none
    else none

/-- The source of a module is not looked at: it is remote, and it is registered or not on this
machine. -/
def Trusts (c : Call) : Prop :=
  ModuleId.isRemote c.id = true ∧ ((c.run.world.graph.remoteModule? c.id).isSome = true ∨
    c.options.source? = none ∧ ModuleId.isLoopback c.id = false)

def linkage (c : Call) : Linkage :=
  c.run.world.graph.linkage c.run.world.disk c.id

end Call

variable {O : Options → Prop} {F : Prop} {T : String → Prop} {Q : Module → Prop} {w v u : World}
  {ws : List World} {m m₀ : Module} {o : Options} {c : Call} {s s' : Source} {text : String}

theorem Call.reused?_eq_some (h : c.reused? = some m) :
    c.run.world.graph.remoteModule? c.id = some m ∨
      ∃ world, c.run.world.prepare c.id c.options = (.ok (m, false), world) := by
  rw [reused?] at h
  split at h
  · next m' hm =>
    obtain rfl := Option.some_inj.1 h
    exact .inl hm
  · split at h
    · split at h
      · next m' world hp =>
        obtain rfl := Option.some_inj.1 h
        exact .inr ⟨world, hp⟩
      · cases h
    · cases h

section SourceMaps

variable {r r' : Run} {t : Task} {out : Outcome} {id : String}

def Settings.Fit (s : Settings) (m : Module) : Prop :=
  m.sourceMap.isSome = true → s.sourceMap = true

theorem fit_of_loadPersisted? {g : Graph} {disk : Disk} (h : g.loadPersisted? disk id = some m) :
    g.settings.Fit m := by
  simp only [loadPersisted?, Option.bind_eq_bind, Option.bind_eq_some_iff] at h
  obtain ⟨found, -, _, -, code, -, _, -, h⟩ := h
  obtain rfl := Option.some_inj.1 h
  intro hmap
  by_contra hs
  rw [if_neg hs] at hmap
  cases hmap

theorem Prepares.fit {changed : Bool} (h : Prepares w id o m changed)
    (hw : w.Each w.graph.settings.Fit) : w.graph.settings.Fit m := by
  cases h with
  | compiled _ ht =>
    obtain ⟨c, _, _, hc, -, rfl⟩ := transpile_eq_ok ht
    obtain ⟨sourceMap, hc', hmap⟩ := Compiled.compile_withMap hc w.graph.settings.sourceMap
    have he : c.sourceMap = sourceMap :=
      congrArg Compiled.sourceMap (Except.ok.inj (hc.symm.trans hc'))
    intro hm
    rw [← hmap, ← he]
    exact hm
  | @recorded m _ hp =>
    change w.graph.settings.Fit m
    rcases Option.or_eq_some_iff.1 hp with hp | ⟨-, hp⟩
    · exact hw id m (.inl hp)
    · exact fit_of_loadPersisted? hp

theorem fit_relink {g : Graph} {s : Settings} {m' : Module} {ds : List Dependency}
    (h : g.relink m ds = .ok m') (hm : s.Fit m) : s.Fit m' := by
  obtain ⟨changed, code, -, rfl⟩ := relink_eq_ok h
  cases changed <;> exact hm

structure Run.Fit (s : Settings) (r : Run) : Prop where
  settings : r.world.graph.settings = s
  registered : r.world.Each s.Fit
  stack : ∀ m ∈ r.stack, s.Fit m

namespace Run.Fit

variable {s : Settings} {changed : Bool} {world : World} {inner : Run}

theorem start (w : World) (h : w.Each w.graph.settings.Fit) : (Run.start w).Fit w.graph.settings :=
  ⟨rfl, h, fun _ hm ↦ by cases hm⟩

theorem inside (h : r.Fit s) (hp : r.world.prepare id o = (.ok (m, changed), world)) :
    s.Fit m ∧ ((r.entered id world).inside m).Fit s := by
  have hsame := (World.prepare_eq hp).1
  have hm : s.Fit m := by
    have hm := (Prepares.of_eq hp).fit (h.settings.symm ▸ h.registered)
    rwa [h.settings] at hm
  refine ⟨hm, hsame.settings.trans h.settings, fun id m hm ↦ h.registered id m (hsame.has.1 hm), ?_⟩
  intro m' hm'
  rcases List.mem_cons.1 hm' with rfl | hm'
  · exact hm
  · exact h.stack m' hm'

theorem after (h : r.Fit s) (hf : Frame r r') (hs : r'.stack = r.stack)
    (hr : r'.world.Each s.Fit) : r'.Fit s :=
  ⟨hf.settings.trans h.settings, hr, hs ▸ h.stack⟩

end Run.Fit

theorem World.Each.finish {P : Module → Prop} (h : w.Each P) (hm : P m) (changed : Bool) :
    (w.finish m changed).Each P := by
  intro id m' hm'
  rcases World.eq_or_has_of_has_finish hm' with rfl | hm'
  · exact hm
  · exact h id m' hm'

theorem Yields.fit {st : Settings} (h : Yields r t out r') (hr : r.Fit st) :
    r'.world.Each st.Fit ∧ out.Satisfies st.Fit := by
  induction h with
  | deep => exact ⟨hr.registered, trivial⟩
  | vendored hm => exact ⟨hr.registered, hr.registered _ _ (.inr hm)⟩
  | again _ _ hk =>
    refine ⟨hr.registered, ?_⟩
    rcases Option.or_eq_some_iff.1 hk with hk | ⟨-, hk⟩
    · exact hr.stack _ (List.mem_of_find?_eq_some hk)
    · exact hr.registered _ _ (.inl hk)
  | lost => exact ⟨hr.registered, trivial⟩
  | unprepared _ _ hp =>
    exact ⟨fun id m hm ↦ hr.registered id m ((World.prepare_eq hp).1.has.1 hm), trivial⟩
  | leaf _ _ hp =>
    obtain ⟨hm, hin⟩ := hr.inside hp
    exact ⟨hin.registered.finish hm _, hm⟩
  | dropped _ _ hp _ _ ih => exact ⟨(ih (hr.inside hp).2).1, trivial⟩
  | kept _ _ hp _ _ ih =>
    obtain ⟨hm, hin⟩ := hr.inside hp
    exact ⟨(ih hin).1.finish hm _, hm⟩
  | broken _ _ hp _ _ _ ih => exact ⟨(ih (hr.inside hp).2).1, trivial⟩
  | relinked _ _ hp _ _ hl ih =>
    obtain ⟨hm, hin⟩ := hr.inside hp
    exact ⟨(ih hin).1.finish (fit_relink hl hm) _, fit_relink hl hm⟩
  | done => exact ⟨hr.registered, trivial⟩
  | failed _ ih => exact ⟨(ih hr).1, trivial⟩
  | cut hf _ ih ih' =>
    have hr' := hr.after hf.frame.1 (hf.frame.2 fun _ h ↦ Outcome.noConfusion h) (ih hr).1
    exact ⟨(ih' hr').1, trivial⟩
  | next hf _ ih ih' =>
    have hr' := hr.after hf.frame.1 (hf.frame.2 fun _ h ↦ Outcome.noConfusion h) (ih hr).1
    exact ⟨(ih' hr').1, trivial⟩

theorem Call.Makes.fit {c' : Call} {st : Settings} (h : c.Makes c') (hr : c.run.Fit st) :
    c'.run.Fit st := by
  cases h with
  | mk _ _ _ prepared _ _ earlier =>
    have hy := Call.yields_of_settle earlier
    have hin := (hr.inside prepared).2
    exact hin.after hy.frame.1 (hy.frame.2 fun _ h ↦ Outcome.noConfusion h) (hy.fit hin).1

theorem fit_compile (h : w.Each w.graph.settings.Fit) (text : String) (o : Options) :
    (w.compile text o).2.Each (w.compile text o).2.graph.settings.Fit := by
  have hstart := Run.Fit.start w h
  rcases compile_cases w text o with ⟨cause, -, hc⟩ | ⟨id, r, -, ⟨stop, hy, hc⟩ | ⟨m, hy, hc⟩⟩
  · rwa [hc]
  · rw [hc, hy.frame.1.settings]
    exact (hy.fit hstart).1
  · have hsame := World.sameGraph_persistAliases r.world r.visited
    rw [hc, hsame.settings, hy.frame.1.settings]
    exact fun id m hm ↦ (hy.fit hstart).1 id m (hsame.has.1 hm)

/-- In the course of a history a module has a source map only where the settings ask for it. -/
theorem fit_of_history {allowed : World → Event → Prop} (h : History allowed ws) :
    ∀ w ∈ ws, w.Each w.graph.settings.Fit := by
  induction h with
  | @start w hf =>
    intro v hv id m hm
    rw [List.mem_singleton.1 hv, World.Has, module?, remoteModule?, hf.modules, hf.remote] at hm
    rcases hm with hm | hm <;> cases hm
  | @step w ws e hb _ _ ih =>
    intro v hv
    rcases List.mem_cons.1 hv with rfl | hv
    · have hw := ih w List.mem_cons_self
      cases e with
      | compile text o => exact fit_compile hw text o
      | remove id =>
        refine fun id' m hm ↦ hw id' m (hm.imp_left fun hm ↦ ?_)
        change (w.graph.modules.erase id).find? id' = some m at hm
        rw [ModuleTable.find?_erase] at hm
        split at hm
        · cases hm
        · exact hm
      | edit disk network => exact hw
      | restart folder settings =>
        intro id m hm
        rcases hm with hm | hm <;> cases hm
    · exact ih v hv

theorem Call.fit_of_reused {st : Settings} (h : c.run.Fit st) (hm : c.reused? = some m) : st.Fit m := by
  rcases Call.reused?_eq_some hm with hm | ⟨world, hp⟩
  · exact h.registered _ _ (.inr hm)
  · exact (h.inside hp).1

theorem Call.fit_of_mem_calls (h : w.Each w.graph.settings.Fit) (hc : c ∈ w.calls text o) :
    c.run.Fit w.graph.settings := by
  cases hid : w.entryId text with
  | error cause =>
    rw [World.calls, hid] at hc
    cases hc
  | ok id =>
    rw [World.calls_eq_of_entryId hid] at hc
    exact Call.forall_calls (P := fun c ↦ c.run.Fit w.graph.settings) (fun _ _ h hm ↦ hm.fit h)
      (.start w h) c hc

end SourceMaps

namespace Call.Recorded

theorem reused (h : c.Recorded O F T Q v) (hT : Faithful F T) (hQ : Standard O F v Q)
    (hm : c.reused? = some m) : Q m ∧ m.id = c.id := by
  rcases Call.reused?_eq_some hm with hm | ⟨world, hp⟩
  · exact ⟨h.run.world.registered _ _ (.inr hm), World.Has.id_eq (.inr hm)⟩
  · exact ⟨(h.run.inside hT hQ h.proper h.within hp).1, (Prepares.of_eq hp).id_eq⟩

/-- A record is taken for a source that has its hash, unless the source is not looked at. -/
theorem source_of_reused (h : c.Recorded O F T Q v) (hm : c.reused? = some m) :
    c.Trusts ∨ ∃ s, c.source? = some s ∧ m.sourceHash = s.hash := by
  rcases Call.reused?_eq_some hm with hm | ⟨world, hp⟩
  · exact .inl ⟨(h.run.sound.world.remote _ _ hm).2.2, .inl (Option.isSome_of_eq_some hm)⟩
  · have hp := Prepares.of_eq hp
    generalize hchanged : false = changed at hp
    cases hp with
    | compiled => cases hchanged
    | @recorded m obtained previous =>
      rcases recorded_or_of_obtain obtained with ⟨ho, hr, hl⟩ | ⟨s, hs, he⟩
      · exact .inl ⟨hr, .inr ⟨ho, hl⟩⟩
      · rw [previous] at he
        exact .inr ⟨s, hs, Option.some_inj.1 he⟩

end Call.Recorded

/-- A source that was compiled before is compiled to the same again, apart from hashes, if it is read in
the same dialect and its specifiers lead to the same targets. -/
theorem Transpiled.exists_afresh? (h : Transpiled O ws u o s m₀) (hs : Sound F T c.run.world)
    (hs' : c.source? = some s') (ht : s'.text = s.text)
    (hd : c.options.dialect?.getD s'.dialect = m₀.dialect)
    (hl : (u.graph.linkage u.disk m₀.id).Agrees c.linkage m₀.dialect s.text) :
    ∃ m, c.afresh? = some m ∧ m.outline = m₀.outline ∧
      m.sourceMap.isSome = c.run.world.graph.settings.sourceMap := by
  obtain ⟨previous, hm₀⟩ := h.compiled
  obtain ⟨d, hc, hder⟩ := derives_of_transpile (F := False) hm₀
  have hm₀ := outline_of_transpile hm₀ hc
  have hdialect : o.dialect?.getD s.dialect = m₀.dialect := hder.dialect.symm
  rw [hdialect] at hc hm₀
  rw [← Compiled.compile_eq_of_agrees hl, ← ht, ← hd] at hc
  obtain ⟨sourceMap, hc, hmap⟩ :=
    Compiled.compile_withMap hc c.run.world.graph.settings.sourceMap
  have hh : ∀ path, IsHash (c.run.world.graph.knownHash none path) := fun path ↦
    isHash_knownHash hs (fun _ hm ↦ by cases hm) path
  obtain ⟨m, hm⟩ := exists_transpile hc hh
  refine ⟨m, ?_, ?_, ?_⟩
  · rw [Call.afresh?, hs', Option.bind_some, hm]
    rfl
  · rw [outline_of_transpile hm hc, hm₀, hd]
    rfl
  · obtain ⟨c', _, _, hc', -, rfl⟩ := transpile_eq_ok hm
    obtain rfl := Except.ok.inj (hc.symm.trans hc')
    exact hmap

section Histories

/-- A record that a visit takes in place of compiling the source is that of a module which was compiled
in the course of the history, from a source with the recorded hash. It is what compiling that source now
gives, unless its dialect or a target of its specifiers is another one by now or a source map is
lacking. -/
theorem reuse_of_history (h : History (fun _ e ↦ e.Within O) (w :: ws)) (hO : O .default) (ho : O o)
    (hn : NoCollision ((w.compile text o).2 :: w :: ws)) (hc : c ∈ w.calls text o)
    (hm : c.reused? = some m) :
    (∃ u o' s m₀, Transpiled O (w :: ws) u o' s m₀ ∧ m₀.id = c.id ∧ m.sourceHash = s.hash ∧
      m.outline = m₀.outline ∧ ∀ s', c.source? = some s' → s'.text = s.text →
        c.options.dialect?.getD s'.dialect = m.dialect →
        (u.graph.linkage u.disk c.id).Agrees c.linkage m.dialect s.text →
          ∃ m', c.afresh? = some m' ∧ m'.outline = m.outline ∧
            (m.sourceMap.isSome = true → m'.sourceMap.isSome = true)) ∧
    (c.Trusts ∨ ∃ s, c.source? = some s ∧ m.sourceHash = s.hash) := by
  have hT := faithful_heldIn ((w.compile text o).2 :: w :: ws)
  have hs := sound_heldIn (h.step (w.admits_compile text o) ho)
  have hQ : ∀ v ∈ w :: ws, Standard O (NoCollision ((w.compile text o).2 :: w :: ws)) v
      (Stems O (NoCollision ((w.compile text o).2 :: w :: ws)) (w :: ws)) := fun v hv ↦
    standard_stems hO hv
  have hr := recorded_of_history h (fun _ _ he ↦ he) hT
    (fun v hv ↦ each_heldIn (List.mem_cons_of_mem _ hv)) hQ w List.mem_cons_self
  have hfit := Call.fit_of_mem_calls (fit_of_history h w List.mem_cons_self) hc
  have hc := Call.recorded_of_mem_calls hT (hQ w List.mem_cons_self)
    (hs w (List.mem_cons_of_mem _ List.mem_cons_self)) hr ho (each_heldIn List.mem_cons_self) hc
  refine ⟨?_, hc.source_of_reused hm⟩
  obtain ⟨⟨u, o', s, m₀, ht, hstems⟩, hid⟩ := hc.reused hT (hQ w List.mem_cons_self) hm
  obtain ⟨previous, htranspile⟩ := ht.compiled
  obtain ⟨d, -, hder⟩ := derives_of_transpile (F := False) htranspile
  have hout := hstems.outline hn
  have hid₀ : m₀.id = c.id := hstems.id_eq.symm.trans hid
  have hdialect : m₀.dialect = m.dialect := congrArg Outline.dialect hout.symm
  refine ⟨u, o', s, m₀, ht, hid₀, hstems.sourceHash.trans hder.sourceHash, hout,
    fun s' hs' htext hd hl ↦ ?_⟩
  rw [← hid₀, ← hdialect] at hl
  obtain ⟨m', hm', hout', hmap⟩ :=
    ht.exists_afresh? hc.run.sound.world hs' htext (hd.trans hdialect.symm) hl
  refine ⟨m', hm', hout'.trans hout.symm, fun hsome ↦ hmap.trans ?_⟩
  rw [hfit.settings]
  exact Call.fit_of_reused hfit hm hsome

theorem Call.reused?_of_prepare {world : World} (he : c.enters = true)
    (hp : c.run.world.prepare c.id c.options = (.ok (m, false), world)) : c.reused? = some m := by
  obtain ⟨-, hr, -⟩ := Call.enters_iff.1 he
  rw [Call.reused?, hr]
  dsimp only
  rw [if_pos he, hp]

/-- A module whose recorded source has not changed is not compiled, whatever the options say of its
dialect. -/
theorem Call.reused?_of_source? (he : c.enters = true)
    (hm : c.run.world.previous? c.id = some m) (hs : c.run.world.source? c.id = some s)
    (ho : c.options.source? = none) (hh : m.sourceHash = s.hash) :
    c.reused? = some { m with isRemote := ModuleId.isRemote c.id } := by
  obtain ⟨world, hprepare⟩ := World.prepare_of_source? hm ho hs hh
  exact Call.reused?_of_prepare he hprepare

theorem World.enters_entry {id : String} (hr : w.graph.remote.find? id = none) : (w.entry id o).enters = true :=
  Call.enters_iff.2 ⟨Nat.succ_ne_zero _, hr, List.not_mem_nil⟩

theorem reuse_pairWorld : ∃ w c m, w = (pairWorld.compile "a.js" .default).2 ∧
    c ∈ w.calls "a.js" .default ∧ c.reused? = some m ∧
    ∃ u o s m₀, Transpiled (· = .default) [w, pairWorld] u o s m₀ ∧ m₀.id = c.id ∧
      m.outline = m₀.outline := by
  have hh : History (fun _ e ↦ e.Within (· = .default))
      [pairWorld.react (.compile "a.js" .default), pairWorld] :=
    .step (.start fresh_pairWorld) (pairWorld.admits_compile "a.js" .default) rfl
  have hsettled := settled_pairWorld
  have hsound := sound_pairWorld
  rw [World.react_compile] at hh
  obtain ⟨m₁, w, hcompile, -, hpair⟩ := exists_compile_pairWorld
  rw [hcompile] at hh hsettled hsound
  have hentry := entryId_a w
  obtain ⟨_, r, -, -, -, hkeeps, hwarm⟩ := hsettled.compile hsound hentry (.inl rfl)
  have hn : NoCollision [(w.compile "a.js" .default).2, w, pairWorld] := by
    refine (noCollision_pairWorld hpair).cons fun x m hm ↦ (hkeeps x m).1 ?_
    rw [hwarm] at hm
    exact (World.sameGraph_persistAliases _ _).has.1 hm
  have hc : w.entry "/a.js" .default ∈ w.calls "a.js" .default := by
    rw [World.calls_eq_of_entryId hentry]
    exact Call.self_mem_calls _
  have hremote : w.graph.remote.find? "/a.js" = none := by
    refine Option.eq_none_iff_forall_ne_some.2 fun m hm ↦ ?_
    exact absurd (hsound.remote _ m hm).2.2 (by decide)
  obtain ⟨m, hm, ⟨s, hs, hhash⟩, -⟩ := (hsettled "/a.js" (.inl rfl)).resolve_left fun ⟨m, hm⟩ ↦ by
    rw [hremote] at hm
    cases hm
  have hreused :=
    Call.reused?_of_source? (World.enters_entry (o := .default) hremote)
      (show w.previous? "/a.js" = some m by rw [World.previous?, hm]; rfl) hs rfl hhash
  obtain ⟨⟨u, o, s', m₀, ht, hid, -, hout, -⟩, -⟩ := reuse_of_history hh rfl rfl hn hc hreused
  exact ⟨w, _, _, by rw [hcompile], hc, hreused, u, o, s', m₀, ht, hid, hout⟩

section Leaves

variable {world : World} {text id : String} {changed : Bool}

theorem compile_of_leaf (hf : w.Fresh) (hid : w.entryId text = .ok id)
    (hp : w.prepare id .default = (.ok (m, changed), world)) (hd : m.dependencies = [])
    (hm : m.isRemote = false) : w.compile text .default = (.ok m, world.finish m changed) := by
  have hr : (Run.start w).world.graph.remote.find? id = none := by
    change w.graph.remote.find? id = none
    rw [hf.remote]
    rfl
  have hvisit : Run.visit w.depthBound (Run.start w) id .default =
      (.ok m, ((Run.start w).entered id world).finished [] m changed) := by
    rw [World.depthBound, Run.visit_of_prepared hr List.not_mem_nil hp rfl, hd]
    rfl
  have haliases : (world.finish m changed).graph.aliases = [] := by
    refine List.eq_nil_iff_forall_not_mem.2 fun a ha ↦ ?_
    obtain ⟨m', hm', d, hd', -⟩ := exists_of_mem_aliases ha
    rw [(World.modules_finish world m changed).2.2.2.1, hm, if_neg Bool.false_ne_true,
      (World.prepare_eq hp).1.modules, hf.modules] at hm'
    rw [List.mem_singleton.1 hm', hd] at hd'
    cases hd'
  rw [World.compile, hid]
  dsimp only
  rw [hvisit]
  change (Except.ok m, World.persistAliases (world.finish m changed) _) = _
  rw [World.persistAliases, haliases]
  rfl

theorem sourceMap_of_loadPersisted? {g : Graph} {d : Disk} (h : g.loadPersisted? d id = some m) :
    m.sourceMap = none ∨
      ∃ text, ArtifactStore.readText? d (ArtifactStore.sourceMapPath m.file) = some text := by
  simp only [loadPersisted?, Option.bind_eq_bind, Option.bind_eq_some_iff] at h
  obtain ⟨found, -, _, -, code, -, _, -, h⟩ := h
  obtain rfl := Option.some_inj.1 h
  dsimp only
  split
  · exact Option.eq_none_or_eq_some _
  · exact .inl rfl

theorem readText?_sourceMap_of_written {s : ArtifactStore} {d : Disk} (stem record code : String)
    (hash : Option String) (hd : ∀ p c, d.entry? p = some (.file c) → ¬EndsIn p mapEnding)
    (path : String) :
    ArtifactStore.readText? (d.perform (s.write stem record (s.codePath stem hash) code none)).2
      (ArtifactStore.sourceMapPath path) = none := by
  refine Option.eq_none_iff_forall_ne_some.2 fun text ht ↦ ?_
  obtain ⟨p, hl, hentry⟩ := Disk.readBytes_eq_ok (ArtifactStore.readText?_eq_some ht)
  have hend : EndsIn p mapEnding := by
    rw [Disk.locate_eq_ok hl]
    exact ArtifactStore.endsIn_sourceMapPath _ path
  have hg := ArtifactStore.writes_write s stem record (s.codePath stem hash) code none d
  rcases hg.origin p _ hentry with hold | ⟨rfl, -⟩ | ⟨rfl, -⟩ | ⟨map, hmap, -⟩
  · exact hd p _ hold hend
  · exact ArtifactStore.not_endsIn_of_ne (s.endsIn_recordPath _ stem) (by decide) hend
  · exact ArtifactStore.not_endsIn_of_ne (s.endsIn_codePath _ stem hash) (by decide) hend
  · cases hmap

end Leaves

def soloWorld : World :=
  ⟨.new ⟨"s", 1000⟩ ⟨"c"⟩ ⟨⟨[("x", "/a.css")]⟩, true, false⟩,
    ⟨[], [(["s"], .directory), (["s", "a.js"], .file "import\"x\"".toUTF8), (["c"], .directory)]⟩,
    ⟨[], .error .hostNotFound, []⟩⟩

theorem fresh_soloWorld : soloWorld.Fresh :=
  World.fresh_of_entries rfl rfl (by decide)

/-- What a record has that depends on more than the source. -/
def traits (m : Module) : Dialect × List String × Bool :=
  (m.dialect, m.dependencies.map (·.path), m.sourceMap.isSome)

theorem prepare_soloWorld : (soloWorld.prepare "/a.js" .default).1.toOption.map
    (fun p ↦ (traits p.1, p.1.slots, p.2)) = some ((.js, [], false), [], true) := by
  decide +kernel

theorem not_endsIn_soloWorld {p : Disk.Place} {c : ByteArray}
    (h : soloWorld.disk.entry? p = some (.file c)) : ¬EndsIn p mapEnding := by
  have hmem := Disk.mem_entries_of_file h
  have hplace : p = ["s", "a.js"] := by
    simp only [soloWorld, List.mem_cons, List.not_mem_nil, or_false, Prod.mk.injEq, reduceCtorEq,
      and_false, false_or] at hmem
    exact hmem.1
  rw [hplace]
  exact ArtifactStore.not_endsIn_of_ne ⟨["s"], "a", rfl⟩
    (show ArtifactStore.codeEnding ≠ "" ∧ mapEnding ≠ "" ∧ _ by decide)

theorem flat_soloWorld : Flat "c" soloWorld.disk :=
  flat_of_entries rfl rfl (by decide)

theorem compile_soloWorld : ∃ m s, soloWorld.source? "/a.js" = some s ∧ m.sourceHash = s.hash ∧
    traits m = (.js, [], false) ∧ ∀ g : Graph, g.store = ⟨"c"⟩ →
      g.loadPersisted? (soloWorld.compile "a.js" .default).2.disk "/a.js" = some m := by
  have hprepare := prepare_soloWorld
  rcases hp : soloWorld.prepare "/a.js" .default with ⟨stop | ⟨m, changed⟩, world⟩
  · rw [hp] at hprepare
    cases hprepare
  rw [hp] at hprepare
  obtain ⟨htraits, h⟩ := Prod.mk.inj (Option.some_inj.1 hprepare)
  obtain ⟨hslots, rfl⟩ := Prod.mk.inj h
  have hdeps : m.dependencies = [] := List.map_eq_nil_iff.1 (Prod.mk.inj (Prod.mk.inj htraits).2).1
  have hsame := (World.prepare_eq hp).1
  have hprep := Prepares.of_eq hp
  have hid := entryId_a soloWorld
  obtain ⟨s, hs, ht⟩ : ∃ s, soloWorld.source? "/a.js" = some s ∧
      soloWorld.graph.transpile soloWorld.disk "/a.js" s .default (soloWorld.previous? "/a.js") =
        .ok m := by
    cases hprep with
    | @compiled s _ hs ht => exact ⟨s, source?_of_obtain rfl hs, ht⟩
  have hsound := sound_of_fresh (F := False) (T := fun _ ↦ True) fresh_soloWorld
  have hknown := hsound.prepares False.elim (proper_entryId hid) hprep
  obtain ⟨c, -, hderives⟩ := derives_of_transpile (F := False) ht
  have hm : m.id = "/a.js" := hprep.id_eq
  have hlocal : m.isRemote = false := hprep.isRemote_eq
  have hkeeps : Keeps ⟨"c"⟩ (· = "/a.js")
      (ArtifactStore.write ⟨"c"⟩ m.stem m.record.text m.file m.code m.sourceMap) :=
    .write hknown.toFiled hm
  have htop : ∀ x, x = "/a.js" → ∃ name, TopLevel x name := by
    rintro x rfl
    exact ⟨"a", by decide, by decide, by decide, by decide, by decide⟩
  have hwritten := (flat_of_keeps ⟨by decide, by decide, by decide, by decide⟩ htop flat_soloWorld
    hkeeps).1
  refine ⟨m, s, hs, hderives.sourceHash, htraits, fun g hg ↦ ?_⟩
  rw [compile_of_leaf fresh_soloWorld hid hp hdeps hlocal, World.disk_finish, if_pos rfl, World.persist,
    World.disk_persistBy, hsame.disk, hsame.store]
  have hload := loadPersisted?_of_written (g := g) (d := soloWorld.disk) hknown.hash (hg ▸ hknown.file)
    (by rw [hslots]; rfl) (hg ▸ hwritten)
  rw [hg] at hload
  rw [show soloWorld.graph.store = ⟨"c"⟩ from rfl, ← hm]
  obtain ⟨map, hload⟩ := hload
  have hnone : m.sourceMap = none := by
    rw [← Option.isNone_iff_eq_none, ← Option.not_isSome, (Prod.mk.inj (Prod.mk.inj htraits).2).2]
    rfl
  have hmap : map = none := by
    refine (sourceMap_of_loadPersisted? hload).resolve_right fun hsome ↦ ?_
    obtain ⟨text, ht⟩ := hsome
    have hfile : m.file = ArtifactStore.codePath ⟨"c"⟩ m.stem m.nameHash := hknown.file
    rw [hfile, hnone] at ht
    rw [readText?_sourceMap_of_written _ _ _ _ fun _ _ ↦ not_endsIn_soloWorld] at ht
    cases ht
  rw [hload, hmap, ← hnone]
/-- A new graph over the store where `soloWorld` was compiled: its import map is another one, and it
makes source maps. -/
@[irreducible]
def soloAgain : World :=
  (soloWorld.react (.compile "a.js" .default)).react
    (.restart ⟨"s", 1000⟩ ⟨⟨[("x", "/b.js")]⟩, true, true⟩)

def soloLinkage : Linkage :=
  ⟨"/a.js", ⟨[("x", "/b.js")]⟩, true, fun _ ↦ none⟩

theorem compile_soloLinkage :
    (Compiled.compile soloLinkage .ts "import\"x\"" true).toOption.map
      (fun c ↦ (c.dependencies, c.sourceMap.isSome)) = some (["/b.js"], true) := by
  decide +kernel

theorem explicit_soloLinkage : soloLinkage.Explicit .ts "import\"x\"" := by
  have hall : (Script.template? .ts "import\"x\"").all (fun template ↦ template.all fun
      | .specifier value => decide (value.toText = "x")
      | _ => true) := by decide +kernel
  intro template ht value hv locate?
  rw [ht] at hall
  have hvalue : value.toText = "x" := of_decide_eq_true (List.all_eq_true.1 hall _ hv)
  have hlocal : (soloLinkage.among locate?).localTarget "x" (ModuleId.normalizeLocal "/b.js") =
      soloLinkage.localTarget "x" (ModuleId.normalizeLocal "/b.js") :=
    Linkage.localTarget_among_iff.2 (.inr (by decide)) locate?
  have hmapped : soloLinkage.importMap.resolve? "x" = some "/b.js" := by decide
  have hmapped' : (soloLinkage.among locate?).importMap.resolve? "x" = some "/b.js" := hmapped
  have hremote : ModuleId.isRemote "/b.js" = false := by decide
  have himporter : ModuleId.isRemote soloLinkage.importer = false := by decide
  have himporter' : ModuleId.isRemote (soloLinkage.among locate?).importer = false := himporter
  have hroot : Text.startsWith "/b.js" "/" = true := by decide
  simp only [hvalue, Linkage.target, hmapped, hmapped', hremote, himporter, himporter', hroot, hlocal,
    Option.getD_some, Option.isSome_some, Bool.true_or, Bool.and_true, Bool.false_eq_true, if_false,
    if_true]

theorem previous?_restart (w : World) (folder : Source.Folder) (settings : Settings) (id : String) :
    (w.react (.restart folder settings)).previous? id =
      (Graph.new folder w.graph.store settings).loadPersisted? w.disk id :=
  rfl

theorem previous?_soloAgain {w : World} (hw : soloWorld.react (.compile "a.js" .default) = w)
    (hstore : w.graph.store = ⟨"c"⟩)
    (hload : ∀ g : Graph, g.store = ⟨"c"⟩ → g.loadPersisted? w.disk "/a.js" = some m) :
    soloAgain.previous? "/a.js" = some m := by
  rw [soloAgain, hw, previous?_restart]
  exact hload _ hstore

theorem source?_restart {w : World} {folder : Source.Folder} (h : w.graph.folder = folder)
    (settings : Settings) {id : String} :
    (w.react (.restart folder settings)).source? id = w.source? id := by
  rw [World.source?, World.source?, h]
  rfl

theorem source?_soloAgain : soloAgain.source? "/a.js" = soloWorld.source? "/a.js" := by
  have hl : soloWorld.disk.locate (soloWorld.graph.folder.basePath "/a.js") = .ok ["s", "a.js"] := rfl
  have hroot : soloWorld.storePlace = ["c"] := by decide
  have hsep : soloWorld.Separate "/a.js" := separate_of_file (by decide) hl rfl (by rw [hroot]; decide)
  have hworked := World.worked_compile (sound_of_fresh (F := False) (T := fun _ ↦ True)
    fresh_soloWorld) "a.js" .default
  rw [← hworked.source? (.inr hsep), soloAgain, World.react_compile]
  exact source?_restart hworked.folder _

theorem afresh_soloAgain : ∃ m, (soloAgain.entry "/a.js" ⟨none, some .ts, false⟩).afresh? = some m ∧
    traits m = (.ts, ["/b.js"], true) := by
  obtain ⟨_, s, hs, -⟩ := compile_soloWorld
  have htext : s.text = "import\"x\"" := by
    have htext : (soloWorld.source? "/a.js").map (·.text) = some "import\"x\"" := by decide +kernel
    rw [hs] at htext
    exact Option.some_inj.1 htext
  have hsettings : soloAgain.graph.settings = ⟨⟨[("x", "/b.js")]⟩, true, true⟩ := by
    rw [soloAgain]
    rfl
  have hknown : ∀ path, soloAgain.graph.knownHash none path = "" := by
    rw [soloAgain]
    exact fun _ ↦ rfl
  obtain ⟨c, hc, hcompiled⟩ := Option.map_eq_some_iff.1 compile_soloLinkage
  obtain ⟨hdeps, hmap⟩ := Prod.mk.inj hcompiled
  have hcompile : Compiled.compile (soloAgain.graph.linkage soloAgain.disk "/a.js") .ts s.text
      soloAgain.graph.settings.sourceMap = .ok c := by
    have hlinkage : soloAgain.graph.linkage soloAgain.disk "/a.js" =
        soloLinkage.among (soloAgain.graph.folder.canonicalId? soloAgain.disk) := by
      rw [linkage, hsettings]
      rfl
    rw [htext, hlinkage, hsettings, Compiled.compile_among explicit_soloLinkage]
    cases hx : Compiled.compile soloLinkage .ts "import\"x\"" true with
    | error cause => rw [hx] at hc; cases hc
    | ok c' => rw [hx] at hc; rw [Option.some_inj.1 hc]
  obtain ⟨m, hm⟩ : ∃ m, soloAgain.graph.transpile soloAgain.disk "/a.js" s ⟨none, some .ts, false⟩
      none = .ok m :=
    exists_transpile hcompile fun path ↦ .inl (hknown path)
  refine ⟨m, ?_, ?_⟩
  · have hsource : (soloAgain.entry "/a.js" ⟨none, some .ts, false⟩).source? = some s :=
      source?_soloAgain.trans hs
    rw [Call.afresh?, hsource, Option.bind_some]
    change (soloAgain.graph.transpile soloAgain.disk "/a.js" s ⟨none, some .ts, false⟩ none).toOption = _
    rw [hm]
    rfl
  · obtain ⟨c', _, _, hc', -, rfl⟩ := transpile_eq_ok hm
    obtain rfl := Except.ok.inj (hcompile.symm.trans hc')
    have hpaths : (c.dependencies.map fun path ↦
        Dependency.mk path (soloAgain.graph.knownHash none path)).map (·.path) = c.dependencies := by
      rw [List.map_map]
      exact List.map_id _
    change (Dialect.ts, (c.dependencies.map fun path ↦
      Dependency.mk path (soloAgain.graph.knownHash none path)).map (·.path), c.sourceMap.isSome) = _
    rw [hpaths, hdeps, hmap]

/-- A record is taken whatever dialect is asked for, even if a specifier leads elsewhere by now and
source maps are asked for. -/
theorem exists_outdated_reused : ∃ ws w o c m m', History (fun _ _ ↦ True) (w :: ws) ∧
    c ∈ w.calls "a.js" o ∧ c.reused? = some m ∧ c.afresh? = some m' ∧
    traits m = (.js, [], false) ∧ traits m' = (.ts, ["/b.js"], true) := by
  have hh : History (fun _ _ ↦ True)
      [soloAgain, soloWorld.react (.compile "a.js" .default), soloWorld] := by
    rw [soloAgain]
    exact .step (.step (.start fresh_soloWorld) (soloWorld.admits_compile "a.js" .default) trivial)
      trivial trivial
  have hremote : soloAgain.graph.remote.find? "/a.js" = none := by
    rw [soloAgain]
    rfl
  have hentry := entryId_a soloAgain
  obtain ⟨m', hm', htraits'⟩ := afresh_soloAgain
  obtain ⟨m, s, hs, hhash, htraits, hload⟩ := compile_soloWorld
  have hworked := World.worked_compile (sound_of_fresh (F := False) (T := fun _ ↦ True)
    fresh_soloWorld) "a.js" .default
  have hprevious := previous?_soloAgain (World.react_compile _ _ _) hworked.store hload
  have hsource : soloAgain.source? "/a.js" = some s := source?_soloAgain.trans hs
  have hreused := Call.reused?_of_source? (World.enters_entry (o := ⟨none, some .ts, false⟩) hremote)
    hprevious hsource rfl hhash
  refine ⟨_, soloAgain, ⟨none, some .ts, false⟩, soloAgain.entry "/a.js" ⟨none, some .ts, false⟩, _,
    m', hh, ?_, hreused, hm', htraits, htraits'⟩
  rw [World.calls_eq_of_entryId hentry]
  exact Call.self_mem_calls _

end Histories

end SiteCompiler.Graph
