import SiteCompiler.Proofs.Graph.Calls
import SiteCompiler.Proofs.Graph.ResolvedIds
import SiteCompiler.Proofs.Graph.WarmStart

namespace SiteCompiler.Graph

open Relation (ReflTransGen)
open Disk (Through EndsIn)
open ArtifactStore (recordEnding)

variable {w u : World} {S : String → Prop} {r r' : Run} {id text : String} {o : Options} {m : Module}
  {s : Source} {c : Compiled} {t : Task} {out : Outcome} {changed : Bool} {world : World}

section Steady

/-- What the store writes to keep modules changes neither the source of a module nor what comes of
it. -/
structure World.Steady (w : World) (id : String) : Prop where
  separate : w.Separate id
  linked : ∀ disk s, Through (Keeps w.graph.store ModuleId.Proper) w.disk disk →
    w.source? id = some s →
      Compiled.compile (w.graph.linkage disk id) s.dialect s.text w.graph.settings.sourceMap =
        Compiled.compile (w.graph.linkage w.disk id) s.dialect s.text w.graph.settings.sourceMap

theorem World.Steady.of_explicit (hs : w.Separate id) (h : ∀ s, w.source? id = some s →
    (w.graph.linkage w.disk id).Explicit s.dialect s.text) : w.Steady id :=
  ⟨hs, fun disk s _ hsource ↦ by
    have hamong : w.graph.linkage disk id =
        (w.graph.linkage w.disk id).among (w.graph.folder.canonicalId? disk) :=
      linkage_eq_among rfl id
    rw [hamong, Compiled.compile_among (h s hsource)]⟩

/-- The modules of certain ids that are local are steady; remote ones are in any case. -/
def World.SteadyOn (w : World) (S : String → Prop) : Prop :=
  ∀ x, S x → ¬ModuleId.isRemote x → w.Steady x

theorem World.SteadyOn.compiles_iff (hw : w.SteadyOn S) (h : w.Worked u) (hS : S id) :
    u.Compiles id s c ↔ w.Compiles id s c := by
  have hlink : u.graph.linkage u.disk id = w.graph.linkage u.disk id := by
    rw [linkage, linkage, h.settings, h.folder]
  have hsource : u.source? id = w.source? id := by
    refine h.source? ?_
    by_cases hr : ModuleId.isRemote id
    · exact .inl hr
    · exact .inr (hw id hS hr).separate
  have hcompile : w.source? id = some s →
      Compiled.compile (u.graph.linkage u.disk id) s.dialect s.text u.graph.settings.sourceMap =
        Compiled.compile (w.graph.linkage w.disk id) s.dialect s.text
          w.graph.settings.sourceMap := by
    intro hs
    rw [hlink, h.settings]
    by_cases hr : ModuleId.isRemote id
    · have hamong : w.graph.linkage u.disk id =
          (w.graph.linkage w.disk id).among (w.graph.folder.canonicalId? u.disk) :=
        linkage_eq_among rfl id
      have hexplicit : (w.graph.linkage w.disk id).Explicit s.dialect s.text :=
        Linkage.explicit_of_isRemote hr _ _
      rw [hamong, Compiled.compile_among hexplicit]
    · exact (hw id hS hr).linked u.disk s h.disk hs
  constructor
  · rintro ⟨hs, hc⟩
    rw [hsource] at hs
    exact ⟨hs, (hcompile hs).symm.trans hc⟩
  · rintro ⟨hs, hc⟩
    exact ⟨hsource.trans hs, (hcompile hs).trans hc⟩

end Steady

section Unrecorded

variable {store : ArtifactStore} {ids : String → Prop}

theorem Keeps.writes_records {a : Disk.Action Unit} (h : Keeps store ids a) :
    Disk.Writes (fun _ p c ↦ EndsIn p recordEnding →
      ∃ m : Module, ids m.id ∧ m.record.text.toUTF8 = c) a := by
  cases h with
  | @write m hf hid =>
    refine (ArtifactStore.writes_write _ _ _ _ _ _).mono fun wd p c hn hend ↦ ?_
    rcases hn with ⟨-, rfl⟩ | hn
    · exact ⟨m, hid, rfl⟩
    · rw [hf.file] at hn
      exact absurd hend (putsCode_ending hn).1
  | writeUnder code map hid hn =>
    exact (ArtifactStore.writes_writeCode _ _ _).mono fun wd p c hp hend ↦
      absurd hend (putsCode_ending hp).1

/-- On a new graph over an empty store a module that has not been visited has no record. -/
theorem Run.Passes.previous?_eq_none (h : r.Passes w) (hf : w.Fresh) (hid : ModuleId.Proper id)
    (hv : id ∉ r.visited) : r.world.previous? id = none := by
  have hm : r.world.graph.modules.find? id = none := by
    rw [h.frame.modules id (.inr hv)]
    change w.graph.modules.find? id = none
    rw [hf.modules]
    rfl
  rw [World.previous?, hm, Option.none_or]
  cases hl : r.world.graph.loadPersisted? r.world.disk id with
  | none => rfl
  | some m =>
    obtain ⟨found, -, -, hr, hfound, -⟩ := loadPersisted?_eq_some hl
    obtain ⟨octets, hentry, hread⟩ := readRecord?_eq_some hr
    obtain ⟨hbelow, hend⟩ := recordPath_place r.world hid
    have hg := h.writes.grows fun _ ↦ Keeps.writes_records
    have hplace : r.world.storePlace = w.storePlace := by
      rw [World.storePlace, World.storePlace, h.frame.store, hg.workingDirectory]
      rfl
    rw [hplace] at hbelow
    rcases hg.origin _ octets hentry with ho | hn
    · obtain ⟨_, -, hfalse, -⟩ :=
        (sound_of_fresh (F := False) (T := fun _ ↦ False) hf).records _ octets hbelow hend ho
      exact hfalse.elim
    · obtain ⟨m', ⟨-, hm'⟩, rfl⟩ := hn hend
      rw [ArtifactStore.recordText, Text.Utf8.decode?_toUTF8, Option.getD_some] at hread
      obtain rfl := ModuleMeta.eq_of_read?_text hread
      exact absurd ((show m'.id = id from hfound) ▸ hm') hv

end Unrecorded

section Descent

structure Run.Descends (w : World) (S : String → Prop) (r : Run) (t : Task) : Prop where
  passes : r.Passes w
  worked : w.Worked r.world
  proper : t.Proper
  mem : ∀ x ∈ t.ids, S x
  default : ∀ id o, t = .visit id o → o = .default

def World.Made (w : World) (m : Module) : Prop :=
  ∃ s c, w.Compiles m.id s c ∧ m.dependencies.map (·.path) = c.dependencies

theorem World.Made.draws (h : w.Made m) {d : Dependency} (hd : d ∈ m.dependencies) :
    w.Draws m.id d.path := by
  obtain ⟨s, c, hc, hp⟩ := h
  exact ⟨s, c, hc, hp ▸ List.mem_map_of_mem hd⟩

theorem World.Made.exists_dependency (h : w.Made m) {x : String} (hx : w.Draws m.id x) :
    ∃ d ∈ m.dependencies, d.path = x := by
  obtain ⟨s, c, hc, hp⟩ := h
  obtain ⟨s', c', hc', hx⟩ := hx
  obtain ⟨rfl, rfl⟩ := hc.unique hc'
  rw [← hp] at hx
  exact List.mem_map.1 hx

theorem World.SteadyOn.made (hw : w.SteadyOn S) (h : w.Worked u) (hS : S id)
    {previous : Option Module} (ho : o.Plain) (hs : (u.obtain id o previous).1 = .ok (some s))
    (ht : u.graph.transpile u.disk id s o previous = .ok m) : w.Made m := by
  obtain ⟨c, hc, hm⟩ := derives_of_transpile (F := False) ht
  obtain ⟨_, _, _, -, -, rfl⟩ := transpile_eq_ok ht
  rw [ho.2, Option.getD_none] at hc
  exact ⟨s, c, (hw.compiles_iff h hS).1 ⟨source?_of_obtain ho.1 hs, hc⟩, hm.dependencies⟩

theorem World.SteadyOn.standard {F : Prop} (hw : w.SteadyOn S) :
    Standard Options.Plain F w fun m ↦ S m.id → w.Made m := by
  refine ⟨⟨rfl, rfl⟩, fun {m m'} hr _ hm hS ↦ ?_, fun {u id o s previous m} hu _ ho hs ht hS ↦ ?_,
    fun {g m m' ds} _ hm hd hr hS ↦ ?_⟩
  · have hid : m'.id = m.id := congrArg ModuleMeta.sourceFile hr
    obtain ⟨s, c, hc, hp⟩ := hm (hid ▸ hS)
    refine ⟨s, c, hid ▸ hc, ?_⟩
    rw [show m'.dependencies = m.dependencies from congrArg ModuleMeta.dependencies hr]
    exact hp
  · have hid : m.id = id := by
      obtain ⟨_, _, _, -, -, rfl⟩ := transpile_eq_ok ht
      rfl
    exact hw.made hu (hid ▸ hS) ho hs ht
  · have hid := (relink_id hr).1
    obtain ⟨s, c, hc, hp⟩ := hm (hid ▸ hS)
    refine ⟨s, c, hid ▸ hc, ?_⟩
    rw [relink_dependencies hr, hd.paths, hp]

namespace Run.Descends

variable {importer : String} {d : Dependency} {rest : List Dependency}

theorem start (hf : w.Fresh) (hid : ModuleId.Proper id) (hS : S id) :
    (Run.start w).Descends w S (.visit id .default) where
  passes := .start (sound_of_fresh (F := False) (T := fun _ ↦ True) hf)
  worked := .refl w
  proper := hid
  mem := fun x hx ↦ by rwa [List.mem_singleton.1 hx]
  default := fun _ _ h ↦ (Task.visit.inj h).2.symm

theorem after (h : r.Descends w S t) (hy : Yields r (.visit id o) out r') (hid : ModuleId.Proper id)
    (hout : ∀ stop, out ≠ .stopped stop) {t' : Task} (hp : t'.Proper) (hm : ∀ x ∈ t'.ids, S x)
    (hd : ∀ id o, t' = .visit id o → o = .default) : r'.Descends w S t' :=
  ⟨h.passes.after hy hid hout, h.worked.trans (hy.worked h.passes.sound hid), hp, hm, hd⟩

theorem first (h : r.Descends w S (.settle importer (d :: rest))) :
    r.Descends w S (.visit d.path .default) :=
  ⟨h.passes, h.worked, (h.proper d List.mem_cons_self).2,
    fun x hx ↦ h.mem x (List.mem_singleton.1 hx ▸ List.mem_cons_self),
    fun _ _ he ↦ (Task.visit.inj he).2.symm⟩

theorem others (h : r.Descends w S (.settle importer (d :: rest)))
    (hy : Yields r (.visit d.path .default) (.found m) r') :
    r'.Descends w S (.settle importer rest) :=
  h.after hy (h.proper d List.mem_cons_self).2 (fun _ h ↦ Outcome.noConfusion h)
    (fun d' hd ↦ h.proper d' (List.mem_cons_of_mem d hd))
    (fun x hx ↦ h.mem x (List.mem_cons_of_mem _ hx)) fun _ _ he ↦ Task.noConfusion he

/-- A module that is visited for the first time is transpiled, and the visits go on to what its source
imports. -/
theorem prepared (h : r.Descends w S (.visit id o)) (hf : w.Fresh) (hw : w.SteadyOn S)
    (hc : ∀ a b, S a → w.Draws a b → S b) (hv : id ∉ r.visited)
    (hp : r.world.prepare id o = (.ok (m, changed), world)) :
    changed = true ∧ w.Made m ∧
      ((r.entered id world).inside m).Descends w S (.settle m.id m.dependencies) := by
  obtain rfl := h.default id o rfl
  have hS : S id := h.mem id List.mem_cons_self
  have hprevious := h.passes.previous?_eq_none hf h.proper hv
  have hprep := Prepares.of_eq hp
  have hid := hprep.id_eq
  have hmade : changed = true ∧ w.Made m := by
    cases hprep with
    | compiled hs ht => exact ⟨rfl, hw.made h.worked hS ⟨rfl, rfl⟩ hs ht⟩
    | recorded _ hm =>
      rw [hprevious] at hm
      cases hm
  obtain ⟨-, -, ht⟩ := h.passes.sound.inside False.elim h.proper hp
  refine ⟨hmade.1, hmade.2, h.passes.inside h.proper hp, h.worked.trans (World.worked_prepare hp),
    ht, fun x hx ↦ ?_, fun _ _ he ↦ Task.noConfusion he⟩
  obtain ⟨d, hd, rfl⟩ := List.mem_map.1 hx
  exact hc _ _ hS (hid ▸ hmade.2.draws hd)

theorem exists_prepare (h : r.Descends w S (.visit id .default)) (hf : w.Fresh)
    (hw : w.SteadyOn S) (hv : id ∉ r.visited) (hc : w.Compiles id s c) :
    ∃ m changed world, r.world.prepare id .default = (.ok (m, changed), world) := by
  have hS : S id := h.mem id List.mem_cons_self
  refine ((hw.compiles_iff h.worked hS).2 hc).exists_prepare
    (isHash_knownHash h.passes.sound.world fun m hm ↦ ?_)
  rw [h.passes.previous?_eq_none hf h.proper hv] at hm
  cases hm

end Run.Descends

theorem feasible_descends {known : List String} (hf : w.Fresh) (hw : w.SteadyOn S)
    (hc : ∀ a b, S a → w.Draws a b → S b) (hall : ∀ x, S x → ∃ s c, w.Compiles x s c)
    (hknown : ∀ x, S x → (w.source? x).isSome → x ∈ known) :
    Feasible known (Run.Descends w S) := by
  refine ⟨fun {r id} h hr hv ↦ ?_, fun h hr hv ↦ h.passes.tracked.exists_known hv hr,
    fun {r inner id m changed world ds} h hr _ hp hy ↦ ?_, fun h ↦ h.first, fun h hy ↦ h.others hy⟩
  · have hS : S id := h.mem id List.mem_cons_self
    obtain ⟨s, c, hcomp⟩ := hall id hS
    obtain ⟨m, changed, world, hp⟩ := h.exists_prepare hf hw hv hcomp
    exact ⟨hknown id hS (Option.isSome_of_eq_some hcomp.source), m, changed, world, hp,
      (h.prepared hf hw hc hv hp).2.2⟩
  · obtain ⟨-, hin, hproper⟩ := h.passes.sound.inside False.elim h.proper hp
    exact exists_relink (hy.sound False.elim hin hproper fun _ _ _ ↦ trivial).2.isHash m

end Descent
section Requests

def Requests (r r' : Run) : Prop :=
  ∀ x, r'.world.network.requests.count x = r.world.network.requests.count x +
    if ModuleId.isRemote x ∧ x ∉ r.visited ∧ x ∈ r'.visited then 1 else 0

namespace Requests

variable {inner r'' : Run}

theorem of_eq (hn : r'.world.network = r.world.network) (hv : r'.visited = r.visited) :
    Requests r r' := by
  intro x
  rw [hn, hv, if_neg fun h ↦ h.2.1 h.2.2, Nat.add_zero]

theorem trans (h : Requests r r') (h' : Requests r' r'') (hf : Frame r r') (hf' : Frame r' r'') :
    Requests r r'' := by
  intro x
  rw [h' x, h x, Nat.add_assoc]
  congr 1
  by_cases hr : ModuleId.isRemote x
  · by_cases hv : x ∈ r.visited
    · simp [hv, hf.visited x hv]
    · by_cases hv' : x ∈ r'.visited
      · simp [hr, hv, hv', hf'.visited x hv']
      · simp [hr, hv, hv']
  · simp [hr]

theorem finished (h : Requests r inner) (stack : List Module) (m : Module) (changed : Bool) :
    Requests r (inner.finished stack m changed) := by
  intro x
  rw [show (inner.finished stack m changed).world.network = inner.world.network from
    inner.world.network_finish m changed]
  exact h x

end Requests

theorem Run.Descends.requests_entered {p : Except Stop (Module × Bool)}
    (h : r.Descends w S (.visit id o)) (hf : w.Fresh) (hv : id ∉ r.visited)
    (hp : r.world.prepare id o = (p, world)) : Requests r (r.entered id world) := by
  obtain rfl := h.default id o rfl
  have hn := r.world.network_prepare id .default
  rw [hp, h.passes.previous?_eq_none hf h.proper hv] at hn
  have hreq := r.world.requests_obtain id .default none
  rw [← hn, Option.isNone_none, Bool.true_or, Bool.and_true, Options.default, Option.isNone_none,
    Bool.and_true] at hreq
  intro x
  change world.network.requests.count x = _ + if _ ∧ _ ∧ x ∈ id :: r.visited then 1 else 0
  rw [hreq]
  by_cases hr : ModuleId.isRemote id
  · rw [if_pos hr, List.count_cons]
    by_cases hx : id = x
    · subst hx
      simp [hr, hv]
    · have hne : x ≠ id := fun he ↦ hx he.symm
      simp [hx, hne]
  · rw [if_neg hr]
    by_cases hx : x = id
    · subst hx
      simp [hr]
    · simp [hx]

theorem Yields.requests (h : Yields r t out r') (hd : r.Descends w S t) (hf : w.Fresh)
    (hw : w.SteadyOn S) (hc : ∀ a b, S a → w.Draws a b → S b) : Requests r r' := by
  -- below a module that is entered
  have hbelow : ∀ {r inner : Run} {id o m changed world}, r.Descends w S (.visit id o) →
      id ∉ r.visited → r.world.prepare id o = (.ok (m, changed), world) →
      Frame ((r.entered id world).inside m) inner →
      Requests ((r.entered id world).inside m) inner → Requests r inner := by
    intro r inner id o m changed world hd hv hp hframe hin
    have hentered : Requests r ((r.entered id world).inside m) := hd.requests_entered hf hv hp
    have hsame : Frame r (r.entered id world) := .entered (World.prepare_eq hp).1
    exact hentered.trans hin ⟨hsame.folder, hsame.store, hsame.settings, hsame.visited, hsame.cyclic,
      hsame.modules, hsame.remote, hsame.vendored⟩ hframe
  induction h with
  | deep => exact .of_eq rfl rfl
  | vendored => exact .of_eq rfl rfl
  | again => exact .of_eq rfl rfl
  | lost => exact .of_eq rfl rfl
  | unprepared _ hv hp => exact hd.requests_entered hf hv hp
  | leaf _ hv hp _ => exact (hd.requests_entered hf hv hp).finished _ _ _
  | dropped _ hv hp _ hb ih =>
    exact hbelow hd hv hp hb.frame.1 (ih (hd.prepared hf hw hc hv hp).2.2)
  | kept _ hv hp _ hb ih =>
    exact (hbelow hd hv hp hb.frame.1 (ih (hd.prepared hf hw hc hv hp).2.2)).finished _ _ _
  | broken _ hv hp _ hb _ ih =>
    exact hbelow hd hv hp hb.frame.1 (ih (hd.prepared hf hw hc hv hp).2.2)
  | relinked _ hv hp _ hb _ ih =>
    exact (hbelow hd hv hp hb.frame.1 (ih (hd.prepared hf hw hc hv hp).2.2)).finished _ _ _
  | done => exact .of_eq rfl rfl
  | failed _ ih => exact ih hd.first
  | cut hfirst ho ih ih' =>
    exact (ih hd.first).trans (ih' (hd.others hfirst)) hfirst.frame.1 ho.frame.1
  | next hfirst ho ih ih' =>
    exact (ih hd.first).trans (ih' (hd.others hfirst)) hfirst.frame.1 ho.frame.1

end Requests
section Visits

variable {known : List String} {a a' : Call}

/-- A visit of a run on a new graph that stays among certain modules, deep enough for all that it can
be nested in. -/
structure Call.Descends (w : World) (S : String → Prop) (known : List String) (a : Call) : Prop where
  run : a.run.Descends w S (.visit a.id a.options)
  nested : a.run.Nested known
  depth : known.length < a.depth + a.run.stack.length

theorem Call.Descends.pos (h : a.Descends w S known) : 0 < a.depth := by
  have hle := h.nested.length_le
  have hd := h.depth
  omega

theorem Call.Makes.descends (hm : a.Makes a') (h : a.Descends w S known) (hf : w.Fresh)
    (hw : w.SteadyOn S) (hc : ∀ a b, S a → w.Draws a b → S b)
    (hknown : ∀ x, S x → (w.source? x).isSome → x ∈ known) : a'.Descends w S known := by
  obtain ⟨m', -, hstack⟩ := hm.stack_eq
  cases hm with
  | @mk depth m changed world r d before after settled deep _ visited prepared _ deps earlier =>
    obtain ⟨-, hmade, hin⟩ := h.run.prepared hf hw hc visited prepared
    have hid := (Prepares.of_eq prepared).id_eq
    have hy := Call.yields_of_settle earlier
    have hout : ∀ stop, Outcome.ofSettle (.ok settled) ≠ .stopped stop :=
      fun _ h ↦ Outcome.noConfusion h
    have hsub : ∀ {d'}, d' ∈ before ++ d :: after → d' ∈ m.dependencies := fun hd ↦ deps ▸ hd
    have hbefore : (Task.settle m.id before).Proper :=
      fun d' hd ↦ hin.proper d' (hsub (List.mem_append_left _ hd))
    have hd : d ∈ m.dependencies := hsub (List.mem_append_right _ List.mem_cons_self)
    refine ⟨⟨hin.passes.after hy hbefore hout,
      hin.worked.trans (hy.worked hin.passes.sound hbefore), (hin.proper d hd).2, fun x hx ↦ ?_,
      fun _ _ he ↦ (Task.visit.inj he).2.symm⟩, ?_, ?_⟩
    · rw [List.mem_singleton.1 hx]
      exact hin.mem _ (List.mem_map_of_mem hd)
    · obtain ⟨s, c, hcomp, -⟩ := hmade
      have hk : a.id ∈ known := hknown _ (h.run.mem _ List.mem_cons_self)
        (Option.isSome_of_eq_some (hid ▸ hcomp.source))
      exact (h.nested.inside visited hk hid world).after hy hout
    · have hdepth := h.depth
      rw [hstack, List.length_cons]
      change known.length < depth + _
      omega

theorem World.mem_knownIds_of_closure (hid : w.entryId text = .ok id) (hl : w.Listed) {x : String}
    (hx : w.Closure id x) (hs : (w.source? x).isSome) : x ∈ w.knownIds := by
  obtain ⟨s, hs⟩ := Option.isSome_iff_exists.1 hs
  have hr : w.Resolved x := by
    rcases hx.cases_tail with rfl | ⟨y, -, s, c, hc, hx⟩
    · exact World.resolved_entryId hid
    · exact World.resolved_of_leads ((Compiled.compile_linked hc.compiled).2.1 x hx)
  exact hr.mem_knownIds hl hs

theorem World.descends_of_mem_calls (hf : w.Fresh) (hl : w.Listed)
    (hid : w.entryId text = .ok id) (hw : w.SteadyOn (w.Closure id))
    (ha : a ∈ w.calls text .default) : a.Descends w (w.Closure id) w.knownIds := by
  rw [World.calls_eq_of_entryId hid] at ha
  refine Call.forall_calls (P := fun a ↦ a.Descends w (w.Closure id) w.knownIds)
    (fun _ _ h hm ↦ hm.descends h hf hw (fun _ _ h hd ↦ h.tail hd)
      fun x hx hs ↦ World.mem_knownIds_of_closure hid hl hx hs) ?_ a ha
  refine ⟨.start hf (proper_entryId hid) .refl,
    ⟨.nil, (fun _ h ↦ by cases h), fun _ h ↦ by cases h⟩, ?_⟩
  change w.knownIds.length < w.depthBound + 0
  rw [World.depthBound]
  omega

theorem World.exists_known_of_mem_calls (ha : a ∈ w.calls text o) (hv : a.id ∈ a.run.visited)
    (hr : a.run.world.graph.remote.find? a.id = none) :
    ∃ m, (a.run.stack.find? (·.id = a.id)).or (a.run.world.graph.modules.find? a.id) = some m := by
  cases hid : w.entryId text with
  | error cause =>
    rw [World.calls, hid] at ha
    cases ha
  | ok id =>
    rw [World.calls_eq_of_entryId hid] at ha
    have ht : a.run.Tracked :=
      Call.forall_calls (P := fun a ↦ a.run.Tracked) (fun _ _ h hm ↦ hm.tracked h)
        (tracked_start w) a ha
    exact ht.exists_known hv hr

end Visits

section Closed

/-- The sources lead to a module from the one that is asked for by a text, or it is that. -/
def World.Needs (w : World) (text x : String) : Prop :=
  ∃ id, w.entryId text = .ok id ∧ w.Closure id x

def Call.transpiles (a : Call) : Bool :=
  a.enters && match (a.run.world.prepare a.id a.options).1 with
    | .ok (_, changed) => changed
    | .error _ => false

def World.transpiled (w : World) (text : String) (o : Options) : List String :=
  ((w.calls text o).filter Call.transpiles).map (·.id)

/-- A call registers certain modules and no other ones, each in its table; it transpiles each once, and
requests each once that is remote. -/
structure World.Takes (w : World) (text : String) (ids : String → Prop) : Prop where
  modules : ∀ x, (∃ m, (w.compile text .default).2.graph.module? x = some m) ↔
    ids x ∧ ¬ModuleId.isRemote x
  remote : ∀ x, (∃ m, (w.compile text .default).2.graph.remoteModule? x = some m) ↔
    ids x ∧ ModuleId.isRemote x
  nodup : (w.transpiled text .default).Nodup
  transpiled : ∀ x, x ∈ w.transpiled text .default ↔ ids x
  requested : ∀ x, ids x → ModuleId.isRemote x →
    (w.compile text .default).2.network.requests.count x = w.network.requests.count x + 1
  others : ∀ x, ¬(ids x ∧ ModuleId.isRemote x) →
    (w.compile text .default).2.network.requests.count x = w.network.requests.count x

/-- On a new graph a visit that is not stopped transpiles the module if it is visited for the first
time. -/
theorem Call.transpiles_eq_enters {known : List String} {a : Call} (h : a.Descends w S known)
    (hf : w.Fresh) (hw : w.SteadyOn S) (hc : ∀ a b, S a → w.Draws a b → S b)
    (hok : ∀ stop, a.result.1 ≠ .error stop) : a.transpiles = a.enters := by
  rw [transpiles]
  by_cases he : a.enters = true
  · obtain ⟨hd, hr, hv⟩ := enters_iff.1 he
    obtain ⟨depth, hd⟩ := Nat.exists_eq_succ_of_ne_zero hd
    rcases hp : a.run.world.prepare a.id a.options with ⟨stop | ⟨m, changed⟩, world⟩
    · refine absurd ?_ (hok stop)
      rw [result, hd, Run.visit_of_unprepared hr hv hp]
    · obtain ⟨rfl, -⟩ := h.run.prepared hf hw hc hv hp
      rw [he, Bool.true_and]
  · rw [Bool.eq_false_iff.2 he, Bool.false_and]

theorem Frame.mem_visited_of_has (h : Frame (Run.start w) r) (hf : w.Fresh)
    (hm : r.world.Has id m) : id ∈ r.visited := by
  refine Decidable.byContradiction fun hv ↦ ?_
  rw [h.has (.inr hv)] at hm
  rcases hm with hm | hm
  · change w.graph.modules.find? id = some m at hm
    rw [hf.modules] at hm
    cases hm
  · change w.graph.remote.find? id = some m at hm
    rw [hf.remote] at hm
    cases hm

theorem Run.Covers.mem_visited (hc : r.Covers (r.world.persistAliases r.visited) id)
    (hf : w.Fresh) (h : Frame (Run.start w) r) : id ∈ r.visited := by
  rcases hc with hv | ⟨m, hm⟩
  · exact hv
  · rw [(World.sameGraph_persistAliases _ _).remote] at hm
    exact h.mem_visited_of_has hf (.inr hm)

/-- A run on a new graph that ends with a module has visited and registered all that the sources lead
to from there. -/
theorem Yields.visits_closure (hy : Yields (Run.start w) (.visit id .default) (.found m) r)
    (hid : ModuleId.Proper id) (hf : w.Fresh) (hw : w.SteadyOn (w.Closure id)) {x : String}
    (hx : w.Closure id x) : x ∈ r.visited ∧ ∃ m', r.world.Has x m' ∧ w.Made m' := by
  obtain ⟨-, hs, htraverse, hcovers, -⟩ := traversal_of_yields hy
  have hsound := sound_of_fresh (F := False) (T := fun _ ↦ True) hf
  have hrec := (hy.recorded False.elim hw.standard (recorded_start hsound (recorded_of_fresh hf))
    hid ⟨rfl, rfl⟩ fun _ _ _ ↦ trivial).1
  have hfound : ∀ y, w.Closure id y → y ∈ r.visited → ∃ m', r.world.Has y m' ∧ w.Made m' ∧
      ∀ d ∈ m'.dependencies, d.path ∈ r.visited := by
    intro y hS hv
    obtain ⟨m', hm', hd⟩ := htraverse.finished y hv (by rw [hs]; exact fun _ h ↦ by cases h)
    exact ⟨m', hm', hrec.registered y m' hm' (hm'.id_eq.symm ▸ hS), fun d hd' ↦
      (hd d hd').1.mem_visited hf hy.frame.1⟩
  have hv : x ∈ r.visited := by
    induction hx with
    | refl => exact hcovers.mem_visited hf hy.frame.1
    | tail ha hdraws ih =>
      obtain ⟨m', hm', hmade, hdeps⟩ := hfound _ ha ih
      obtain ⟨d, hd, rfl⟩ := hmade.exists_dependency (hm'.id_eq.symm ▸ hdraws)
      exact hdeps d hd
  obtain ⟨m', hm', hmade, -⟩ := hfound x hx hv
  exact ⟨hv, m', hm', hmade⟩

theorem World.visited_eq_transpiled (hf : w.Fresh) (hl : w.Listed) (hid : w.entryId text = .ok id)
    (hw : w.SteadyOn (w.Closure id)) (hok : (w.entry id .default).result.1 = .ok m) :
    (w.entry id .default).result.2.visited = (w.transpiled text .default).reverse := by
  have hv := (w.entry id .default).visited_result
  have hfilter : (w.calls text .default).filter Call.transpiles =
      (w.calls text .default).filter Call.enters := by
    refine List.filter_congr fun a ha ↦ ?_
    refine Call.transpiles_eq_enters (World.descends_of_mem_calls hf hl hid hw ha) hf hw
      (fun _ _ h hd ↦ h.tail hd) fun stop hstop ↦ ?_
    rw [World.calls_eq_of_entryId hid] at ha
    have he := Call.result_of_stopped ha (Prod.ext hstop rfl : a.result = (.error stop, a.result.2))
    rw [he] at hok
    cases hok
  rw [World.transpiled, hfilter, World.calls_eq_of_entryId hid]
  exact hv.trans (List.append_nil _)

theorem World.takes_closure (hf : w.Fresh) (hl : w.Listed) (hid : w.entryId text = .ok id)
    (hw : w.SteadyOn (w.Closure id)) (hok : (w.entry id .default).result.1 = .ok m)
    (hcompile : (w.compile text .default).2 = (w.entry id .default).result.2.world.persistAliases
      (w.entry id .default).result.2.visited) : w.Takes text (w.Closure id) := by
  have hy := (w.entry id .default).yields
  have htranspiled := World.visited_eq_transpiled hf hl hid hw hok
  have hmem : ∀ x, x ∈ (w.entry id .default).result.2.visited → w.Closure id x := by
    intro x hx
    obtain ⟨a, ha, -, rfl⟩ := World.exists_call_of_visited hid hx
    exact (World.descends_of_mem_calls hf hl hid hw ha).run.mem _ List.mem_cons_self
  rw [hok] at hy
  generalize (w.entry id .default).result.2 = r at hy htranspiled hcompile hmem
  change Yields (Run.start w) (.visit id .default) (.found m) r at hy
  have hproper := proper_entryId hid
  have hsame := World.sameGraph_persistAliases r.world r.visited
  have hsound := (hy.sound False.elim
    (sound_of_fresh (F := False) (T := fun _ ↦ True) hf).run hproper fun _ _ _ ↦ trivial).1
  have hiff : ∀ x, x ∈ r.visited ↔ w.Closure id x :=
    fun x ↦ ⟨hmem x, fun hx ↦ (hy.visits_closure hproper hf hw hx).1⟩
  have hhas : ∀ x m', r.world.Has x m' → w.Closure id x :=
    fun x _ hm ↦ hmem x (hy.frame.1.mem_visited_of_has hf hm)
  have hrequests := hy.requests (.start hf hproper .refl) hf hw fun _ _ h hd ↦ h.tail hd
  have hnetwork : (w.compile text .default).2.network = r.world.network := by
    rw [hcompile, World.network_persistAliases]
  refine ⟨fun x ↦ ?_, fun x ↦ ?_, ?_, fun x ↦ ?_, fun x hx hr ↦ ?_, fun x hx ↦ ?_⟩
  · rw [hcompile, module?, hsame.modules]
    constructor
    · rintro ⟨m', hm'⟩
      exact ⟨hhas x m' (.inl hm'), (hsound.modules x m' hm').2.2⟩
    · rintro ⟨hx, hr⟩
      obtain ⟨-, m', hm', -⟩ := hy.visits_closure hproper hf hw hx
      exact ⟨m', hm'.resolve_right fun h ↦ hr (hsound.remote x m' h).2.2⟩
  · rw [hcompile, remoteModule?, hsame.remote]
    constructor
    · rintro ⟨m', hm'⟩
      exact ⟨hhas x m' (.inr hm'), (hsound.remote x m' hm').2.2⟩
    · rintro ⟨hx, hr⟩
      obtain ⟨-, m', hm', -⟩ := hy.visits_closure hproper hf hw hx
      exact ⟨m', hm'.resolve_left fun h ↦ (hsound.modules x m' h).2.2 hr⟩
  · rw [← List.nodup_reverse, ← htranspiled]
    exact Call.nodup_visited hy .nil
  · rw [← List.mem_reverse, ← htranspiled, hiff]
  · rw [hnetwork, hrequests x, if_pos ⟨hr, List.not_mem_nil, (hiff x).2 hx⟩]
    rfl
  · rw [hnetwork, hrequests x, if_neg fun h ↦ hx ⟨(hiff x).1 h.2.2, h.1⟩]
    rfl

/-- On a new graph over an empty store a call ends with a module just if there is an id to compile and
all modules compile that the sources lead to from there. It then registers these and no other ones; it
transpiles each once and requests each once that is remote. In any case no visit is cut off for want of
depth, and none fails to find a module that it comes to again. -/
theorem compile_iff_of_fresh (hf : w.Fresh) (hl : w.Listed) (hw : w.SteadyOn (w.Needs text)) :
    ((∃ m, (w.compile text .default).1 = .ok m) ↔
      (∃ id, w.entryId text = .ok id) ∧ ∀ x, w.Needs text x → ∃ s c, w.Compiles x s c) ∧
    ((∃ m, (w.compile text .default).1 = .ok m) → w.Takes text (w.Needs text)) ∧
    ∀ a ∈ w.calls text .default, 0 < a.depth ∧
      (a.id ∈ a.run.visited → a.run.world.graph.remote.find? a.id = none → ∃ m,
        (a.run.stack.find? (·.id = a.id)).or (a.run.world.graph.modules.find? a.id) = some m) := by
  cases hid : w.entryId text with
  | error cause =>
    have hcompile : w.compile text .default = (.error (.error cause), w) := by
      rw [World.compile, hid]
    have hcalls : w.calls text .default = [] := by rw [World.calls, hid]
    rw [hcompile, hcalls]
    refine ⟨⟨?_, ?_⟩, ?_, ?_⟩
    · rintro ⟨m, hm⟩
      cases hm
    · rintro ⟨⟨id, hid'⟩, -⟩
      cases hid'
    · rintro ⟨m, hm⟩
      cases hm
    · intro a ha
      cases ha
  | ok id =>
    have hneeds : w.Needs text = w.Closure id := by
      funext x
      refine propext ⟨?_, fun hx ↦ ⟨id, hid, hx⟩⟩
      rintro ⟨id', hid', hx⟩
      rw [hid] at hid'
      exact Except.ok.inj hid' ▸ hx
    rw [hneeds] at hw ⊢
    refine ⟨⟨fun hok ↦ ⟨⟨id, rfl⟩, fun x hx ↦ ?_⟩, fun hall ↦ ?_⟩, fun hok ↦ ?_, fun a ha ↦
      ⟨(World.descends_of_mem_calls hf hl hid hw ha).pos, World.exists_known_of_mem_calls ha⟩⟩
    · obtain ⟨m, hok⟩ := hok
      obtain ⟨r, hy, -, he, -⟩ := traversal_of_compile (Prod.ext hok rfl)
      obtain rfl := Except.ok.inj (hid.symm.trans he)
      obtain ⟨-, m', hm', s, c, hc, -⟩ := hy.visits_closure (proper_entryId hid) hf hw hx
      exact ⟨s, c, hm'.id_eq ▸ hc⟩
    · obtain ⟨m, r, -, hc⟩ := exists_compile (feasible_descends hf hw (fun _ _ h hd ↦ h.tail hd)
        hall.2 fun x hx hs ↦ World.mem_knownIds_of_closure hid hl hx hs) hid
        (.start hf (proper_entryId hid) .refl)
      exact ⟨m, by rw [hc]⟩
    · obtain ⟨m, hok⟩ := hok
      rcases World.compile_eq hid .default with ⟨stop, -, hc⟩ | ⟨m', hr, hc⟩
      · rw [hc] at hok
        cases hok
      · exact World.takes_closure hf hl hid hw hr (by rw [hc])

theorem needs_pairWorld {x : String} (h : pairWorld.Needs "a.js" x) : x = "/a.js" ∨ x = "/b.js" := by
  obtain ⟨id, hid, hx⟩ := h
  obtain rfl := Except.ok.inj (hid.symm.trans (entryId_a _))
  induction hx with
  | refl => exact .inl rfl
  | tail _ hd ih => exact regular_pairWorld.closed _ _ ih hd

theorem compile_iff_pairWorld : (∃ m, (pairWorld.compile "a.js" .default).1 = .ok m) ∧
    pairWorld.Takes "a.js" (pairWorld.Needs "a.js") ∧
    "/b.js" ∈ pairWorld.transpiled "a.js" .default := by
  have hsteady : pairWorld.SteadyOn (pairWorld.Needs "a.js") := fun x hx _ ↦
    .of_explicit (separate_pairWorld (needs_pairWorld hx))
      fun s ↦ regular_pairWorld.explicit x s (needs_pairWorld hx)
  obtain ⟨m, w, hcompile, -⟩ := exists_compile_pairWorld
  have hok : ∃ m, (pairWorld.compile "a.js" .default).1 = .ok m := ⟨m, by rw [hcompile]⟩
  obtain ⟨-, htakes, -⟩ := compile_iff_of_fresh fresh_pairWorld (fun _ h ↦ by cases h) hsteady
  refine ⟨hok, htakes hok, ((htakes hok).transpiled _).2 ⟨"/a.js", ?_, .single imports_pairWorld⟩⟩
  exact entryId_eq_ok rfl (.inr ⟨rfl, "a.js", rfl⟩)

end Closed
end SiteCompiler.Graph
