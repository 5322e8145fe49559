import SiteCompiler.Proofs.Graph.Idle
import SiteCompiler.Proofs.Graph.KnownIds

namespace SiteCompiler.Graph

open Relation (ReflTransGen TransGen)
open Digest (contentHash IsHash)

namespace World

/-- What happens to a graph whose settings and answers are fixed: modules are compiled, local ones
perhaps alone, sources are edited, and new graphs are opened over the store. -/
def Incremental (w : World) : Event → Prop
  | .compile text o => o = .default ∨
      o = { Options.default with alone := true } ∧ ¬ModuleId.isRemote text
  | .remove _ => False
  | .edit _ network =>
    network.answers = w.network.answers ∧ network.otherwise = w.network.otherwise
  | .restart folder settings => folder = w.graph.folder ∧ settings = w.graph.settings

end World

variable {F : Prop} {T : String → Prop} {v w u : World} {ws : List World} {S : String → Prop}
  {had : String → Source → Prop} {r r' : Run} {id text : String} {o : Options} {m : Module} {s : Source}
  {c : Compiled}

theorem Event.plain_of_incremental {e : Event} (h : w.Incremental e) : e.Within Options.Plain := by
  cases e with
  | compile text o => rcases h with rfl | ⟨rfl, -⟩ <;> exact ⟨rfl, rfl⟩
  | remove => trivial
  | edit => trivial
  | restart => trivial

section Terms

theorem World.sameTerms_react (h : Sound F T w) {e : Event} (he : w.Incremental e) :
    w.SameTerms (w.react e) := by
  cases e with
  | compile text o => exact (World.worked_compile h text o).toSameTerms
  | remove => exact he.elim
  | edit disk network => exact ⟨rfl, rfl, he.1, he.2⟩
  | restart folder settings => exact ⟨he.1, he.2, rfl, rfl⟩

theorem sameTerms_of_history (h : History World.Incremental (w :: ws)) :
    ∀ v ∈ w :: ws, v.SameTerms w := by
  generalize hall : w :: ws = worlds at h
  induction h generalizing w ws with
  | @start w₀ hf =>
    obtain ⟨rfl, rfl⟩ := List.cons.inj hall
    intro v hv
    rw [List.mem_singleton.1 hv]
    exact .refl w
  | @step w₁ ws₁ e hb ha he ih =>
    obtain ⟨rfl, rfl⟩ := List.cons.inj hall
    have hnext := World.sameTerms_react (sound_heldIn hb w₁ List.mem_cons_self) he
    intro v hv
    rcases List.mem_cons.1 hv with rfl | hv
    · exact .refl _
    · exact (ih rfl v hv).trans hnext

def hadIn (ws : List World) (id : String) (s : Source) : Prop :=
  ∃ v ∈ ws, v.source? id = some s

theorem World.eq_ofText_of_source? (h : w.source? id = some s) (hr : ¬ModuleId.isRemote id)
    (hid : (Dialect.ofPath? id).isSome) :
    s = .ofText s.text ((Dialect.ofPath? (w.graph.folder.basePath id)).getD .js) := by
  have hl := load_eq_ok h
  rw [Source.load, if_neg hr] at hl
  dsimp only at hl
  exact (Source.Folder.read_eq_ok hl hid).1

theorem remembers_of_history (h : History World.Incremental (w :: ws))
    (hnamed : ∀ x, S x → ModuleId.NamesFile x)
    (htold : ∀ v ∈ w :: ws, ∀ x s s', S x → v.source? x = some s → w.source? x = some s' →
      contentHash s.text = contentHash s'.text → s.text = s'.text) :
    Remembers w S (hadIn (w :: ws)) := by
  have hremote : ∀ x s, ModuleId.isRemote x → hadIn (w :: ws) x s → w.source? x = some s := by
    rintro x s hr ⟨v, hv, hs⟩
    rw [(sameTerms_of_history h v hv).source?_eq (.inl hr)]
    exact hs
  refine ⟨fun x s _ hr hs ↦ hremote x s hr hs, fun x s s' hS hs hs' he ↦ ?_⟩
  by_cases hr : ModuleId.isRemote x
  · exact Option.some_inj.1 ((hremote x s hr hs).symm.trans hs')
  · obtain ⟨v, hv, hs⟩ := hs
    have hext := ((hnamed x hS).resolve_left hr).1
    have heq := World.eq_ofText_of_source? hs hr hext
    have heq' := World.eq_ofText_of_source? hs' hr hext
    rw [(sameTerms_of_history h v hv).folder] at heq'
    rw [heq, heq'] at he
    rw [heq, heq', htold v hv x s s' hS hs hs' he]

end Terms

section Vendored

theorem Yields.remote_of_alone {out : Outcome} (h : Yields r (.visit id o) out r')
    (ha : o.alone = true) (hid : ¬ModuleId.isRemote id) :
    r'.world.graph.remote = r.world.graph.remote := by
  have hwhole : o.alone ≠ false := by
    rw [ha]
    exact Bool.noConfusion
  cases h with
  | deep => rfl
  | vendored => rfl
  | again => rfl
  | lost => rfl
  | unprepared _ _ hp => exact (World.prepare_eq hp).1.remote
  | @leaf _ _ _ m changed world hr hv hp _ =>
    obtain ⟨-, -, -, -, hrem⟩ := world.modules_finish m changed
    rw [(Prepares.of_eq hp).isRemote_eq, if_neg hid] at hrem
    exact hrem.trans (World.prepare_eq hp).1.remote
  | dropped _ _ _ hw => exact absurd hw hwhole
  | kept _ _ _ hw => exact absurd hw hwhole
  | broken _ _ _ hw => exact absurd hw hwhole
  | relinked _ _ _ hw => exact absurd hw hwhole

theorem isRemote_entryId (h : w.entryId text = .ok id) (ht : ¬ModuleId.isRemote text) :
    ¬ModuleId.isRemote id := by
  have hlocal : ∀ names, ¬ModuleId.isRemote (ModuleId.rooted names) := fun names ↦ by
    rw [ModuleId.rooted, ModuleId.isRemote_slash]
    exact Bool.false_ne_true
  rw [World.entryId, normalizeId, if_neg ht] at h
  dsimp only [bind, Except.bind, pure, Except.pure] at h
  split at h
  · rw [← Except.ok.inj h]
    exact hlocal _
  · rw [← Except.ok.inj h]
    cases hc : w.graph.folder.canonicalId? w.disk (ModuleId.normalizeLocal text) with
    | none => exact hlocal _
    | some id' =>
      rw [Source.Folder.canonicalId?] at hc
      obtain ⟨path, -, hc⟩ := Option.bind_eq_some_iff.1 hc
      obtain ⟨below, -, hc⟩ := Option.bind_eq_some_iff.1 hc
      rw [← Option.some_inj.1 hc, Option.getD_some, ModuleId.isRemote_slash]
      exact Bool.false_ne_true

theorem Supplies.of_remote (h : w.Supplies v F S) (hr : u.graph.remote = v.graph.remote) :
    w.Supplies u F S := by
  intro x m hS hm
  rw [hr] at hm
  obtain ⟨hc, hd⟩ := h x m hS hm
  refine ⟨hc, fun d hd' ↦ ?_⟩
  rw [World.Vendors, hr]
  exact hd d hd'

theorem cleaned_start (h : w.Supplies v F S) : (Run.start v).Cleaned F w S :=
  ⟨(fun _ _ hx ↦ by cases hx), h, .nil, (fun _ hx ↦ by cases hx), fun _ hm ↦ by cases hm⟩

theorem recorded_start (hs : Sound F T v) {Q : Module → Prop} (h : Recorded T Q v) :
    (Run.start v).Recorded F T Q v :=
  ⟨hs.run, .refl v, h, fun _ hm ↦ by cases hm⟩

/-- The remote modules that a call leaves registered are as they are compiled from scratch. -/
theorem supplies_compile (hT : Faithful F T) (hw : w.Regular S) (hr : Remembers w S had)
    (hQ : Standard Options.Plain F v (Derived F w S had)) (hremote : ∀ x, S x → ModuleId.isRemote x)
    (hs : Sound F T v) (hrec : Recorded T (Derived F w S had) v) (h : w.Supplies v F S)
    (text : String) (ht : (v.compile text .default).2.Each (T ·.code)) :
    w.Supplies (v.compile text .default).2 F S := by
  have hup : ∀ {u id o m changed}, v.Worked u → S id → o.Plain → Prepares u id o m changed →
      w.UpToDate m := fun _ hS _ hp ↦ .inl (hp.id_eq ▸ hremote _ hS)
  rcases compile_cases v text .default with
    ⟨cause, -, hc⟩ | ⟨id, r, he, ⟨stop, hy, hc⟩ | ⟨m, hy, hc⟩⟩
  · rw [hc]
    exact h
  · rw [hc] at ht ⊢
    exact (hy.cleans hT hw hr hQ hup (recorded_start hs hrec) (cleaned_start h) (proper_entryId he)
      ⟨rfl, rfl⟩ ⟨rfl, fun _ h ↦ by cases h⟩ ht).1
  · rw [hc] at ht ⊢
    have hsame := World.sameGraph_persistAliases r.world r.visited
    have ht' : r.world.Each (T ·.code) := fun id m hm ↦ ht id m (hsame.has.2 hm)
    exact Supplies.of_remote (hy.cleans hT hw hr hQ hup (recorded_start hs hrec) (cleaned_start h)
      (proper_entryId he) ⟨rfl, rfl⟩ ⟨rfl, fun _ h ↦ by cases h⟩ ht').1 hsame.remote

theorem supplies_compile_alone (h : w.Supplies v F S) (ho : o.alone = true)
    (ht : ¬ModuleId.isRemote text) : w.Supplies (v.compile text o).2 F S := by
  rcases compile_cases v text o with ⟨cause, -, hc⟩ | ⟨id, r, he, ⟨stop, hy, hc⟩ | ⟨m, hy, hc⟩⟩
  · rw [hc]
    exact h
  · rw [hc]
    exact Supplies.of_remote h (hy.remote_of_alone ho (isRemote_entryId he ht))
  · rw [hc]
    exact Supplies.of_remote h ((World.sameGraph_persistAliases r.world r.visited).remote.trans
      (hy.remote_of_alone ho (isRemote_entryId he ht)))

/-- The remote modules that are registered in the course of a history are as they are compiled from
scratch. -/
theorem supplies_of_history (h : History World.Incremental ws) (hT : Faithful F T)
    (ht : ∀ v ∈ ws, v.Each (T ·.code)) (hw : w.Regular S)
    (hremote : ∀ x, S x → ModuleId.isRemote x) (hr : Remembers w S had)
    (hQ : ∀ v ∈ ws, Standard Options.Plain F v (Derived F w S had)) : ∀ v ∈ ws, w.Supplies v F S := by
  have hsound := sound_of_history h hT ht
  have hrec := recorded_of_history h (fun _ _ ↦ Event.plain_of_incremental) hT ht hQ
  have hempty : ∀ {v : World}, v.graph.remote = .empty → w.Supplies v F S := by
    intro v hv x m _ hm
    rw [hv] at hm
    cases hm
  induction h with
  | start hf =>
    intro v hv
    rw [List.mem_singleton.1 hv]
    exact hempty hf.remote
  | @step w₁ ws₁ e hb ha he ih =>
    have hmem : w₁ ∈ w₁.react e :: w₁ :: ws₁ := List.mem_cons_of_mem _ List.mem_cons_self
    have hbefore := ih (fun v hv ↦ ht v (List.mem_cons_of_mem _ hv))
      (fun v hv ↦ hQ v (List.mem_cons_of_mem _ hv)) (fun v hv ↦ hsound v (List.mem_cons_of_mem _ hv))
      fun v hv ↦ hrec v (List.mem_cons_of_mem _ hv)
    have hw₁ := hbefore w₁ List.mem_cons_self
    intro v hv
    rcases List.mem_cons.1 hv with rfl | hv
    · cases e with
      | compile text o =>
        rcases he with rfl | ⟨rfl, htext⟩
        · exact supplies_compile hT hw hr (hQ w₁ hmem) hremote (hsound w₁ hmem) (hrec w₁ hmem) hw₁
            text (ht _ List.mem_cons_self)
        · exact supplies_compile_alone hw₁ rfl htext
      | remove => exact he.elim
      | edit => exact hw₁
      | restart => exact hempty rfl
    · exact hbefore v hv

end Vendored

section Success

theorem World.Compiles.exists_prepare (h : u.Compiles id s c)
    (hh : ∀ path, IsHash (u.graph.knownHash (u.previous? id) path)) :
    ∃ m changed u', u.prepare id .default = (.ok (m, changed), u') := by
  have htranspile : ∃ m, u.graph.transpile u.disk id s .default (u.previous? id) = .ok m :=
    exists_transpile h.compiled hh
  have hsame := u.sameModules_obtain id .default (u.previous? id)
  obtain ⟨fetched, hfetched, hprevious⟩ :=
    exists_obtain (o := .default) (u.previous? id) rfl h.source
  rw [World.prepare]
  rw [show (u.graph.modules.find? id).or (u.graph.loadPersisted? u.disk id) = u.previous? id
    from rfl]
  rcases ho : u.obtain id .default (u.previous? id) with ⟨cause | (_ | s'), u₁⟩
  · rw [ho] at hfetched
    cases hfetched
  · rw [ho] at hfetched
    obtain ⟨m, hm⟩ := Option.isSome_iff_exists.1 (hprevious (Except.ok.inj hfetched).symm)
    rw [hm]
    exact ⟨_, _, _, rfl⟩
  · have hs : u.source? id = some s' := source?_of_obtain rfl (by rw [ho])
    obtain rfl := Option.some_inj.1 (h.source.symm.trans hs)
    rw [ho] at hsame
    obtain ⟨m, hm⟩ := htranspile
    dsimp only
    rw [hsame.transpile, hm]
    exact ⟨_, _, _, rfl⟩

/-- What a task is about can be compiled from scratch, and what the run has finished is what comes of
that. -/
structure Run.Ready (w : World) (S : String → Prop) (had : String → Source → Prop) (r : Run)
    (t : Task) : Prop where
  recorded : r.Recorded False (fun _ ↦ True) (Derived False w S had) w
  cleaned : r.Cleaned False w S
  proper : t.Proper
  belongs : t.Belongs r w S
  compiles : ∀ id ∈ t.ids, S id ∧ ∃ record code, Clean w id record code

theorem feasible_ready {known : List String} (hw : w.Regular S) (hr : Remembers w S had)
    (hQ : Standard Options.Plain False w (Derived False w S had))
    (hsep : ∀ x, S x → ModuleId.isRemote x ∨ w.Separate x)
    (hknown : ∀ x, S x → (w.source? x).isSome → x ∈ known) :
    Feasible known (Run.Ready w S had) := by
  have hT : Faithful False fun _ ↦ True := False.elim
  have htexts : ∀ u : World, u.Each fun _ ↦ True := fun _ _ _ _ ↦ trivial
  have hdefault : Options.default.Plain := ⟨rfl, rfl⟩
  have hup : ∀ {u id o m changed}, w.Worked u → S id → o.Plain → Prepares u id o m changed →
      w.UpToDate m := fun hu ↦ (hu.agrees hsep).upToDate
  refine ⟨fun {r id} h hrem hv ↦ ?_, fun {r id} h hrem hv ↦ ?_,
    fun {r inner id m changed world ds} h _ _ hp hy ↦ ?_, fun {r importer d rest} h ↦ ?_,
    fun {r r' importer d rest m} h hy ↦ ?_⟩
  · obtain ⟨hS, record, code, hclean⟩ := h.compiles id List.mem_cons_self
    obtain ⟨s, c, hc, -⟩ := hclean.source
    have hu := h.recorded.worked
    have hprevious : ∀ m ∈ r.world.previous? id, Known False r.world.graph.store m := by
      intro m hm
      rcases Option.or_eq_some_iff.1 hm with hm | ⟨-, hm⟩
      · exact (h.recorded.sound.world.modules id m hm).1
      · exact (h.recorded.sound.world.load hT h.proper hm).1
    obtain ⟨m, changed, world, hp⟩ := ((hw.compiles_iff (hu.agrees hsep) hS).2 hc).exists_prepare
      (isHash_knownHash h.recorded.sound.world hprevious)
    refine ⟨hknown id hS (Option.isSome_of_eq_some hc.source), m, changed, world, hp, ?_⟩
    obtain ⟨hq, hin⟩ := h.recorded.inside hT hQ h.proper hdefault hp
    obtain ⟨-, -, hproper⟩ := h.recorded.sound.inside hT h.proper hp
    have hid := (Prepares.of_eq hp).id_eq
    have hcurrent := hq.current (hid ▸ hS) hw hr (hup hu hS hdefault (Prepares.of_eq hp))
    refine ⟨hin, h.cleaned.inside hp h.belongs.2, hproper, ⟨⟨m, rfl, rfl⟩, fun d hd _ ↦
      hcurrent.draws hd⟩, fun x hx ↦ ?_⟩
    obtain ⟨d, hd, rfl⟩ := List.mem_map.1 hx
    have hdraws := hid ▸ hcurrent.draws hd
    exact ⟨hw.closed _ _ hS hdraws, hclean.of_draws hdraws⟩
  · obtain ⟨hS, -⟩ := h.compiles id List.mem_cons_self
    obtain ⟨m, hm, -⟩ := h.cleaned.finished id hS hv fun x hx ↦
      h.cleaned.ne_of_mem_stack hw hS h.belongs.2 hx
    have hm := hm.resolve_right fun hx ↦ by
      rw [remoteModule?, hrem] at hx
      cases hx
    refine Option.isSome_iff_exists.1 ?_
    rw [Option.isSome_or, show r.world.graph.modules.find? id = some m from hm, Option.isSome_some,
      Bool.or_true]
  · obtain ⟨-, hin, hproper⟩ := h.recorded.sound.inside hT h.proper hp
    exact exists_relink (hy.sound hT hin hproper (htexts _)).2.isHash m
  · refine ⟨h.recorded, h.cleaned, (h.proper d List.mem_cons_self).2, h.belongs.first, fun x hx ↦ ?_⟩
    rw [List.mem_singleton.1 hx]
    exact h.compiles d.path List.mem_cons_self
  · have hvisit := (h.proper d List.mem_cons_self).2
    have hstack := hy.frame.2 fun _ h ↦ Outcome.noConfusion h
    refine ⟨h.recorded.after hT hy hvisit (fun _ h ↦ Outcome.noConfusion h) (htexts _)
        (hy.recorded hT hQ h.recorded hvisit hdefault (htexts _)).1, ?_,
      fun d' hd ↦ h.proper d' (List.mem_cons_of_mem d hd), h.belongs.rest hstack,
      fun x hx ↦ h.compiles x (List.mem_cons_of_mem _ hx)⟩
    exact ((hy.cleans hT hw hr hQ hup h.recorded h.cleaned hvisit hdefault h.belongs.first
      (htexts _)).2 fun _ h ↦ Outcome.noConfusion h).1

end Success

section Comparison

structure Seasoned (F : Prop) (T : String → Prop) (w : World) (S : String → Prop)
    (had : String → Source → Prop) : Prop where
  regular : w.Regular S
  remembers : Remembers w S had
  standard : Standard Options.Plain F w (Derived F w S had)
  separate : ∀ x, S x → ModuleId.isRemote x ∨ w.Separate x
  sound : Sound F T w
  recorded : Recorded T (Derived F w S had) w
  supplies : w.Supplies w F S

theorem Derived.restrict {S' : String → Prop} (h : Derived F w S had m) (hS : ∀ x, S' x → S x) :
    Derived F w S' had m :=
  fun hm ↦ h (hS _ hm)

theorem isRemote_of_draws {a b : String} (h : w.Draws a b) (ha : ModuleId.isRemote a) :
    ModuleId.isRemote b := by
  obtain ⟨s, c, hc, hb⟩ := h
  exact (proper_of_leads ((Compiled.compile_linked hc.compiled).2.1 b hb)).2 ha

theorem World.Regular.namesFile (hw : w.Regular S) {a b : String} (ha : S a) (h : w.Draws a b) :
    ModuleId.NamesFile b := by
  obtain ⟨s, c, hc, hb⟩ := h
  refine Linkage.namesFile_of_leads (l := w.graph.linkage w.disk a) fun locate? ↦ ?_
  have hcompiled : Compiled.compile ((w.graph.linkage w.disk a).among locate?) s.dialect s.text
      w.graph.settings.sourceMap = .ok c :=
    (Compiled.compile_among (hw.explicit a s ha hc.source) _).trans hc.compiled
  exact (Compiled.compile_linked hcompiled).2.1 b hb

theorem seasoned_of_history (h : History World.Incremental (w :: ws)) (hT : Faithful F T)
    (ht : ∀ v ∈ w :: ws, v.Each (T ·.code)) (hw : w.Regular S)
    (hnamed : ∀ x, S x → ModuleId.NamesFile x)
    (hsep : ∀ v ∈ w :: ws, ∀ x, S x → ModuleId.isRemote x ∨ v.Separate x)
    (htold : ∀ v ∈ w :: ws, ∀ x s s', S x → v.source? x = some s → w.source? x = some s' →
      contentHash s.text = contentHash s'.text → s.text = s'.text) :
    Seasoned F T w S (hadIn (w :: ws)) := by
  have hmem : w ∈ w :: ws := List.mem_cons_self
  have hQ : ∀ {S' : String → Prop}, (∀ x, S' x → S x) → ∀ v ∈ w :: ws,
      Standard Options.Plain F v (Derived F w S' (hadIn (w :: ws))) := fun hS v hv ↦
    standard_derived (sameTerms_of_history h v hv).settings.symm (fun x hx ↦ hsep v hv x (hS x hx))
      fun x s _ hs ↦ ⟨v, hv, hs⟩
  have hr := remembers_of_history h hnamed htold
  have hsound := sound_of_history h hT ht
  refine ⟨hw, hr, hQ (fun _ hx ↦ hx) w hmem, hsep w hmem, hsound w hmem,
    recorded_of_history h (fun _ _ ↦ Event.plain_of_incremental) hT ht (hQ fun _ hx ↦ hx) w hmem, ?_⟩
  -- the remote modules draw on remote ones only, whose sources have always been what they are
  have hsup := supplies_of_history h hT ht
    (hw.restrict (fun x hx ↦ hx.1) fun a b ha hd ↦
      ⟨hw.closed a b ha.1 hd, isRemote_of_draws hd ha.2⟩)
    (fun x hx ↦ hx.2)
    ⟨fun x s hx ↦ hr.remote x s hx.1, fun x s s' hx ↦ hr.unique x s s' hx.1⟩
    (hQ fun x (hx : S x ∧ ModuleId.isRemote x) ↦ hx.1) w hmem
  exact fun x m hS hm ↦ hsup x m ⟨hS, ((hsound w hmem).remote x m hm).2.2⟩ hm

/-- A call that ends with a module leaves all that the module draws on as it is compiled from
scratch. -/
theorem Seasoned.clean_of_compile {w' : World} {m₀ : Module} (h : Seasoned F T w S had)
    (hT : Faithful F T) (hF : F) (hok : w.compile text .default = (.ok m₀, w')) (hS : S m₀.id)
    (ht : w'.Each (T ·.code)) {x : String} (hx : ReflTransGen w.Draws m₀.id x) :
    ∃ m, w'.Has x m ∧ Clean w x m.record m.code := by
  obtain ⟨r, hy, hs, he, rfl, htraverse, hcovers, -⟩ := traversal_of_compile hok
  have hsame := World.sameGraph_persistAliases r.world r.visited
  have hup : ∀ {u id o m changed}, w.Worked u → S id → o.Plain → Prepares u id o m changed →
      w.UpToDate m := fun hu ↦ (hu.agrees h.separate).upToDate
  have htexts : r.world.Each (T ·.code) := fun id m hm ↦ ht id m (hsame.has.2 hm)
  have hsound := (hy.sound hT h.sound.run (proper_entryId he) htexts).1
  have hcleaned := ((hy.cleans hT h.regular h.remembers h.standard hup
    (recorded_start h.sound h.recorded) (cleaned_start h.supplies) (proper_entryId he) ⟨rfl, rfl⟩
    ⟨rfl, fun _ h ↦ by cases h⟩ htexts).2 fun _ h ↦ Outcome.noConfusion h).1
  have hstack : ∀ y, ∀ m ∈ r.stack, m.id ≠ y := fun y m hm ↦ by
    rw [hs] at hm
    cases hm
  -- what is covered has been finished in this run or was registered among the remote modules
  have hfound : ∀ y, S y → r.Covers (r.world.persistAliases r.visited) y →
      ∃ m, r.world.Has y m ∧ Clean w y m.record m.code ∧
        ∀ d ∈ m.dependencies, r.Covers (r.world.persistAliases r.visited) d.path := by
    rintro y hy (hv | ⟨m, hm⟩)
    · obtain ⟨m, hm, hclean⟩ := hcleaned.finished y hy hv (hstack y)
      obtain ⟨m', hm', hd⟩ := htraverse.finished y hv (hstack y)
      obtain rfl := hsound.has_unique hm hm'
      exact ⟨m, hm, hclean hF, fun d hd' ↦ (hd d hd').1⟩
    · rw [hsame.remote] at hm
      obtain ⟨hclean, hd⟩ := hcleaned.remote y m hy hm
      refine ⟨m, .inr hm, hclean hF, fun d hd' ↦ .inr ?_⟩
      rw [hsame.remote]
      exact hd d hd'
  have hall : S x ∧ ∃ m, r.world.Has x m ∧ Clean w x m.record m.code ∧
      ∀ d ∈ m.dependencies, r.Covers (r.world.persistAliases r.visited) d.path := by
    induction hx with
    | refl => exact ⟨hS, hfound _ hS hcovers⟩
    | tail _ hd ih =>
      obtain ⟨hy, m, -, hclean, hcov⟩ := ih
      obtain ⟨d, hmem, rfl⟩ := hclean.exists_dependency hd
      have hz := h.regular.closed _ _ hy hd
      exact ⟨hz, hfound _ hz (hcov d hmem)⟩
  obtain ⟨-, m, hm, hclean, -⟩ := hall
  exact ⟨m, hsame.has.2 hm, hclean⟩

theorem Seasoned.compile_of_clean {record : ModuleMeta} {code : String}
    (h : Seasoned False (fun _ ↦ True) w S had) (hl : w.Listed)
    (hnamed : ∀ x, S x → ModuleId.NamesFile x) (hid : w.entryId text = .ok id) (hS : S id)
    (hclean : Clean w id record code) : ∃ m, (w.compile text .default).1 = .ok m := by
  have hknown : ∀ x, S x → (w.source? x).isSome → x ∈ w.knownIds := by
    intro x hx hs
    obtain ⟨s, hs⟩ := Option.isSome_iff_exists.1 hs
    exact World.mem_knownIds hl (hnamed x hx) hs
  have hready : Run.Ready w S had (Run.start w) (.visit id .default) := by
    refine ⟨recorded_start h.sound h.recorded, cleaned_start h.supplies, proper_entryId hid,
      ⟨rfl, fun _ h ↦ by cases h⟩, fun x hx ↦ ?_⟩
    rw [List.mem_singleton.1 hx]
    exact ⟨hS, record, code, hclean⟩
  obtain ⟨m, r, -, hc⟩ :=
    exists_compile (feasible_ready h.regular h.remembers h.standard h.separate hknown) hid hready
  exact ⟨m, by rw [hc]⟩

section

variable (h : History World.Incremental (w :: ws)) (hw : w.Regular S)
  (hnamed : ∀ x, S x → ModuleId.NamesFile x)
  (hsep : ∀ v ∈ w :: ws, ∀ x, S x → ModuleId.isRemote x ∨ v.Separate x)
  (htold : ∀ v ∈ w :: ws, ∀ x s s', S x → v.source? x = some s → w.source? x = some s' →
    contentHash s.text = contentHash s'.text → s.text = s'.text)
  (hid : w.entryId text = .ok id) (hS : S id)

include h hw hnamed hsep htold hid hS

theorem clean_of_history (hc : NoCollision ((w.compile text .default).2 :: w :: ws))
    (hok : ∃ m, (w.compile text .default).1 = .ok m) (x : String) (hx : ReflTransGen w.Draws id x) :
    ∃ m, (w.compile text .default).2.Has x m ∧ Clean w x m.record m.code := by
  obtain ⟨m₀, hok⟩ := hok
  have hcompile : w.compile text .default = (.ok m₀, (w.compile text .default).2) :=
    Prod.ext hok rfl
  have hm₀ : m₀.id = id := by
    obtain ⟨r, -, -, he, -⟩ := traversal_of_compile hcompile
    exact Except.ok.inj (he.symm.trans hid)
  have hT := faithful_heldIn ((w.compile text .default).2 :: w :: ws)
  have hseasoned := seasoned_of_history h hT (fun v hv ↦ each_heldIn (List.mem_cons_of_mem _ hv)) hw
    hnamed hsep htold
  rw [← hm₀] at hx hS
  exact hseasoned.clean_of_compile hT hc hcompile hS (each_heldIn List.mem_cons_self) hx

theorem compile_of_history (hl : w.Listed) {record : ModuleMeta} {code : String}
    (hclean : Clean w id record code) : ∃ m, (w.compile text .default).1 = .ok m :=
  (seasoned_of_history h False.elim (fun _ _ _ _ _ ↦ trivial) hw hnamed hsep htold).compile_of_clean
    hl hnamed hid hS hclean

end

/-- Two graphs that have been used compile a module to the same if the modules that it draws on have
the same sources. -/
theorem compile_eq_of_agrees {us : List World} (h : History World.Incremental (w :: ws))
    (h' : History World.Incremental (u :: us)) (hw : w.Regular S) (hagrees : w.Agrees u S)
    (hnamed : ∀ x, S x → ModuleId.NamesFile x)
    (hsep : ∀ v ∈ w :: ws, ∀ x, S x → ModuleId.isRemote x ∨ v.Separate x)
    (hsep' : ∀ v ∈ u :: us, ∀ x, S x → ModuleId.isRemote x ∨ v.Separate x)
    (htold : ∀ v ∈ w :: ws, ∀ x s s', S x → v.source? x = some s → w.source? x = some s' →
      contentHash s.text = contentHash s'.text → s.text = s'.text)
    (htold' : ∀ v ∈ u :: us, ∀ x s s', S x → v.source? x = some s → u.source? x = some s' →
      contentHash s.text = contentHash s'.text → s.text = s'.text)
    (hid : w.entryId text = .ok id) (hid' : u.entryId text = .ok id) (hS : S id) (hl : w.Listed)
    (hl' : u.Listed) (hc : NoCollision ((w.compile text .default).2 :: w :: ws))
    (hc' : NoCollision ((u.compile text .default).2 :: u :: us)) :
    ((∃ m, (w.compile text .default).1 = .ok m) ↔ ∃ m, (u.compile text .default).1 = .ok m) ∧
    ((∃ m, (w.compile text .default).1 = .ok m) → ∀ x, ReflTransGen w.Draws id x → ∃ m m',
      (w.compile text .default).2.Has x m ∧ (u.compile text .default).2.Has x m' ∧
        m.record = m'.record ∧ m.code = m'.code) := by
  have hu := hw.agrees hagrees
  have hback : u.Agrees w S :=
    ⟨hagrees.settings.symm, fun x hx ↦ (hagrees.sources x hx).symm⟩
  have hreach : ∀ x, ReflTransGen w.Draws id x → S x ∧ ReflTransGen u.Draws id x := by
    intro x hx
    induction hx with
    | refl => exact ⟨hS, .refl⟩
    | tail _ hd ih => exact ⟨hw.closed _ _ ih.1 hd, ih.2.tail ((hw.draws_iff hagrees ih.1).2 hd)⟩
  have hstep := clean_of_history h hw hnamed hsep htold hid hS hc
  have hstep' := clean_of_history h' hu hnamed hsep' htold' hid' hS hc'
  have hiff : (∃ m, (w.compile text .default).1 = .ok m) ↔
      ∃ m, (u.compile text .default).1 = .ok m := by
    constructor
    · rintro hok
      obtain ⟨m, -, hclean⟩ := hstep hok id .refl
      exact compile_of_history h' hu hnamed hsep' htold' hid' hS hl' (hclean.agrees hw hagrees hS)
    · rintro hok
      obtain ⟨m, -, hclean⟩ := hstep' hok id .refl
      exact compile_of_history h hw hnamed hsep htold hid hS hl (hclean.agrees hu hback hS)
  refine ⟨hiff, fun hok x hx ↦ ?_⟩
  obtain ⟨hSx, hx'⟩ := hreach x hx
  obtain ⟨m, hm, hclean⟩ := hstep hok x hx
  obtain ⟨m', hm', hclean'⟩ := hstep' (hiff.1 hok) x hx'
  obtain ⟨hrecord, hcode⟩ := (hclean.agrees hw hagrees hSx).unique hclean'
  exact ⟨m, m', hm, hm', hrecord, hcode⟩

def World.Closure (w : World) (id : String) : String → Prop :=
  ReflTransGen w.Draws id

theorem namesFile_normalizeId (hid : normalizeId text = .ok id)
    (h : ModuleId.isRemote id ∨ (Dialect.ofPath? id).isSome) : ModuleId.NamesFile id := by
  rw [normalizeId] at hid
  split at hid
  · next hr =>
    cases hn : ModuleId.normalizeRemote text with
    | error cause => rw [hn] at hid; cases hid
    | ok url =>
      rw [hn] at hid
      rw [← Except.ok.inj hid]
      exact .inl (ModuleId.isRemote_of_normalizeRemote hr hn)
  · exact h.imp_right fun hext ↦ ⟨hext, text, (Except.ok.inj hid).symm⟩

theorem World.Regular.namesFile_of_closure (hw : w.Regular (w.Closure id))
    (hid : ModuleId.NamesFile id) {x : String} (hx : w.Closure id x) : ModuleId.NamesFile x := by
  cases hx with
  | refl => exact hid
  | tail ha hd => exact hw.namesFile ha hd

/-- Whatever a graph has been used for, it compiles a module just if a new one over an empty store
does, and leaves all that the module draws on with the same records and the same code. -/
theorem compile_eq_of_fresh {w₀ : World} (h : History World.Incremental (w :: ws)) (hfresh : w₀.Fresh)
    (hterms : w.SameTerms w₀) (hlisted : w.Listed) (hid : normalizeId text = .ok id)
    (hext : ModuleId.isRemote id ∨ (Dialect.ofPath? id).isSome)
    (hacyclic : ∀ x, w.Closure id x → ¬TransGen w.Draws x x)
    (hexplicit : ∀ x s, w.Closure id x → w.source? x = some s →
      (w.graph.linkage w.disk x).Explicit s.dialect s.text)
    (hsame : ∀ x, w.Closure id x → w₀.source? x = w.source? x)
    (hsep : ∀ v ∈ w₀ :: w :: ws, ∀ x, w.Closure id x → ModuleId.isRemote x ∨ v.Separate x)
    (htold : ∀ v ∈ ws, ∀ x s s', w.Closure id x → v.source? x = some s → w.source? x = some s' →
      contentHash s.text = contentHash s'.text → s.text = s'.text)
    (hc : NoCollision ((w.compile text .default).2 :: w :: ws))
    (hc₀ : NoCollision [(w₀.compile text .default).2, w₀]) :
    ((∃ m, (w.compile text .default).1 = .ok m) ↔ ∃ m, (w₀.compile text .default).1 = .ok m) ∧
    ((∃ m, (w.compile text .default).1 = .ok m) → ∀ x, w.Closure id x → ∃ m m₀,
      (w.compile text .default).2.Has x m ∧ (w₀.compile text .default).2.Has x m₀ ∧
        m.record = m₀.record ∧ m.code = m₀.code) := by
  have hnames := namesFile_normalizeId hid hext
  have hw : w.Regular (w.Closure id) := ⟨fun _ _ ha hd ↦ ha.tail hd, hacyclic, hexplicit⟩
  have hentry : ∀ v : World, v.entryId text = .ok id := fun v ↦ entryId_eq_ok hid hnames
  have hlisted₀ : w₀.Listed := by
    rw [World.Listed, hterms.otherwise]
    exact hlisted
  refine compile_eq_of_agrees h (.start hfresh) hw ⟨hterms.settings, hsame⟩
    (fun x hx ↦ hw.namesFile_of_closure hnames hx) (fun v hv ↦ hsep v (List.mem_cons_of_mem w₀ hv))
    ?_ ?_ ?_ (hentry w) (hentry w₀) .refl hlisted hlisted₀ hc hc₀
  · intro v hv
    rw [List.mem_singleton.1 hv]
    exact hsep w₀ List.mem_cons_self
  · intro v hv x s s' hx hs hs' he
    rcases List.mem_cons.1 hv with rfl | hv
    · rw [Option.some_inj.1 (hs.symm.trans hs')]
    · exact htold v hv x s s' hx hs hs' he
  · intro v hv x s s' _ hs hs' _
    rw [List.mem_singleton.1 hv] at hs
    rw [Option.some_inj.1 (hs.symm.trans hs')]

end Comparison

section Pair

theorem source_pairWorld :
    (pairWorld.source? "/a.js").map (fun s ↦ (s.text, s.dialect)) = some ("import\"./b.js\"", .js) ∧
    (pairWorld.source? "/b.js").map (fun s ↦ (s.text, s.dialect)) = some ("", .js) :=
  ⟨rfl, rfl⟩

theorem dependencies_pairWorld :
    (Compiled.compile (pairWorld.graph.linkage pairWorld.disk "/a.js") .js "import\"./b.js\""
      false).toOption.map (·.dependencies) = some ["/b.js"] ∧
    (Compiled.compile (pairWorld.graph.linkage pairWorld.disk "/b.js") .js ""
      false).toOption.map (·.dependencies) = some [] := by
  decide +kernel

theorem specifiers_pairWorld : ∀ source ∈ ["import\"./b.js\"", ""],
    (Script.template? .js source).all (fun template ↦ template.all fun
      | .specifier value => value.toText = "./b.js"
      | .text _ => true) = true := by
  decide +kernel

variable {a b : String} {s : Source}

theorem source_of_pairWorld (ha : a = "/a.js" ∨ a = "/b.js") (hs : pairWorld.source? a = some s) :
    s.dialect = .js ∧
      (a = "/a.js" ∧ s.text = "import\"./b.js\"" ∨ a = "/b.js" ∧ s.text = "") := by
  rcases ha with rfl | rfl
  · have h := source_pairWorld.1
    rw [hs] at h
    obtain ⟨ht, hd⟩ := Prod.mk.inj (Option.some_inj.1 h)
    exact ⟨hd, .inl ⟨rfl, ht⟩⟩
  · have h := source_pairWorld.2
    rw [hs] at h
    obtain ⟨ht, hd⟩ := Prod.mk.inj (Option.some_inj.1 h)
    exact ⟨hd, .inr ⟨rfl, ht⟩⟩

theorem draws_pairWorld (ha : a = "/a.js" ∨ a = "/b.js") (h : pairWorld.Draws a b) :
    a = "/a.js" ∧ b = "/b.js" := by
  obtain ⟨s, c, ⟨hs, hc⟩, hb⟩ := h
  obtain ⟨hd, ⟨rfl, ht⟩ | ⟨rfl, ht⟩⟩ := source_of_pairWorld ha hs
  · have hdeps := dependencies_pairWorld.1
    rw [hd, ht] at hc
    rw [show Compiled.compile _ _ _ false = _ from hc] at hdeps
    rw [show c.dependencies = ["/b.js"] from Option.some_inj.1 hdeps] at hb
    exact ⟨rfl, List.mem_singleton.1 hb⟩
  · have hdeps := dependencies_pairWorld.2
    rw [hd, ht] at hc
    rw [show Compiled.compile _ _ _ false = _ from hc] at hdeps
    rw [show c.dependencies = [] from Option.some_inj.1 hdeps] at hb
    cases hb

theorem imports_pairWorld : pairWorld.Draws "/a.js" "/b.js" := by
  obtain ⟨s, hs, he⟩ := Option.map_eq_some_iff.1 source_pairWorld.1
  obtain ⟨ht, hd⟩ := Prod.mk.inj he
  obtain ⟨c, hc, hdeps⟩ := Option.map_eq_some_iff.1 dependencies_pairWorld.1
  refine ⟨s, c, ⟨hs, ?_⟩, hdeps ▸ List.mem_cons_self⟩
  rw [ht, hd]
  change Compiled.compile _ _ _ false = _
  cases hx : Compiled.compile (pairWorld.graph.linkage pairWorld.disk "/a.js") .js
      "import\"./b.js\"" false with
  | error cause => rw [hx] at hc; cases hc
  | ok c' => rw [hx] at hc; rw [Option.some_inj.1 hc]

theorem regular_pairWorld : pairWorld.Regular fun x ↦ x = "/a.js" ∨ x = "/b.js" := by
  refine ⟨fun a b ha h ↦ .inr (draws_pairWorld ha h).2, fun a ha h ↦ ?_, fun a s ha hs ↦ ?_⟩
  · obtain ⟨b, hb, hback⟩ := TransGen.head'_iff.1 h
    obtain ⟨rfl, rfl⟩ := draws_pairWorld ha hb
    rcases hback.cases_head with he | ⟨c, hc, -⟩
    · exact absurd he (by decide)
    · exact absurd (draws_pairWorld (.inr rfl) hc).1 (by decide)
  · intro template ht value hv
    obtain ⟨hd, htext⟩ := source_of_pairWorld ha hs
    have hmem : s.text ∈ ["import\"./b.js\"", ""] := by
      rcases htext with ⟨-, h⟩ | ⟨-, h⟩ <;> rw [h]
      · exact List.mem_cons_self
      · exact List.mem_cons_of_mem _ List.mem_cons_self
    have hall := specifiers_pairWorld s.text hmem
    rw [hd] at ht
    rw [ht] at hall
    have hvalue : value.toText = "./b.js" :=
      of_decide_eq_true (List.all_eq_true.1 hall _ hv)
    rw [hvalue]
    refine Linkage.isExplicit_of_path rfl ?_
    rcases ha with rfl | rfl <;> rfl

theorem compile_eq_pairWorld : ∃ w m m₀, (pairWorld.compile "a.js" .default).2 = w ∧
    History World.Incremental [w, pairWorld] ∧ (w.compile "a.js" .default).2.Has "/b.js" m ∧
      w.Has "/b.js" m₀ ∧ m.record = m₀.record ∧ m.code = m₀.code := by
  have hh : History World.Incremental [pairWorld.react (.compile "a.js" .default), pairWorld] :=
    .step (.start fresh_pairWorld) (pairWorld.admits_compile "a.js" .default) (.inl rfl)
  have hworked := World.worked_compile (sound_of_fresh (F := False) (T := fun _ ↦ True)
    fresh_pairWorld) "a.js" .default
  have hsettled := settled_pairWorld
  have hsound := sound_pairWorld
  obtain ⟨m₁, w, hcompile, -, hpair⟩ := exists_compile_pairWorld
  have hfresh := fresh_pairWorld
  rw [World.react_compile] at hh
  rw [hcompile] at hh hworked hsettled hsound
  have hsep : ∀ x, x = "/a.js" ∨ x = "/b.js" → ModuleId.isRemote x ∨ pairWorld.Separate x :=
    fun x hx ↦ .inr (separate_pairWorld hx)
  have hregular := regular_pairWorld.agrees (hworked.agrees hsep)
  have hclosure : ∀ x, w.Closure "/a.js" x → x = "/a.js" ∨ x = "/b.js" := by
    intro x hx
    induction hx with
    | refl => exact .inl rfl
    | tail _ hd ih => exact hregular.closed _ _ ih hd
  have hsource : ∀ x, w.Closure "/a.js" x → pairWorld.source? x = w.source? x :=
    fun x hx ↦ (hworked.source? (hsep x (hclosure x hx))).symm
  have hid : normalizeId "a.js" = .ok "/a.js" := rfl
  have hc₀ := noCollision_pairWorld hpair
  have hb : w.Closure "/a.js" "/b.js" :=
    .single ((regular_pairWorld.draws_iff (hworked.agrees hsep) (.inl rfl)).2 imports_pairWorld)
  obtain ⟨_, r, -, -, -, hkeeps, hwarm⟩ :=
    hsettled.compile hsound (entryId_a w) (.inl rfl)
  have hc : NoCollision [(w.compile "a.js" .default).2, w, pairWorld] := by
    refine hc₀.cons fun x m hm ↦ (hkeeps x m).1 ?_
    rw [hwarm] at hm
    exact (World.sameGraph_persistAliases _ _).has.1 hm
  obtain ⟨-, hsame⟩ := compile_eq_of_fresh hh hfresh hworked.toSameTerms.symm
    (by rw [World.Listed, hworked.otherwise]; exact nofun) hid (.inr rfl)
    (fun x hx ↦ hregular.acyclic x (hclosure x hx))
    (fun x s hx ↦ hregular.explicit x s (hclosure x hx)) hsource
    (by
      intro v hv x hx
      rcases List.mem_cons.1 hv with rfl | hv
      · exact hsep x (hclosure x hx)
      · rcases List.mem_cons.1 hv with rfl | hv
        · exact (hsep x (hclosure x hx)).imp_right hworked.separate
        · rw [List.mem_singleton.1 hv]
          exact hsep x (hclosure x hx))
    (by
      intro v hv x s s' hx hs hs' _
      rw [List.mem_singleton.1 hv, hsource x hx, hs'] at hs
      rw [Option.some_inj.1 hs])
    hc (by rw [hcompile]; exact hc₀)
  obtain ⟨m, m₀, hm, hm₀, hrecord, hcode⟩ := hsame ⟨_, by rw [hwarm]⟩ "/b.js" hb
  rw [hcompile] at hm₀
  exact ⟨w, m, m₀, by rw [hcompile], hh, hm, hm₀, hrecord, hcode⟩

end Pair
end SiteCompiler.Graph
