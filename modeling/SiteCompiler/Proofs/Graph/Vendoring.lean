import SiteCompiler.Proofs.Graph.IdForms
import SiteCompiler.Proofs.Graph.ResolvedIds

namespace SiteCompiler

def ModuleId.Serialized (id : String) : Prop :=
  ∃ text, normalizeRemote text = .ok id ∨ ∃ base, joinRemote base text = .ok id

namespace Graph

variable {w v : World} {ws : List World} {id text : String} {o : Options} {m : Module}

section Serialized

theorem isRemote_resolve (f : Source.Folder) (disk : Disk) (path : String) :
    ModuleId.isRemote (f.resolve disk path) = false := by
  have hrooted : ∀ names, ModuleId.isRemote (ModuleId.rooted names) = false :=
    fun _ ↦ ModuleId.isRemote_slash _
  have hs : ∀ s ∈ ModuleId.cleanSegments path, ModuleId.IsSegment s :=
    fun _ ↦ ModuleId.isSegment_of_mem_cleanSegments
  rw [Source.Folder.resolve]
  split
  · exact hrooted _
  · next hx =>
    cases hc : f.canonicalId? disk (ModuleId.normalizeLocal path) with
    | none => exact hrooted _
    | some id =>
      obtain ⟨names, -, -, rfl, -⟩ :=
        Source.Folder.canonicalId?_eq_some hs (Bool.eq_false_iff.2 hx) hc
      exact hrooted names

theorem idForm_serialized : IdForm fun id ↦ ModuleId.isRemote id = true → ModuleId.Serialized id where
  entry {w text id} h hr := by
    rcases World.url_or_resolve_of_entryId h with ⟨-, hn⟩ | ⟨path, hid⟩
    · exact ⟨text, .inl hn⟩
    · rw [hid, isRemote_resolve] at hr
      cases hr
  leads {g disk importer id} h hr := by
    rcases Linkage.remote_or_resolve_of_leads h with ⟨specifier, ht⟩ | ⟨path, hid⟩
    · obtain ⟨text, ⟨-, hn⟩ | ⟨-, -, hj⟩⟩ := Linkage.url_of_target ht
      · exact ⟨text, .inl hn⟩
      · exact ⟨text, .inr ⟨_, hj⟩⟩
    · rw [hid, isRemote_resolve] at hr
      cases hr

end Serialized

section Requests

/-- The visit requests its module: it enters a remote one, without an inline source, and without a
record unless the module is on this machine. -/
def Call.requests (c : Call) : Bool :=
  c.enters && (ModuleId.isRemote c.id && c.options.source?.isNone &&
    ((c.run.world.previous? c.id).isNone || ModuleId.isLoopback c.id))

theorem Call.logs_requests : Logs (·.world.network.requests) Call.requests where
  enters c h := by
    rw [requests, Bool.and_eq_true] at h
    exact h.1
  entered c h := by
    change (c.run.world.prepare c.id c.options).2.network.requests = _
    rw [World.network_prepare, World.requests_obtain, requests, h, Bool.true_and]
  inside _ _ := rfl
  finished r stack m changed := by
    change (r.world.finish m changed).network.requests = _
    rw [World.network_finish]
  noted _ _ := rfl

def World.requested (w : World) (text : String) (o : Options) : List String :=
  (((w.calls text o).filter (·.requests)).map (·.id)).reverse

theorem World.requests_compile (w : World) (text : String) (o : Options) :
    (w.compile text o).2.network.requests = w.requested text o ++ w.network.requests := by
  cases hid : w.entryId text with
  | error cause =>
    rw [compile, requested, calls, hid]
    rfl
  | ok id =>
    have hlog := Call.logs_requests.result (w.entry id o)
    rw [requested, calls_eq_of_entryId hid]
    rcases compile_eq hid o with ⟨stop, -, he⟩ | ⟨m, -, he⟩
    · rw [he]
      exact hlog
    · rw [he, network_persistAliases]
      exact hlog

theorem World.nodup_requested (w : World) (text : String) (o : Options) :
    (w.requested text o).Nodup := by
  cases hid : w.entryId text with
  | error cause =>
    rw [requested, calls, hid]
    exact List.nodup_nil
  | ok id =>
    have hvisited := Call.nodup_visited (w.entry id o).yields List.nodup_nil
    rw [Call.visited_result] at hvisited
    have hentered : (Call.entered (w.entry id o).calls).Nodup := by
      simpa [World.entry, Run.start] using hvisited
    have hsub : List.Sublist (((w.entry id o).calls.filter (·.requests)).map (·.id))
        (Call.entered (w.entry id o).calls) :=
      (List.monotone_filter_right _ fun c h ↦ Call.logs_requests.enters c h).map _
    rw [requested, calls_eq_of_entryId hid, List.nodup_reverse]
    exact hsub.nodup hentered

/-- A call requests only modules that are not in the graph yet, and for which the store has no record
unless they are on this machine. -/
theorem World.of_mem_requested {F : Prop} {T : String → Prop} (hs : Sound F T w) {u : String}
    (hu : u ∈ w.requested text o) : w.graph.remoteModule? u = none ∧
      ∃ c ∈ w.calls text o, c.id = u ∧ c.options.source? = none ∧ (ModuleId.isLoopback u = true ∨
        c.run.world.graph.loadPersisted? c.run.world.disk u = none) := by
  obtain ⟨c, hc, rfl⟩ := List.mem_map.1 (List.mem_reverse.1 hu)
  obtain ⟨hcall, hrequests⟩ := List.mem_filter.1 hc
  have henters := Call.logs_requests.enters c hrequests
  obtain ⟨-, hremote, -⟩ := Call.enters_iff.1 henters
  simp only [Call.requests, Bool.and_eq_true, Bool.or_eq_true, Option.isNone_iff_eq_none] at hrequests
  obtain ⟨-, ⟨-, hsource⟩, hprevious⟩ := hrequests
  refine ⟨?_, c, hcall, rfl, hsource, hprevious.symm.imp_right fun hnone ↦
    (Option.or_eq_none_iff.1 hnone).2⟩
  cases hid : w.entryId text with
  | error cause =>
    rw [calls, hid] at hcall
    cases hcall
  | ok id =>
    -- what the graph holds at the start is there during the whole run
    rw [calls_eq_of_entryId hid] at hcall
    obtain ⟨hpasses, -⟩ := Call.passes_of_mem_calls hs hid hcall
    rw [Option.eq_none_iff_forall_not_mem]
    intro m hm
    have hm := hpasses.frame.vendored c.id m hm
    rw [hremote] at hm
    cases hm

end Requests

section Lasting

/-- The later states of the graph: everything may happen but that another graph takes its place. -/
inductive World.Lasts (w : World) : World → Prop
  | refl : w.Lasts w
  | step {v : World} {e : Event} (before : w.Lasts v) (admitted : v.Admits e)
      (lasting : ∀ folder settings, e ≠ .restart folder settings) : w.Lasts (v.react e)

theorem remoteModule?_react {e : Event} (he : ∀ folder settings, e ≠ .restart folder settings)
    (hm : w.graph.remoteModule? id = some m) : (w.react e).graph.remoteModule? id = some m := by
  cases e with
  | compile text o =>
    rw [World.react_compile]
    rcases compile_cases w text o with ⟨cause, -, hc⟩ | ⟨_, r, -, ⟨stop, hy, hc⟩ | ⟨m', hy, hc⟩⟩
    · rw [hc]
      exact hm
    · rw [hc]
      exact hy.frame.1.vendored id m hm
    · rw [hc, remoteModule?, (World.sameGraph_persistAliases _ _).remote]
      exact hy.frame.1.vendored id m hm
  | remove id' => exact hm
  | edit disk network => exact hm
  | restart folder settings => exact absurd rfl (he folder settings)

theorem World.Lasts.remoteModule? (h : w.Lasts v) (hm : w.graph.remoteModule? id = some m) :
    v.graph.remoteModule? id = some m := by
  induction h with
  | refl => exact hm
  | step _ _ he ih => exact remoteModule?_react he ih

theorem World.Lasts.history (h : w.Lasts v) (hw : History (fun _ _ ↦ True) (w :: ws)) :
    ∃ vs, History (fun _ _ ↦ True) (v :: vs) := by
  induction h with
  | refl => exact ⟨ws, hw⟩
  | @step v e _ ha _ ih =>
    obtain ⟨vs, hv⟩ := ih
    exact ⟨v :: vs, .step hv ha trivial⟩

/-- A call to compile a remote module that is in the graph gives it, and does nothing. -/
theorem compile_of_remoteModule? (hid : w.entryId text = .ok id)
    (hm : w.graph.remoteModule? id = some m) (o : Options) : w.compile text o = (.ok m, w) := by
  have hdepth : w.depthBound = 2 * w.knownIds.length + 3 + 1 := rfl
  have hvisit : Run.visit w.depthBound (Run.start w) id o = (.ok m, Run.start w) := by
    have hfind : (Run.start w).world.graph.remote.find? id = some m := hm
    rw [hdepth, Run.visit, hfind]
  have hnone : w.persistAliases [] = w := by
    rw [World.persistAliases, List.filter_eq_nil_iff.2 fun a _ ↦ by simp]
    rfl
  rw [World.compile, hid]
  dsimp only
  rw [hvisit]
  exact congrArg (Prod.mk (Except.ok m)) hnone

end Lasting

/-- What a graph that was in the state `w` before does with remote modules. -/
structure World.KeepsRemote (w v : World) : Prop where
  modules : ∀ u, (v.graph.module? u).isSome → ModuleId.isRemote u = false
  remote : ∀ u, (v.graph.remoteModule? u).isSome → ModuleId.isRemote u = true
  stays : ∀ u m, w.graph.remoteModule? u = some m → v.graph.remoteModule? u = some m
  /-- The text of a URL is assumed to be read as that URL again. -/
  compile : ∀ u m, w.graph.remoteModule? u = some m →
    (ModuleId.Serialized u → ModuleId.normalizeRemote u = .ok u) →
      ∀ o, v.compile u o = (.ok m, v)
  requests : ∀ text o, ∃ urls,
    (v.compile text o).2.network.requests = urls ++ v.network.requests ∧ urls.Nodup ∧
      ∀ u ∈ urls, v.graph.remoteModule? u = none ∧ ∃ c ∈ v.calls text o, c.id = u ∧
        c.options.source? = none ∧ (ModuleId.isLoopback u = true ∨
          c.run.world.graph.loadPersisted? c.run.world.disk u = none)

theorem keepsRemote_of_history (h : History (fun _ _ ↦ True) (w :: ws)) (hl : w.Lasts v) :
    w.KeepsRemote v := by
  obtain ⟨vs, hv⟩ := hl.history h
  have hsound : Sound False (fun _ ↦ True) v :=
    sound_of_history hv (fun hF ↦ hF.elim) (fun _ _ _ _ _ ↦ trivial) v List.mem_cons_self
  refine ⟨fun u hu ↦ ?_, fun u hu ↦ ?_, fun u m hm ↦ hl.remoteModule? hm, fun u m hm hparse o ↦ ?_,
    fun text o ↦ ⟨v.requested text o, v.requests_compile text o, v.nodup_requested text o,
      fun u hu ↦ World.of_mem_requested hsound hu⟩⟩
  · obtain ⟨m, hm⟩ := Option.isSome_iff_exists.1 hu
    exact Bool.eq_false_iff.2 (hsound.modules u m hm).2.2
  · obtain ⟨m, hm⟩ := Option.isSome_iff_exists.1 hu
    exact (hsound.remote u m hm).2.2
  · have hm := hl.remoteModule? hm
    have hremote := (hsound.remote u m hm).2.2
    have hserialized := idForm_serialized.of_history hv List.mem_cons_self (.inr hm) hremote
    refine compile_of_remoteModule? ?_ hm o
    change (normalizeId u >>= _) = _
    rw [normalizeId, if_pos hremote, hparse hserialized]
    change (if (ModuleId.isRemote u || _) = true then _ else _) = _
    rw [if_pos (by rw [hremote, Bool.true_or])]
    rfl

/-- A remote module without imports, and no sources besides. -/
def vendorWorld : World :=
  ⟨.new ⟨"s", 1000⟩ ⟨"c"⟩ ⟨⟨[]⟩, true, false⟩, ⟨[], [(["s"], .directory), (["c"], .directory)]⟩,
    ⟨[("http://x/a.js", .ok ⟨200, none, "".toUTF8⟩)], .error .hostNotFound, []⟩⟩

theorem fresh_vendorWorld : vendorWorld.Fresh :=
  World.fresh_of_entries rfl rfl (by decide)

set_option maxRecDepth 8000 in
theorem remoteModule?_vendorWorld : ((vendorWorld.compile "http://x/a.js" .default).2.graph.remoteModule?
    "http://x/a.js").map (·.code) = some "" := by
  decide +kernel

theorem keepsRemote_vendorWorld : ∃ w v m, vendorWorld.react (.compile "http://x/a.js" .default) = w ∧
    w.react (.edit w.disk ⟨[], .error .connectionRefused, []⟩) = v ∧
    w.graph.remoteModule? "http://x/a.js" = some m ∧ m.code = "" ∧ w.KeepsRemote v ∧
    v.compile "http://x/a.js" .default = (.ok m, v) := by
  have hcode := remoteModule?_vendorWorld
  have hh : History (fun _ _ ↦ True)
      [vendorWorld.react (.compile "http://x/a.js" .default), vendorWorld] :=
    .step (.start fresh_vendorWorld) (vendorWorld.admits_compile "http://x/a.js" .default) trivial
  rw [← World.react_compile] at hcode
  obtain ⟨w, hw⟩ : ∃ w, vendorWorld.react (.compile "http://x/a.js" .default) = w := ⟨_, rfl⟩
  rw [hw] at hcode hh
  obtain ⟨m, hm, hc⟩ := Option.map_eq_some_iff.1 hcode
  have hl : w.Lasts (w.react (.edit w.disk ⟨[], .error .connectionRefused, []⟩)) :=
    .step .refl ⟨rfl, fun _ _ ↦ rfl⟩ fun _ _ he ↦ Event.noConfusion he
  have hv := keepsRemote_of_history hh hl
  refine ⟨w, _, m, hw, rfl, hm, hc, hv, hv.compile _ m hm (fun _ ↦ ?_) .default⟩
  decide +kernel

end Graph
end SiteCompiler
