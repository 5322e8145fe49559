import SiteCompiler.Proofs.Graph.Provenance

namespace SiteCompiler.Graph

/-- A property of all ids that a graph can be asked for, and of all that a specifier can lead to. -/
structure IdForm (P : String → Prop) : Prop where
  entry : ∀ {w : World} {text id : String}, w.entryId text = .ok id → P id
  leads : ∀ {g : Graph} {disk : Disk} {importer id : String},
    (g.linkage disk importer).Leads id → P id

theorem standard_of_leads {P : String → Prop} {v : World}
    (hP : ∀ {u : World} {importer id : String}, v.Worked u →
      (u.graph.linkage u.disk importer).Leads id → P id) :
    Standard (fun _ ↦ True) False v fun m ↦ ∀ d ∈ m.dependencies, P d.path := by
  refine ⟨trivial, fun {m m'} hr _ hm ↦ ?_, fun {u id o s previous m} hu _ _ _ ht ↦ ?_,
    fun {g m m' ds} _ hm hsettled hr ↦ ?_⟩
  · have hdependencies : m'.dependencies = m.dependencies := congrArg ModuleMeta.dependencies hr
    rw [hdependencies]
    exact hm
  · obtain ⟨c, _, _, hc, -, rfl⟩ := transpile_eq_ok ht
    intro d hd
    obtain ⟨path, hpath, rfl⟩ := List.mem_map.1 hd
    exact hP hu ((Compiled.compile_linked hc).2.1 path hpath)
  · intro d hd
    rw [relink_dependencies hr] at hd
    have hpath := List.mem_map_of_mem (f := Dependency.path) hd
    rw [hsettled.paths] at hpath
    obtain ⟨d', hd', he⟩ := List.mem_map.1 hpath
    rw [← he]
    exact hm d' hd'

section Calls

variable {P : String → Prop} {w : World} {id text : String} {o : Options} {m : Module}

/-- All visits of a call are to modules with a property that the entry has and everything that a
specifier can lead to, if the dependencies that are recorded have it. -/
theorem forall_calls_of_leads (hentry : ∀ id, w.entryId text = .ok id → P id)
    (hleads : ∀ {u : World} {importer id : String}, w.Worked u →
      (u.graph.linkage u.disk importer).Leads id → P id)
    (hs : Sound False (fun _ ↦ True) w)
    (hr : Recorded (fun _ ↦ True) (fun m ↦ ∀ d ∈ m.dependencies, P d.path) w) :
    ∀ c ∈ w.calls text o, P c.id := by
  intro c hc
  have hT : Faithful False fun _ ↦ True := fun hF ↦ hF.elim
  have hQ := standard_of_leads hleads
  have ht : (w.compile text o).2.Each fun _ ↦ True := fun _ _ _ ↦ trivial
  cases hid : w.entryId text with
  | error cause =>
    rw [World.calls, hid] at hc
    cases hc
  | ok id =>
    have hrecorded : ∀ c ∈ (w.entry id o).calls, c.Recorded (fun _ ↦ True) False (fun _ ↦ True)
        (fun m ↦ ∀ d ∈ m.dependencies, P d.path) w := fun c hc ↦
      Call.recorded_of_mem_calls hT hQ hs hr trivial ht ((World.calls_eq_of_entryId hid o).symm ▸ hc)
    rw [World.calls_eq_of_entryId hid] at hc
    have hfirst := hrecorded _ (Call.self_mem_calls _)
    refine (Call.forall_calls (P := fun c ↦ c.Recorded (fun _ ↦ True) False (fun _ ↦ True)
      (fun m ↦ ∀ d ∈ m.dependencies, P d.path) w ∧ P c.id) (fun c c' h hm ↦ ?_)
      ⟨hfirst, hentry id hid⟩ c hc).2
    refine ⟨h.1.makes hT hQ hm, ?_⟩
    cases hm with
    | @mk depth m changed world r d before after settled _ _ _ prepared _ deps _ =>
      obtain ⟨hm, -⟩ := h.1.run.inside hT hQ h.1.proper h.1.within prepared
      exact hm d (deps ▸ List.mem_append_right _ List.mem_cons_self)

theorem World.has_or_called_of_compile (hm : (w.compile text o).2.Has id m) :
    w.Has id m ∨ ∃ c ∈ w.calls text o, c.id = id := by
  cases hid : w.entryId text with
  | error cause =>
    rw [World.compile, hid] at hm
    exact .inl hm
  | ok entry =>
    have hyields := (w.entry entry o).yields
    have hafter : (w.entry entry o).result.2.world.Has id m := by
      rcases World.compile_eq hid o with ⟨stop, -, he⟩ | ⟨m', -, he⟩
      · rwa [he] at hm
      · rw [he] at hm
        exact (World.sameGraph_persistAliases _ _).has.1 hm
    by_cases hv : id ∈ (w.entry entry o).result.2.visited
    · obtain ⟨c, hc, -, rfl⟩ := World.exists_call_of_visited hid hv
      exact .inr ⟨c, hc, rfl⟩
    · exact .inl ((hyields.frame.1.has (.inr hv) m).1 hafter)

end Calls

namespace IdForm

variable {P : String → Prop} {w : World} {ws : List World} {id text : String} {o : Options}
  {m : Module}

theorem standard (hP : IdForm P) (v : World) :
    Standard (fun _ ↦ True) False v fun m ↦ ∀ d ∈ m.dependencies, P d.path :=
  standard_of_leads fun _ h ↦ hP.leads h

theorem of_mem_calls (hP : IdForm P) {c : Call} (hs : Sound False (fun _ ↦ True) w)
    (hr : Recorded (fun _ ↦ True) (fun m ↦ ∀ d ∈ m.dependencies, P d.path) w)
    (hc : c ∈ w.calls text o) : P c.id :=
  forall_calls_of_leads (fun _ ↦ hP.entry) (fun _ ↦ hP.leads) hs hr c hc

theorem of_compile (hP : IdForm P) (hs : Sound False (fun _ ↦ True) w)
    (hr : Recorded (fun _ ↦ True) (fun m ↦ ∀ d ∈ m.dependencies, P d.path) w)
    (hn : ∀ id m, w.Has id m → P id) (hm : (w.compile text o).2.Has id m) : P id := by
  rcases World.has_or_called_of_compile hm with hm | ⟨c, hc, rfl⟩
  · exact hn id m hm
  · exact hP.of_mem_calls hs hr hc

theorem of_history (hP : IdForm P) {allowed : World → Event → Prop} (h : History allowed ws)
    (hw : w ∈ ws) (hm : w.Has id m) : P id := by
  have hT : Faithful False fun _ ↦ True := fun hF ↦ hF.elim
  have ht : ∀ w ∈ ws, w.Each fun _ ↦ True := fun _ _ _ _ _ ↦ trivial
  have hsound := sound_of_history h hT ht
  have hrecorded := recorded_of_history (O := fun _ ↦ True) h
    (fun _ e _ ↦ by cases e <;> trivial) hT ht fun w _ ↦ hP.standard w
  induction h generalizing w id m with
  | @start w' hf =>
    obtain rfl := List.mem_singleton.1 hw
    rcases hm with hm | hm
    · rw [module?, hf.modules] at hm
      cases hm
    · rw [remoteModule?, hf.remote] at hm
      cases hm
  | @step u ws e hb ha he ih =>
    have hbefore : ∀ {v : World} {id : String} {m : Module}, v ∈ u :: ws → v.Has id m → P id :=
      fun hv hm ↦ ih hv hm (fun v hv ↦ ht v (List.mem_cons_of_mem _ hv))
        (fun v hv ↦ hsound v (List.mem_cons_of_mem _ hv))
        fun v hv ↦ hrecorded v (List.mem_cons_of_mem _ hv)
    rcases List.mem_cons.1 hw with rfl | hw
    · cases e with
      | compile text o =>
        exact hP.of_compile (hsound u (List.mem_cons_of_mem _ List.mem_cons_self))
          (hrecorded u (List.mem_cons_of_mem _ List.mem_cons_self))
          (fun _ _ ↦ hbefore List.mem_cons_self) hm
      | remove id' =>
        refine @hbefore u id m List.mem_cons_self (hm.imp_left fun hm ↦ ?_)
        change (u.graph.modules.erase id').find? id = some m at hm
        rw [ModuleTable.find?_erase] at hm
        split at hm
        · cases hm
        · exact hm
      | edit disk network => exact hbefore List.mem_cons_self hm
      | restart folder settings => rcases hm with hm | hm <;> cases hm
    · exact hbefore hw hm

end IdForm
end SiteCompiler.Graph
