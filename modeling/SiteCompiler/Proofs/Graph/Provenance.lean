import SiteCompiler.Proofs.Graph.Calls
import SiteCompiler.Proofs.Graph.Clean

namespace SiteCompiler

/-- What a module has of its source: all but the hashes of its dependencies, and what is named after
them. -/
structure Outline where
  dialect : Dialect
  dependencies : List String
  slots : List HashSlot
  /-- The code with zeros in all slots. -/
  code : List Char
deriving DecidableEq

def Module.outline (m : Module) : Outline :=
  ⟨m.dialect, m.dependencies.map (·.path), m.slots, HashSlot.blank m.slots m.code.toList⟩

def Compiled.outline (c : Compiled) (dialect : Dialect) : Outline :=
  ⟨dialect, c.dependencies, c.slots, HashSlot.blank c.slots c.code.toList⟩

namespace Graph

/-- A module was compiled in the course of a history, as options of a kind say, from a source that it
had then. -/
structure Transpiled (O : Options → Prop) (ws : List World) (u : World) (o : Options) (s : Source)
    (m : Module) : Prop where
  worked : ∃ v ∈ ws, v.Worked u
  within : O o
  source : u.sourceFor? m.id o = some s
  compiled : ∃ previous, u.graph.transpile u.disk m.id s o previous = .ok m

/-- The first module is recorded for the source of the second one, and has the same of it; that the
code is the same depends on an assumption. -/
structure StemsFrom (F : Prop) (m m₀ : Module) : Prop where
  id_eq : m.id = m₀.id
  sourceHash : m.sourceHash = m₀.sourceHash
  outline : F → m.outline = m₀.outline

def Stems (O : Options → Prop) (F : Prop) (ws : List World) (m : Module) : Prop :=
  ∃ u o s m₀, Transpiled O ws u o s m₀ ∧ StemsFrom F m m₀

variable {O : Options → Prop} {F : Prop} {T : String → Prop} {Q : Module → Prop} {w v : World}
  {ws : List World} {m m' m₀ : Module} {o : Options} {c : Compiled}

section Outlines

theorem outline_of_transpile {g : Graph} {disk : Disk} {id : String} {s : Source}
    {previous : Option Module} (h : g.transpile disk id s o previous = .ok m)
    (hc : Compiled.compile (g.linkage disk id) (o.dialect?.getD s.dialect) s.text
      g.settings.sourceMap = .ok c) : m.outline = c.outline (o.dialect?.getD s.dialect) := by
  obtain ⟨c', hc', hm⟩ := derives_of_transpile (F := True) h
  obtain rfl := Except.ok.inj (hc.symm.trans hc')
  obtain ⟨changed, hf⟩ := hm.code trivial
  rw [Module.outline, Compiled.outline, hm.dialect, hm.dependencies, hm.slots,
    (Compiled.compile_linked hc).2.2.blank_fill hf]

theorem outline_relink {g : Graph} {ds : List Dependency} (hm : Known F g.store m) (hF : F)
    (hd : Resettled m.dependencies ds) (h : g.relink m ds = .ok m') : m'.outline = m.outline := by
  obtain ⟨hdialect, -, hslots⟩ := relink_source h
  have hcode : HashSlot.blank m.slots m'.code.toList = HashSlot.blank m.slots m.code.toList := by
    obtain ⟨changed, code, hf, rfl⟩ := relink_eq_ok h
    cases changed with
    | true => exact (hm.linked hF).blank_fill hf
    | false => rfl
  rw [Module.outline, Module.outline, hdialect, hslots, relink_dependencies h, hd.paths, hcode]

theorem outline_of_record (hr : m'.record = m.record) (hc : m'.code = m.code) :
    m'.outline = m.outline := by
  have hdialect : m'.dialect = m.dialect := congrArg ModuleMeta.dialect hr
  have hdependencies : m'.dependencies = m.dependencies := congrArg ModuleMeta.dependencies hr
  have hslots : m'.slots = m.slots := congrArg ModuleMeta.slots hr
  rw [Module.outline, Module.outline, hdialect, hdependencies, hslots, hc]

end Outlines

section Histories

theorem standard_stems (hO : O .default) (hv : v ∈ ws) : Standard O F v (Stems O F ws) := by
  refine ⟨hO, fun {m m'} hr hc hm ↦ ?_, fun {u id o s previous m} hu _ ho hs ht ↦ ?_,
    fun {g m m' ds} hknown hm hd hr ↦ ?_⟩
  · obtain ⟨u, o, s, m₀, ht, hs⟩ := hm
    exact ⟨u, o, s, m₀, ht, (congrArg ModuleMeta.sourceFile hr).trans hs.id_eq,
      (congrArg ModuleMeta.sourceHash hr).trans hs.sourceHash,
      fun hF ↦ (outline_of_record hr (hc hF)).trans (hs.outline hF)⟩
  · have hid : m.id = id := by
      obtain ⟨_, _, _, -, -, rfl⟩ := transpile_eq_ok ht
      rfl
    subst hid
    exact ⟨u, o, s, m, ⟨⟨v, hv, hu⟩, ho, sourceFor?_of_obtain hs, previous, ht⟩, rfl, rfl, fun _ ↦ rfl⟩
  · obtain ⟨u, o, s, m₀, ht, hs⟩ := hm
    exact ⟨u, o, s, m₀, ht, (relink_id hr).1.trans hs.id_eq,
      (relink_source hr).2.1.trans hs.sourceHash,
      fun hF ↦ (outline_relink hknown hF hd hr).trans (hs.outline hF)⟩

end Histories

namespace Call

variable {c' : Call}

structure Recorded (O : Options → Prop) (F : Prop) (T : String → Prop) (Q : Module → Prop) (v : World)
    (c : Call) : Prop where
  run : c.run.Recorded F T Q v
  proper : ModuleId.Proper c.id
  within : O c.options
  texts : c.result.2.world.Each (T ·.code)

theorem Recorded.makes {c : Call} (h : c.Recorded O F T Q v) (hT : Faithful F T)
    (hQ : Standard O F v Q) (hm : c.Makes c') : c'.Recorded O F T Q v := by
  obtain ⟨hbegin, hend⟩ := hm.each h.run.sound.world.each h.texts
  cases hm with
  | @mk depth m changed world r d before after settled _ _ _ prepared _ deps earlier =>
    obtain ⟨-, hin⟩ := h.run.inside hT hQ h.proper h.within prepared
    obtain ⟨-, -, hproper⟩ := h.run.sound.inside hT h.proper prepared
    have hy := yields_of_settle earlier
    have hbefore : (Task.settle m.id before).Proper := fun d' hd ↦
      hproper d' (deps ▸ List.mem_append_left _ hd)
    have hd : d ∈ m.dependencies := deps ▸ List.mem_append_right _ List.mem_cons_self
    refine ⟨hin.after hT hy hbefore (fun _ h ↦ Outcome.noConfusion h) hbegin ?_, (hproper d hd).2,
      hQ.default, hend⟩
    exact (hy.recorded hT hQ hin hbefore trivial hbegin).1

theorem recorded_of_mem_calls {c : Call} {text : String} (hT : Faithful F T) (hQ : Standard O F w Q)
    (hs : Sound F T w) (hr : Graph.Recorded T Q w) (ho : O o)
    (ht : (w.compile text o).2.Each (T ·.code)) (hc : c ∈ w.calls text o) :
    c.Recorded O F T Q w := by
  cases hid : w.entryId text with
  | error cause =>
    rw [World.calls, hid] at hc
    cases hc
  | ok id =>
    rw [World.calls_eq_of_entryId hid] at hc
    refine forall_calls (P := Recorded O F T Q w) (fun _ _ h hm ↦ h.makes hT hQ hm) ?_ c hc
    refine ⟨⟨hs.run, .refl w, hr, fun _ hm ↦ by cases hm⟩, proper_entryId hid, ho, ?_⟩
    rcases World.compile_eq hid o with ⟨stop, -, he⟩ | ⟨m, -, he⟩
    · rwa [he] at ht
    · rw [he] at ht
      have hsame := World.sameGraph_persistAliases (w.entry id o).result.2.world
        (w.entry id o).result.2.visited
      exact fun id m hm ↦ ht id m (hsame.has.2 hm)

end Call
end Graph
end SiteCompiler
