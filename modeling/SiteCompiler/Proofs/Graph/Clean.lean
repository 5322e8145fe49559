import SiteCompiler.Proofs.Graph.Recorded

namespace SiteCompiler.Graph

open Relation (TransGen)
open Digest (contentHash IsHash)
open HashSlot (Linked)

namespace World

/-- A module has a source, and this is what comes of it. -/
structure Compiles (w : World) (id : String) (s : Source) (c : Compiled) : Prop where
  source : w.source? id = some s
  compiled : Compiled.compile (w.graph.linkage w.disk id) s.dialect s.text
    w.graph.settings.sourceMap = .ok c

/-- The source of the first module imports the second one. -/
def Draws (w : World) (a b : String) : Prop :=
  ∃ s c, w.Compiles a s c ∧ b ∈ c.dependencies

/-- Modules without cycles among all that they draw on, whose sources name files with their
extensions. -/
structure Regular (w : World) (S : String → Prop) : Prop where
  closed : ∀ a b, S a → w.Draws a b → S b
  acyclic : ∀ a, S a → ¬TransGen w.Draws a a
  explicit : ∀ a s, S a → w.source? a = some s →
    (w.graph.linkage w.disk a).Explicit s.dialect s.text

def sourceFor? (w : World) (id : String) (o : Options) : Option Source :=
  match o.source? with
  | some text => some (.ofText text (o.dialect?.getD .js))
  | none => w.source? id

theorem sourceFor?_eq {w : World} {id : String} {o : Options} (h : o.source? = none) :
    w.sourceFor? id o = w.source? id := by
  rw [sourceFor?, h]

/-- A module is recorded for the source that it has; that of a remote module does not change. -/
def UpToDate (w : World) (m : Module) : Prop :=
  ModuleId.isRemote m.id ∨ ∃ s, w.source? m.id = some s ∧ m.sourceHash = s.hash

end World

def World.Confirms (w : World) (m : Module) : Prop :=
  ModuleId.isRemote m.id ∧ ModuleId.isLoopback m.id = false ∨
    ∃ s, w.source? m.id = some s ∧ m.sourceHash = s.hash

inductive Clean (w : World) : String → ModuleMeta → String → Prop
  | mk {id code : String} {s : Source} {c : Compiled} {changed : Bool}
      (out : String → ModuleMeta × String) (compiles : w.Compiles id s c)
      (below : ∀ p ∈ c.dependencies, Clean w p (out p).1 (out p).2)
      (filled : HashSlot.fill c.code c.slots (c.dependencies.map fun p ↦ (out p).1.hash) =
        some (changed, code)) :
      Clean w id ⟨id, s.dialect, s.hash, contentHash code,
        c.dependencies.map fun p ↦ ⟨p, (out p).1.hash⟩, c.slots, ModuleId.isRemote id⟩ code

structure Derives (F : Prop) (m : Module) (s : Source) (c : Compiled) : Prop where
  dialect : m.dialect = s.dialect
  sourceHash : m.sourceHash = s.hash
  dependencies : m.dependencies.map (·.path) = c.dependencies
  slots : m.slots = c.slots
  code : F → ∃ changed,
    HashSlot.fill c.code c.slots (m.dependencies.map (·.hash)) = some (changed, m.code)

/-- A module of certain ones is made of a source that it had, compiled with the settings of a world
among some files. -/
def Derived (F : Prop) (w : World) (S : String → Prop) (had : String → Source → Prop) (m : Module) :
    Prop :=
  S m.id → ∃ s c locate?, had m.id s ∧
    Compiled.compile ((w.graph.linkage w.disk m.id).among locate?) s.dialect s.text
      w.graph.settings.sourceMap = .ok c ∧ Derives F m s c

def Current (F : Prop) (w : World) (m : Module) : Prop :=
  ∃ s c, w.Compiles m.id s c ∧ Derives F m s c

/-- Sources that modules had: those of a remote one are all the same, and those of a local one are
told apart by their hashes. -/
structure Remembers (w : World) (S : String → Prop) (had : String → Source → Prop) : Prop where
  remote : ∀ x s, S x → ModuleId.isRemote x → had x s → w.source? x = some s
  unique : ∀ x s s', S x → had x s → w.source? x = some s' → s.hash = s'.hash → s = s'

variable {F : Prop} {T : String → Prop} {w w' v : World} {S : String → Prop}
  {had : String → Source → Prop} {m m' : Module} {id : String} {s s' : Source} {c c' : Compiled}

theorem World.Compiles.unique (h : w.Compiles id s c) (h' : w.Compiles id s' c') :
    s = s' ∧ c = c' := by
  obtain rfl := Option.some_inj.1 (h.source.symm.trans h'.source)
  exact ⟨rfl, Except.ok.inj (h.compiled.symm.trans h'.compiled)⟩

theorem Clean.unique {record record' : ModuleMeta} {code code' : String}
    (h : Clean w id record code) (h' : Clean w id record' code') : record = record' ∧ code = code' := by
  induction h generalizing record' code' with
  | @mk id code s c changed out hc _ hf ih =>
    cases h' with
    | mk out' hc' hbelow hf' =>
      obtain ⟨rfl, rfl⟩ := hc.unique hc'
      have hhash : ∀ p ∈ c.dependencies, (out p).1.hash = (out' p).1.hash := fun p hp ↦ by
        rw [(ih p hp (hbelow p hp)).1]
      have hmap : c.dependencies.map (fun p ↦ (out p).1.hash) =
          c.dependencies.map fun p ↦ (out' p).1.hash := List.map_congr_left hhash
      have hdeps : c.dependencies.map (fun p ↦ Dependency.mk p (out p).1.hash) =
          c.dependencies.map fun p ↦ ⟨p, (out' p).1.hash⟩ :=
        List.map_congr_left fun p hp ↦ by rw [hhash p hp]
      rw [hmap, hf'] at hf
      obtain ⟨-, rfl⟩ := Prod.mk.inj (Option.some_inj.1 hf)
      rw [hdeps]
      exact ⟨rfl, rfl⟩

theorem Clean.source {record : ModuleMeta} {code : String} (h : Clean w id record code) :
    ∃ s c, w.Compiles id s c ∧ ∀ p ∈ c.dependencies, ∃ record code, Clean w p record code := by
  cases h with
  | mk out hc hb _ => exact ⟨_, _, hc, fun p hp ↦ ⟨_, _, hb p hp⟩⟩

theorem Current.draws (h : Current F w m) {d : Dependency} (hd : d ∈ m.dependencies) :
    w.Draws m.id d.path := by
  obtain ⟨s, c, hc, hm⟩ := h
  exact ⟨s, c, hc, hm.dependencies ▸ List.mem_map_of_mem hd⟩

theorem Clean.of_current (hF : F) (h : Current F w m) (hh : m.hash = contentHash m.code)
    (hr : m.isRemote = ModuleId.isRemote m.id)
    (hd : ∀ d ∈ m.dependencies, ∃ record code, Clean w d.path record code ∧ d.hash = record.hash) :
    Clean w m.id m.record m.code := by
  obtain ⟨s, c, hc, hm⟩ := h
  have hex : ∀ p, ∃ o : ModuleMeta × String, p ∈ c.dependencies → Clean w p o.1 o.2 := by
    intro p
    by_cases hp : p ∈ c.dependencies
    · rw [← hm.dependencies] at hp
      obtain ⟨d, hd', rfl⟩ := List.mem_map.1 hp
      obtain ⟨record, code, hclean, -⟩ := hd d hd'
      exact ⟨(record, code), fun _ ↦ hclean⟩
    · exact ⟨(m.record, m.code), fun h ↦ absurd h hp⟩
  obtain ⟨out, hout⟩ := Classical.axiomOfChoice hex
  have hhash : ∀ d ∈ m.dependencies, (out d.path).1.hash = d.hash := by
    intro d hd'
    obtain ⟨record, code, hclean, he⟩ := hd d hd'
    have hp : d.path ∈ c.dependencies := hm.dependencies ▸ List.mem_map_of_mem hd'
    rw [he, (hclean.unique (hout _ hp)).1]
  obtain ⟨changed, hf⟩ := hm.code hF
  have hmap : c.dependencies.map (fun p ↦ (out p).1.hash) = m.dependencies.map (·.hash) := by
    rw [← hm.dependencies, List.map_map]
    exact List.map_congr_left hhash
  have hdeps : c.dependencies.map (fun p ↦ Dependency.mk p (out p).1.hash) = m.dependencies := by
    rw [← hm.dependencies, List.map_map]
    refine (List.map_congr_left fun d hd' ↦ ?_).trans (List.map_id _)
    rw [Function.comp_apply, hhash d hd']
    rfl
  have hclean := Clean.mk out hc hout (hmap ▸ hf)
  rw [hdeps, ← hm.dialect, ← hm.sourceHash, ← hm.slots, ← hh, ← hr] at hclean
  exact hclean

section Standards

theorem Derives.congr (h : Derives F m s c) (hr : m'.record = m.record)
    (hc : F → m'.code = m.code) : Derives F m' s c where
  dialect := (congrArg ModuleMeta.dialect hr).trans h.dialect
  sourceHash := (congrArg ModuleMeta.sourceHash hr).trans h.sourceHash
  dependencies := (congrArg (·.dependencies.map (·.path)) hr).trans h.dependencies
  slots := (congrArg ModuleMeta.slots hr).trans h.slots
  code := fun hF ↦ by
    rw [hc hF, show m'.dependencies = m.dependencies from congrArg ModuleMeta.dependencies hr]
    exact h.code hF

theorem relink_source {g : Graph} {ds : List Dependency} (h : g.relink m ds = .ok m') :
    m'.dialect = m.dialect ∧ m'.sourceHash = m.sourceHash ∧ m'.slots = m.slots := by
  obtain ⟨changed, code, -, rfl⟩ := relink_eq_ok h
  cases changed <;> exact ⟨rfl, rfl, rfl⟩

theorem Derives.relink {g : Graph} {ds : List Dependency} {blank : List String}
    (h : Derives F m s c) (hc : Linked c.code blank c.slots)
    (hb : blank.length = m.dependencies.length ∧ ∀ i < blank.length, blank[i]? = some "")
    (hm : Known F g.store m) (hd : Resettled m.dependencies ds) (hr : g.relink m ds = .ok m') :
    Derives F m' s c := by
  obtain ⟨hdialect, hsource, hslots⟩ := relink_source hr
  have hdeps := relink_dependencies hr
  refine ⟨hdialect.trans h.dialect, hsource.trans h.sourceHash, ?_, hslots.trans h.slots, ?_⟩
  · rw [hdeps, hd.paths, h.dependencies]
  · intro hF
    obtain ⟨old, hold⟩ := h.code hF
    have hlink := hm.linked hF
    have hlink' := (hm.relink hd hr).linked hF
    obtain ⟨changed, code, hf, he⟩ := relink_eq_ok hr
    have hlength : (m.dependencies.map (·.hash)).length = (ds.map (·.hash)).length := by
      have := congrArg List.length hd.paths
      simpa using this.symm
    have hhash : ∀ hash ∈ ds.map (·.hash), IsHash hash := by
      intro hash hx
      obtain ⟨d, hd', rfl⟩ := List.mem_map.1 hx
      exact hd.isHash d hd'
    have hcode : HashSlot.fill m.code m.slots (ds.map (·.hash)) = some (changed, m'.code) := by
      rw [hf, he]
      obtain ⟨_, _, hf', hsame, -⟩ := hlink.fill hlength hhash hd.known
      rw [hf] at hf'
      obtain ⟨rfl, rfl⟩ := Prod.mk.inj (Option.some_inj.1 hf')
      cases changed with
      | true => rfl
      | false => rw [hsame rfl]; rfl
    rw [h.slots] at hcode hlink
    rw [hslots, h.slots, hdeps] at hlink'
    rw [hdeps]
    refine hc.fill_of_fill hold hcode hlink hlink' ?_ hhash fun i hi ↦ hb.2 i ?_
    · rw [hb.1, ← hlength, List.length_map]
    · have hlt := (List.getElem?_eq_some_iff.1 hi).1
      rw [hb.1]
      rwa [← hlength, List.length_map] at hlt

theorem Derives.relink_of_compile {g : Graph} {ds : List Dependency} {l : Linkage} {dialect : Dialect}
    {text : String} {withMap : Bool} (h : Derives F m s c)
    (hc : Compiled.compile l dialect text withMap = .ok c) (hm : Known F g.store m)
    (hd : Resettled m.dependencies ds) (hr : g.relink m ds = .ok m') : Derives F m' s c := by
  refine h.relink (Compiled.compile_linked hc).2.2 ⟨?_, ?_⟩ hm hd hr
  · rw [List.length_map, ← h.dependencies, List.length_map]
  · intro i hi
    rw [List.length_map] at hi
    rw [List.getElem?_map, List.getElem?_eq_getElem hi]
    rfl

theorem derives_of_transpile {g : Graph} {disk : Disk} {o : Options} {previous : Option Module}
    (h : g.transpile disk id s o previous = .ok m) : ∃ c,
      Compiled.compile (g.linkage disk id) (o.dialect?.getD s.dialect) s.text g.settings.sourceMap =
        .ok c ∧
      Derives F m { s with dialect := o.dialect?.getD s.dialect } c := by
  obtain ⟨c, changed, code, hc, hf, rfl⟩ := transpile_eq_ok h
  refine ⟨c, hc, rfl, rfl, ?_, rfl, fun _ ↦ ⟨changed, ?_⟩⟩
  · change (c.dependencies.map fun path ↦ Dependency.mk path _).map (·.path) = _
    rw [List.map_map]
    exact List.map_id _
  · change HashSlot.fill c.code c.slots
      ((c.dependencies.map fun path ↦ Dependency.mk path _).map (·.hash)) = _
    rw [List.map_map]
    exact hf

theorem exists_transpile {g : Graph} {disk : Disk} {o : Options} {previous : Option Module}
    (hc : Compiled.compile (g.linkage disk id) (o.dialect?.getD s.dialect) s.text
      g.settings.sourceMap = .ok c)
    (hh : ∀ path, IsHash (g.knownHash previous path)) :
    ∃ m, g.transpile disk id s o previous = .ok m := by
  have hhash : ∀ hash ∈ (c.dependencies.map fun path ↦
      Dependency.mk path (g.knownHash previous path)).map (·.hash), IsHash hash := by
    intro hash hm
    obtain ⟨d, hd, rfl⟩ := List.mem_map.1 hm
    obtain ⟨path, -, rfl⟩ := List.mem_map.1 hd
    exact hh path
  obtain ⟨r, hr⟩ := HashSlot.exists_fill hhash c.code c.slots
  rw [transpile]
  dsimp only
  rw [hc]
  dsimp only
  rw [hr]
  exact ⟨_, rfl⟩

theorem sourceFor?_of_obtain {o : Options} {previous : Option Module}
    (h : (w.obtain id o previous).1 = .ok (some s)) : w.sourceFor? id o = some s := by
  have hnewer : ∀ s', newer previous s' = some s → s' = s := by
    intro s' hn
    rw [newer] at hn
    split at hn
    · cases hn
    · exact Option.some_inj.1 hn
  rw [World.obtain] at h
  rw [World.sourceFor?]
  cases ho : o.source? with
  | some text =>
    rw [ho] at h
    exact congrArg some (hnewer _ (Except.ok.inj h))
  | none =>
    rw [ho] at h
    dsimp only at h ⊢
    split at h
    · cases h
    · rw [World.source?]
      split at h
      · cases h
      · next hl =>
        rw [hl]
        exact congrArg some (hnewer _ (Except.ok.inj h))

/-- A source that does not have to be compiled has the recorded hash, unless it is a remote one that is
not looked at. -/
theorem recorded_or_of_obtain {o : Options} {previous : Option Module}
    (h : (w.obtain id o previous).1 = .ok none) :
    (o.source? = none ∧ ModuleId.isRemote id = true ∧ ModuleId.isLoopback id = false) ∨
      ∃ s, w.sourceFor? id o = some s ∧ previous.map (·.sourceHash) = some s.hash := by
  have hnewer : ∀ s, newer previous s = none → previous.map (·.sourceHash) = some s.hash := by
    intro s hn
    rw [newer] at hn
    split at hn
    · next he => exact he
    · cases hn
  rw [World.obtain] at h
  rw [World.sourceFor?]
  cases ho : o.source? with
  | some text =>
    rw [ho] at h
    exact .inr ⟨_, rfl, hnewer _ (Except.ok.inj h)⟩
  | none =>
    rw [ho] at h
    dsimp only at h ⊢
    split at h
    · next hr =>
      rw [Bool.and_eq_true, Bool.and_eq_true, Bool.not_eq_true'] at hr
      exact .inl ⟨rfl, hr.1.1, hr.2⟩
    · rw [World.source?]
      split at h
      · cases h
      · next s _ hl =>
        rw [hl]
        exact .inr ⟨s, rfl, hnewer s (Except.ok.inj h)⟩

theorem source?_of_obtain {o : Options} {previous : Option Module} (ho : o.source? = none)
    (h : (w.obtain id o previous).1 = .ok (some s)) : w.source? id = some s := by
  rw [← World.sourceFor?_eq ho]
  exact sourceFor?_of_obtain h

/-- A source that can be had is obtained, unless there is a record to be taken in its place. -/
theorem exists_obtain {o : Options} (previous : Option Module) (ho : o.source? = none)
    (h : w.source? id = some s) : ∃ fetched, (w.obtain id o previous).1 = .ok fetched ∧
      (fetched = none → previous.isSome) := by
  rw [World.obtain, ho]
  dsimp only
  split
  · next hr =>
    rw [Bool.and_eq_true, Bool.and_eq_true] at hr
    exact ⟨none, rfl, fun _ ↦ hr.1.2⟩
  · rw [World.source?] at h
    split
    · next hl =>
      rw [hl] at h
      cases h
    · refine ⟨_, rfl, fun hn ↦ ?_⟩
      rw [newer] at hn
      split at hn
      · next he =>
        obtain ⟨m, hm, -⟩ := Option.map_eq_some_iff.1 he
        exact Option.isSome_of_eq_some hm
      · cases hn

theorem confirms_of_prepares {o : Options} {changed : Bool} (ho : o.Plain)
    (h : Prepares w id o m changed) : w.Confirms m := by
  have hid := h.id_eq
  cases h with
  | compiled hs ht =>
    obtain ⟨c, _, code, -, -, rfl⟩ := transpile_eq_ok ht
    exact .inr ⟨_, source?_of_obtain ho.1 hs, rfl⟩
  | @recorded m hs hp =>
    rw [hp] at hs
    obtain rfl : m.id = id := hid
    refine (recorded_or_of_obtain hs).imp And.right fun ⟨s, hs, he⟩ ↦ ⟨s, ?_, Option.some_inj.1 he⟩
    rw [← World.sourceFor?_eq ho.1]
    exact hs

theorem upToDate_of_prepares {o : Options} {changed : Bool} (ho : o.Plain)
    (h : Prepares w id o m changed) : w.UpToDate m :=
  (confirms_of_prepares ho h).imp_left And.left

theorem linkage_eq_among {disk disk' : Disk} {g g' : Graph} (h : g'.settings = g.settings)
    (id : String) :
    g'.linkage disk' id = (g.linkage disk id).among (g'.folder.canonicalId? disk') := by
  rw [linkage, linkage, h]
  rfl

theorem standard_derived (hset : v.graph.settings = w.graph.settings)
    (hsep : ∀ x, S x → ModuleId.isRemote x ∨ v.Separate x)
    (hhad : ∀ x s, S x → v.source? x = some s → had x s) :
    Standard Options.Plain F v (Derived F w S had) := by
  refine ⟨⟨rfl, rfl⟩, fun {m m'} hr hc hd hS ↦ ?_, fun {u id o s previous m} hu _ ho hs ht hS ↦ ?_, ?_⟩
  · have hid : m'.id = m.id := congrArg ModuleMeta.sourceFile hr
    rw [hid] at hS ⊢
    obtain ⟨s, c, locate?, hs, hcomp, hm⟩ := hd hS
    exact ⟨s, c, locate?, hs, hcomp, hm.congr hr hc⟩
  · obtain ⟨c, hc, hm⟩ := derives_of_transpile (F := F) ht
    obtain ⟨_, _, _, -, -, rfl⟩ := transpile_eq_ok ht
    have hid : S id := hS
    have hdialect : o.dialect?.getD s.dialect = s.dialect := by rw [ho.2, Option.getD_none]
    rw [hdialect, linkage_eq_among (hu.settings.trans hset), hu.settings.trans hset] at hc
    refine ⟨s, c, _, hhad id s hid ?_, hc, hm.dialect.trans hdialect, hm.sourceHash, hm.dependencies,
      hm.slots, hm.code⟩
    rw [← hu.source? (hsep id hid)]
    exact source?_of_obtain ho.1 hs
  · intro g m m' ds hm hq hd hr hS
    have hid := (relink_id hr).1
    rw [hid] at hS ⊢
    obtain ⟨s, c, locate?, hs, hcomp, hder⟩ := hq hS
    exact ⟨s, c, locate?, hs, hcomp, hder.relink_of_compile hcomp hm hd hr⟩

end Standards

section Visited

variable {v : World} {S : String → Prop} {r r' inner : Run} {o : Options} {changed : Bool}
  {world : World} {m' : Module}

theorem World.Worked.confirms (h : v.Worked w)
    (hsep : ModuleId.isRemote m.id ∨ v.Separate m.id) : w.Confirms m ↔ v.Confirms m := by
  rw [World.Confirms, World.Confirms, h.source? hsep]

theorem World.Confirms.relink {g : Graph} {ds : List Dependency} (h : w.Confirms m)
    (hl : g.relink m ds = .ok m') : w.Confirms m' := by
  rw [World.Confirms, (relink_id hl).1, (relink_source hl).2.1]
  exact h

structure Run.Checked (v : World) (S : String → Prop) (r : Run) : Prop where
  stack : ∀ m ∈ r.stack, S m.id → v.Confirms m
  finished : ∀ x ∈ r.visited, (∀ m ∈ r.stack, m.id ≠ x) →
    ∃ m, r.world.Has x m ∧ (S x → v.Confirms m)

theorem Run.Checked.inside (h : r.Checked v S) (hv : v.Worked r.world) (ho : o.Plain)
    (hsep : ∀ x, S x → ModuleId.isRemote x ∨ v.Separate x)
    (hp : r.world.prepare id o = (.ok (m, changed), world)) :
    ((r.entered id world).inside m).Checked v S := by
  have hid := (Prepares.of_eq hp).id_eq
  refine ⟨fun x hx hS ↦ ?_, fun x hx hne ↦ ?_⟩
  · rcases List.mem_cons.1 hx with rfl | hx
    · exact (hv.confirms (hsep _ hS)).1 (confirms_of_prepares ho (Prepares.of_eq hp))
    · exact h.stack x hx hS
  · have hx : x ∈ r.visited :=
      (List.mem_cons.1 hx).resolve_left fun he ↦ hne m List.mem_cons_self (hid.trans he.symm)
    obtain ⟨m', hm', hc⟩ := h.finished x hx fun y hy ↦ hne y (List.mem_cons_of_mem m hy)
    exact ⟨m', (World.prepare_eq hp).1.has.2 hm', hc⟩

theorem Run.Checked.finish (h : inner.Checked v S) (hs : inner.stack = m :: r.stack)
    (hid : m'.id = m.id) (hc : S m.id → v.Confirms m') (changed : Bool) :
    (inner.finished r.stack m' changed).Checked v S := by
  have hstack := h.stack
  rw [hs] at hstack
  refine ⟨fun x hx ↦ hstack x (List.mem_cons_of_mem m hx), fun x hx hne ↦ ?_⟩
  by_cases hm : m'.id = x
  · exact ⟨m', hm ▸ inner.world.has_finish_self m' changed, fun hS ↦ hc (hid ▸ hm ▸ hS)⟩
  · obtain ⟨m₀, hm₀, hc₀⟩ := h.finished x hx fun y hy ↦ by
      rw [hs] at hy
      rcases List.mem_cons.1 hy with rfl | hy
      · exact fun he ↦ hm (hid.trans he)
      · exact hne y hy
    exact ⟨m₀, (inner.world.has_finish_of_ne changed hm m₀).2 hm₀, hc₀⟩

theorem Yields.checks (hsep : ∀ x, S x → ModuleId.isRemote x ∨ v.Separate x) {t : Task}
    {out : Outcome} (h : Yields r t out r') (hs : r.Sound False fun _ ↦ True) (hv : v.Worked r.world)
    (ht : t.Proper) (hto : t.Within Options.Plain) (hr : r.Checked v S)
    (hout : ∀ stop, out ≠ .stopped stop) : r'.Checked v S := by
  have hall : ∀ w : World, w.Each fun _ ↦ True := fun _ _ _ _ ↦ trivial
  have hstack : ∀ {r r' : Run} {importer : String} {ds ds' : List Dependency} {changed : Bool},
      Yields r (.settle importer ds) (.settled ds' changed) r' → r'.stack = r.stack :=
    fun hb ↦ hb.frame.2 fun _ h ↦ Outcome.noConfusion h
  induction h with
  | deep => exact hr
  | vendored => exact hr
  | again => exact ⟨hr.stack, hr.finished⟩
  | lost => exact ⟨hr.stack, hr.finished⟩
  | unprepared => exact absurd rfl (hout _)
  | leaf _ _ hp _ =>
    have hin := hr.inside hv hto hsep hp
    exact hin.finish rfl rfl (hin.stack _ List.mem_cons_self) _
  | dropped => exact absurd rfl (hout _)
  | kept _ _ hp _ hb ih =>
    obtain ⟨-, hs', ht'⟩ := hs.inside False.elim ht hp
    have hin := hr.inside hv hto hsep hp
    exact (ih hs' (hv.trans (World.worked_prepare hp)) ht' trivial hin
      fun _ h ↦ Outcome.noConfusion h).finish (hstack hb) rfl (hin.stack _ List.mem_cons_self) _
  | broken => exact absurd rfl (hout _)
  | relinked _ _ hp _ hb hl ih =>
    obtain ⟨-, hs', ht'⟩ := hs.inside False.elim ht hp
    have hin := hr.inside hv hto hsep hp
    exact (ih hs' (hv.trans (World.worked_prepare hp)) ht' trivial hin
      fun _ h ↦ Outcome.noConfusion h).finish (hstack hb) (relink_id hl).1
      (fun hS ↦ (hin.stack _ List.mem_cons_self hS).relink hl) _
  | done => exact hr
  | failed => exact absurd rfl (hout _)
  | cut => exact absurd rfl (hout _)
  | @next r r' r'' importer d rest settled m changed hf ho ih ih' =>
    obtain ⟨hframe, hst⟩ := hf.frame
    have hvisit := (ht d List.mem_cons_self).2
    have hs' := hs.after hframe (hst fun _ h ↦ Outcome.noConfusion h)
      (hf.sound False.elim hs hvisit (hall _)).1
    exact ih' hs' (hv.trans (hf.worked hs hvisit)) (fun d' hd ↦ ht d' (List.mem_cons_of_mem d hd))
      trivial (ih hs hv hvisit ⟨rfl, rfl⟩ hr fun _ h ↦ Outcome.noConfusion h)
      fun _ h ↦ Outcome.noConfusion h

end Visited

section Agreement

variable {u : World} {a b : String}

/-- Certain modules have the same sources in two worlds, and they are compiled in the same way. -/
structure World.Agrees (w u : World) (S : String → Prop) : Prop where
  settings : u.graph.settings = w.graph.settings
  sources : ∀ x, S x → u.source? x = w.source? x

namespace World.Regular

theorem compiles_iff (hw : w.Regular S) (h : w.Agrees u S) (hS : S id) :
    u.Compiles id s c ↔ w.Compiles id s c := by
  have hcompile : w.source? id = some s →
      Compiled.compile (u.graph.linkage u.disk id) s.dialect s.text u.graph.settings.sourceMap =
        Compiled.compile (w.graph.linkage w.disk id) s.dialect s.text
          w.graph.settings.sourceMap := by
    intro hs
    rw [linkage_eq_among h.settings, h.settings, Compiled.compile_among (hw.explicit id s hS hs)]
  constructor
  · rintro ⟨hs, hc⟩
    rw [h.sources id hS] at hs
    exact ⟨hs, hcompile hs ▸ hc⟩
  · rintro ⟨hs, hc⟩
    exact ⟨(h.sources id hS).trans hs, (hcompile hs).trans hc⟩

theorem draws_iff (hw : w.Regular S) (h : w.Agrees u S) (hS : S a) : u.Draws a b ↔ w.Draws a b :=
  exists_congr fun _ ↦ exists_congr fun _ ↦ and_congr_left fun _ ↦ hw.compiles_iff h hS

/-- Along a chain of modules the first of which is among the regular ones the rest is as well. -/
theorem transGen (hw : w.Regular S) (h : TransGen (fun a b ↦ S a → w.Draws a b) a b) (ha : S a) :
    TransGen w.Draws a b ∧ S b := by
  induction h with
  | single h => exact ⟨.single (h ha), hw.closed _ _ ha (h ha)⟩
  | tail _ h ih => exact ⟨.tail ih.1 (h ih.2), hw.closed _ _ ih.2 (h ih.2)⟩

theorem agrees (hw : w.Regular S) (h : w.Agrees u S) : u.Regular S where
  closed := fun a b ha hd ↦ hw.closed a b ha ((hw.draws_iff h ha).1 hd)
  acyclic := fun a ha hcycle ↦
    have hcycle := TransGen.mono (fun _ _ hd ha ↦ (hw.draws_iff h ha).1 hd) a a hcycle
    hw.acyclic a ha (hw.transGen hcycle ha).1
  explicit := fun a s ha hs ↦ by
    rw [linkage_eq_among h.settings]
    exact (hw.explicit a s ha ((h.sources a ha).symm.trans hs)).among

theorem restrict (hw : w.Regular S) {S' : String → Prop} (hS : ∀ a, S' a → S a)
    (hclosed : ∀ a b, S' a → w.Draws a b → S' b) : w.Regular S' :=
  ⟨hclosed, fun a ha ↦ hw.acyclic a (hS a ha), fun a s ha ↦ hw.explicit a s (hS a ha)⟩

end World.Regular

theorem Clean.agrees {record : ModuleMeta} {code : String} (hw : w.Regular S) (h : w.Agrees u S)
    (hc : Clean w id record code) (hS : S id) : Clean u id record code := by
  induction hc with
  | @mk id code s c changed out hc _ hf ih =>
    exact .mk out ((hw.compiles_iff h hS).2 hc)
      (fun p hp ↦ ih p hp (hw.closed _ _ hS ⟨s, c, hc, hp⟩)) hf

theorem Clean.of_draws {record : ModuleMeta} {code : String} (h : Clean w a record code)
    (hd : w.Draws a b) : ∃ record code, Clean w b record code := by
  obtain ⟨s, c, hc, hb⟩ := hd
  obtain ⟨s', c', hc', hbelow⟩ := h.source
  obtain ⟨rfl, rfl⟩ := hc.unique hc'
  exact hbelow b hb

theorem Clean.exists_dependency {record : ModuleMeta} {code : String} (h : Clean w a record code)
    (hd : w.Draws a b) : ∃ d ∈ record.dependencies, d.path = b := by
  obtain ⟨s, c, hc, hb⟩ := hd
  cases h with
  | mk out hc' _ _ =>
    obtain ⟨rfl, rfl⟩ := hc.unique hc'
    exact ⟨_, List.mem_map_of_mem hb, rfl⟩

theorem World.Worked.agrees (h : w.Worked u) (hsep : ∀ x, S x → ModuleId.isRemote x ∨ w.Separate x) :
    w.Agrees u S :=
  ⟨h.settings, fun x hx ↦ h.source? (hsep x hx)⟩

theorem World.Agrees.upToDate {o : Options} {changed : Bool} (h : w.Agrees u S) (hS : S id)
    (ho : o.Plain) (hp : Prepares u id o m changed) : w.UpToDate m := by
  refine (upToDate_of_prepares ho hp).imp_right fun ⟨s, hs, he⟩ ↦ ⟨s, ?_, he⟩
  rw [← h.sources _ (hp.id_eq ▸ hS)]
  exact hs

end Agreement

theorem Derived.current (h : Derived F w S had m) (hS : S m.id) (hw : w.Regular S)
    (hr : Remembers w S had) (hu : w.UpToDate m) : Current F w m := by
  obtain ⟨s, c, locate?, hs, hc, hm⟩ := h hS
  have hsource : w.source? m.id = some s := by
    rcases hu with hrem | ⟨s', hs', he⟩
    · exact hr.remote _ s hS hrem hs
    · rw [hr.unique _ s s' hS hs hs' (hm.sourceHash.symm.trans he)]
      exact hs'
  rw [Compiled.compile_among (hw.explicit _ s hS hsource)] at hc
  exact ⟨s, c, ⟨hsource, hc⟩, hm⟩

end SiteCompiler.Graph
