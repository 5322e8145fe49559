import SiteCompiler.Proofs.Graph.Renewal

namespace SiteCompiler.Graph

open Relation (ReflTransGen TransGen)
open ArtifactStore (readText?)
open Digest (contentHash hashPrefix)

namespace World

def Meets (w : World) (a b : String) : Prop :=
  w.Reaches a b ∧ w.Reaches b a

/-- No module that lies on a cycle with an id imports two that lead back to it. -/
def OneWay (w : World) (id : String) : Prop :=
  ∀ x y y', w.Meets id x → w.Imports x y → w.Imports x y' → w.Reaches y x → w.Reaches y' x → y = y'

variable {w w' : World} {a b c : String} {ms : List Module}

theorem Meets.symm (h : w.Meets a b) : w.Meets b a :=
  ⟨h.2, h.1⟩

theorem Meets.trans (h : w.Meets a b) (h' : w.Meets b c) : w.Meets a c :=
  ⟨h.1.trans h'.1, h'.2.trans h.2⟩

theorem OneWay.of_meets (h : w.OneWay a) (hm : w.Meets a b) : w.OneWay b :=
  fun x y y' hx ↦ h x y y' (hm.trans hx)

theorem meets_of_imports (h : w.Imports a b) (hb : w.Reaches b a) : w.Meets a b :=
  ⟨.single h, hb⟩

/-- The cycle that is found when a module on the stack is reached again is all that lies on a cycle
with it, if there is but one. -/
theorem OneWay.mem_cycleTo (h : w.OneWay a)
    (hc : ms.IsChain fun inner outer ↦ w.Imports outer.id inner.id)
    (hi : ∀ m ∈ ms.head?, w.Imports m.id a) (ha : ∃ m ∈ ms, m.id = a) (hb : w.Meets a b) :
    b ∈ Run.cycleTo ms a := by
  have hself : a ∈ Run.cycleTo ms a := Run.mem_cycleTo.2 ⟨ha, .inl rfl⟩
  obtain ⟨hab, hba⟩ := hb
  induction hab with
  | refl => exact hself
  | @tail x y hax hxy ih =>
    have hx := ih (.head hxy hba)
    obtain ⟨z, hz, hxz⟩ := Run.exists_next_of_mem_cycleTo hc hi hx
    have hax' := (Run.leads_of_mem_cycleTo hc hi hx).1
    have hza := (Run.leads_of_mem_cycleTo hc hi hz).2.to_reflTransGen
    rw [h x y z ⟨hax, .head hxy hba⟩ hxy hxz (hba.trans hax') (hza.trans hax')]
    exact hz

end World

/-- A run knows the cycles of a world: the modules being visited import one another there and have not
been registered since the run started, and the simple cycles with modules that are finished have been
found. -/
structure Run.Circles (v w : World) (r : Run) : Prop where
  vendors : ∀ x, v.Vendors x → r.world.Vendors x
  known : ∀ x, r.world.Vendors x → v.Vendors x ∨ x ∈ r.visited
  visited : ∀ m ∈ r.stack, m.id ∈ r.visited
  apart : ∀ m ∈ r.stack, ¬r.world.Vendors m.id
  chain : r.stack.IsChain fun inner outer ↦ w.Imports outer.id inner.id
  found : ∀ x ∈ r.visited, w.OneWay x → w.OnCycle x →
    (∃ m ∈ r.stack, m.id = x) ∨ ∀ y, w.Meets x y → y ∈ r.cyclic

/-- A dependency has the hash of what it leads to, or it belongs to a simple cycle and has a name. -/
def World.Named (w : World) (importer : String) (d : Dependency) : Prop :=
  ∃ target, w.Has d.path target ∧ (d.hash = target.hash ∨
    d.hash ≠ "" ∧ w.Reaches d.path importer ∧ w.OneWay importer)

/-- A run goes on from one module to another along their imports. -/
def Task.Leads (w : World) (R : String → Prop) (N : String → Dependency → Prop) (r : Run) : Task → Prop
  | .visit id o => R id ∧ o = .default ∧ ∀ top ∈ r.stack.head?, w.Imports top.id id
  | .settle importer ds => (∃ top ∈ r.stack.head?, top.id = importer) ∧
      ∀ d ∈ ds, R d.path ∧ w.Imports importer d.path ∧ N importer d

def Task.Encircles (w : World) (r r' : Run) : Task → Prop
  | .visit id _ => ∀ top ∈ r.stack.head?, w.Reaches id top.id → w.OneWay top.id →
      ∀ y, w.Meets top.id y → y ∈ r'.cyclic
  | .settle importer ds => ∀ d ∈ ds, w.Reaches d.path importer → w.OneWay importer →
      ∀ y, w.Meets importer y → y ∈ r'.cyclic

namespace Run.Circles

variable {R : String → Prop} {v w world : World} {r r' inner : Run} {id : String} {m : Module}

theorem start (v w : World) : (Run.start v).Circles v w :=
  ⟨fun _ h ↦ h, fun _ ↦ .inl, (fun _ h ↦ by cases h), (fun _ h ↦ by cases h), .nil,
    fun _ h ↦ by cases h⟩

theorem noted (h : r.Circles v w) (id : String) : (r.noted id).Circles v w :=
  ⟨h.vendors, h.known, h.visited, h.apart, h.chain, fun x hx hone hcycle ↦
    (h.found x hx hone hcycle).imp_right fun hall y hy ↦ List.mem_append_right _ (hall y hy)⟩

theorem inside (h : r.Circles v w) (hrem : r.world.graph.remote.find? id = none)
    (hsame : r.world.SameModules world) (hid : m.id = id)
    (hi : ∀ top ∈ r.stack.head?, w.Imports top.id id) :
    ((r.entered id world).inside m).Circles v w := by
  refine ⟨fun x hx ↦ hsame.vendors_iff.2 (h.vendors x hx), fun x hx ↦ ?_, fun n hn ↦ ?_, fun n hn ↦ ?_,
    List.isChain_cons.2 ⟨fun top htop ↦ hid ▸ hi top htop, h.chain⟩, fun x hx hone hcycle ↦ ?_⟩
  · exact (h.known x (hsame.vendors_iff.1 hx)).imp_right (List.mem_cons_of_mem id)
  · rcases List.mem_cons.1 hn with rfl | hn
    · exact List.mem_cons.2 (.inl hid)
    · exact List.mem_cons_of_mem id (h.visited n hn)
  · refine (not_congr hsame.vendors_iff).2 ?_
    rcases List.mem_cons.1 hn with rfl | hn
    · rintro ⟨x, hx⟩
      rw [hid, hrem] at hx
      cases hx
    · exact h.apart n hn
  · rcases List.mem_cons.1 hx with rfl | hx
    · exact .inl ⟨m, List.mem_cons_self, hid⟩
    · refine (h.found x hx hone hcycle).imp_left ?_
      rintro ⟨y, hy, he⟩
      exact ⟨y, List.mem_cons_of_mem m hy, he⟩

theorem finished (h : inner.Circles v w) (hs : inner.stack = m :: r.stack) (hr : r.Circles v w)
    (hv : m.id ∉ r.visited)
    (hfound : w.OneWay m.id → w.OnCycle m.id → ∀ y, w.Meets m.id y → y ∈ inner.cyclic) :
    (inner.finished r.stack m false).Circles v w := by
  have hm : m ∈ inner.stack := hs ▸ List.mem_cons_self
  have hrest : ∀ n ∈ r.stack, n ∈ inner.stack := fun n hn ↦ hs ▸ List.mem_cons_of_mem m hn
  refine ⟨fun x hx ↦ World.vendors_finish.2 (.inl (h.vendors x hx)), fun x hx ↦ ?_,
    fun n hn ↦ h.visited n (hrest n hn), fun n hn hvend ↦ ?_, hr.chain, fun x hx hone hcycle ↦ ?_⟩
  · rcases World.vendors_finish.1 hx with hx | ⟨-, rfl⟩
    · exact h.known x hx
    · exact .inr (h.visited m hm)
  · rcases World.vendors_finish.1 hvend with hvend | ⟨-, he⟩
    · exact h.apart n (hrest n hn) hvend
    · exact hv (he ▸ hr.visited n hn)
  · rcases h.found x hx hone hcycle with ⟨y, hy, rfl⟩ | hall
    · rw [hs] at hy
      rcases List.mem_cons.1 hy with rfl | hy
      · exact .inr (hfound hone hcycle)
      · exact .inl ⟨y, hy, rfl⟩
    · exact .inr hall

/-- A module that is met again has been found to be on a simple cycle, or is found to be on it now. -/
theorem encircles_again (h : r.Circles v w) (hv : id ∈ r.visited)
    (hi : ∀ top ∈ r.stack.head?, w.Imports top.id id) :
    (Task.visit id .default).Encircles w r (r.noted id) := by
  intro top htop hback hone y hy
  have hmeets := World.meets_of_imports (hi top htop) hback
  have hone := hone.of_meets hmeets
  rcases h.found id hv hone (.tail' hback (hi top htop)) with hs | hall
  · exact List.mem_append_left _ (hone.mem_cycleTo h.chain hi hs (hmeets.symm.trans hy))
  · exact List.mem_append_right _ (hall y (hmeets.symm.trans hy))

theorem encircles_vendored (h : r.Circles v w) (hid : r.world.Vendors id)
    (hback : ∀ x y, v.Vendors x → w.Reaches x y → w.Imports y x → v.Vendors y)
    (hi : ∀ top ∈ r.stack.head?, w.Imports top.id id) :
    (Task.visit id .default).Encircles w r r := by
  intro top htop hreach hone y hy
  have hmeets := World.meets_of_imports (hi top htop) hreach
  have htop' := List.mem_of_mem_head? htop
  rcases h.known id hid with hv | hv
  · exact absurd (h.vendors _ (hback id top.id hv hreach (hi top htop))) (h.apart top htop')
  · rcases h.found id hv (hone.of_meets hmeets) (.tail' hreach (hi top htop)) with ⟨n, hn, rfl⟩ | hall
    · exact absurd hid (h.apart n hn)
    · exact hall y (hmeets.symm.trans hy)

end Run.Circles

section Upkeep

variable {F : Prop} {T : String → Prop} {R : String → Prop} {final : String → Module} {v w : World}
  {N : String → Dependency → Prop} {r r' : Run} {importer : String} {d : Dependency}
  {rest : List Dependency}

theorem Sound.isRemote_of_reaches (h : Sound F T w) {a b : String} (hab : w.Reaches a b)
    (ha : ModuleId.isRemote a) : ModuleId.isRemote b := by
  induction hab with
  | refl => exact ha
  | tail _ hi ih =>
    obtain ⟨m, hm, d, hd, rfl⟩ := hi
    exact ((h.known hm).dependencies d hd).2.2 (hm.id_eq ▸ ih)

/-- A remote module does not lead back to a local one. -/
theorem Sound.vendors_of_reaches (h : Sound F T w) {a b c : String} (ha : w.Vendors a)
    (hab : w.Reaches a b) (hb : w.Imports b c) : w.Vendors b := by
  obtain ⟨n, hn⟩ := ha
  obtain ⟨m, hm, -⟩ := hb
  exact ⟨m, h.remoteModule?_of_has hm (h.isRemote_of_reaches hab (h.remote a n hn).2.2)⟩

/-- Simple cycles are found in a run about modules in their final form, wherever it starts. -/
theorem course_circles (hfinal : ∀ x m, w.Has x m → m = final x)
    (hthere : ∀ x, R x → v.Vendors x ∨
      w.Has x (final x) ∧ ∀ d ∈ (final x).dependencies, R d.path ∧ N x d)
    (hback : ∀ x y, v.Vendors x → w.Reaches x y → w.Imports y x → v.Vendors y) :
    Course R final (fun r t ↦ r.Circles v w ∧ t.Leads w R N r)
      fun r t r' ↦ r'.Circles v w ∧ t.Encircles w r r' := by
  have hnew : ∀ {r : Run} {x}, r.Circles v w → R x → r.world.graph.remote.find? x = none →
      w.Has x (final x) ∧ ∀ d ∈ (final x).dependencies, R d.path ∧ N x d := by
    intro r x hr hx hrem
    refine (hthere x hx).resolve_left fun hv ↦ ?_
    obtain ⟨m, hm⟩ := hr.vendors x hv
    rw [hrem] at hm
    cases hm
  refine ⟨fun h ↦ ⟨h.2.1, h.2.2.1⟩, ?_, ?_, ?_, ?_, ?_, ?_, ?_, ?_⟩
  · rintro r id ⟨hr, -, -, hi⟩ hv
    exact ⟨hr, hr.encircles_vendored hv hback hi⟩
  · rintro r id ⟨hr, hid, -, hi⟩ - hv
    exact ⟨hr.noted id, hr.encircles_again hv hi⟩
  · rintro r id world ⟨hr, hid, -, hi⟩ hrem - hsame hname
    obtain ⟨hm, hd⟩ := hnew hr hid hrem
    rw [Task.Leads, hname]
    exact ⟨hr.inside hrem hsame hname hi, ⟨_, rfl, hname⟩, fun d hd' ↦
      ⟨(hd d hd').1, ⟨_, hm, d, hd', rfl⟩, (hd d hd').2⟩⟩
  · rintro r inner id world ⟨hr, hid, -, hi⟩ hrem hv - hname hst ⟨hinner, hall⟩
    have hfound : w.OneWay id → w.OnCycle id → ∀ y, w.Meets id y → y ∈ inner.cyclic := by
      intro hone hcycle y hy
      obtain ⟨c, ⟨m', hm', d, hd', rfl⟩, hback⟩ := TransGen.head'_iff.1 hcycle
      obtain rfl := hfinal id m' hm'
      have hcyclic := hall d hd'
      rw [hname] at hcyclic
      exact hcyclic hback hone y hy
    refine ⟨hinner.finished hst hr (hname.symm ▸ hv) (hname.symm ▸ hfound),
      fun top htop hback hone y hy ↦ ?_⟩
    have hmeets := World.meets_of_imports (hi top htop) hback
    exact hfound (hone.of_meets hmeets) (.tail' hback (hi top htop)) y (hmeets.symm.trans hy)
  · rintro r importer ⟨hr, -⟩
    exact ⟨hr, fun _ h ↦ by cases h⟩
  · rintro r importer d rest ⟨hr, ⟨top, htop, rfl⟩, hd⟩
    obtain ⟨hR, hi, -⟩ := hd d List.mem_cons_self
    refine ⟨hr, hR, rfl, fun x hx ↦ ?_⟩
    rw [Option.mem_unique hx htop]
    exact hi
  · rintro r r' importer d rest ⟨-, ⟨top, htop, rfl⟩, hd⟩ - hst ⟨hr', -⟩
    exact ⟨hr', ⟨top, hst ▸ htop, rfl⟩, fun d' hd' ↦ hd d' (List.mem_cons_of_mem d hd')⟩
  · rintro r r' r'' importer d rest ⟨-, ⟨top, htop, rfl⟩, -⟩ - hf ⟨-, hfirst⟩ ⟨hr'', hrest⟩
    refine ⟨hr'', fun d' hd' hback hone y hy ↦ ?_⟩
    rcases List.mem_cons.1 hd' with rfl | hd'
    · exact hf.cyclic y (hfirst top htop hback hone y hy)
    · exact hrest d' hd' hback hone y hy

theorem World.Named.keeps (h : w.Named importer d) (hfinal : ∀ x m, w.Has x m → m = final x)
    (ht : (Task.settle importer (d :: rest)).Leads w R N r)
    (hc : (Task.visit d.path .default).Encircles w r r') :
    d.hash = (final d.path).hash ∨ r'.keepsName importer d := by
  obtain ⟨⟨top, htop, rfl⟩, hd⟩ := ht
  obtain ⟨-, hi, -⟩ := hd d List.mem_cons_self
  obtain ⟨target, htarget, hnamed⟩ := h
  refine hnamed.imp (fun he ↦ hfinal _ _ htarget ▸ he) fun ⟨hne, hback, hone⟩ ↦ ?_
  have hcyclic := hc top htop hback hone
  rw [Run.keepsName, List.contains_iff_mem.2 (hcyclic _ (World.meets_of_imports hi hback)),
    List.contains_iff_mem.2 (hcyclic _ ⟨.refl, .refl⟩), decide_eq_true hne]
  rfl

theorem upkeep_circles (hw : w.Standing R) (hs : Sound F T w)
    (hfinal : ∀ x m, w.Has x m → m = final x)
    (hnames : ∀ x m, R x → w.graph.modules.find? x = some m → ∀ d ∈ m.dependencies, w.Named x d) :
    Upkeep R final (fun r t ↦ r.Circles w w ∧ t.Leads w R w.Named r)
      fun r t r' ↦ r'.Circles w w ∧ t.Encircles w r r' := by
  refine ⟨course_circles hfinal (fun x hx ↦ ?_) fun _ _ ↦ hs.vendors_of_reaches, ?_⟩
  · rcases hw x hx with hv | ⟨m, hm, -, hd⟩
    · exact .inl hv
    · obtain rfl := hfinal x m (.inl hm)
      exact .inr ⟨.inl hm, fun d hd' ↦ ⟨(hd d hd').1, hnames x _ hx hm d hd'⟩⟩
  · rintro r r' importer d rest ⟨-, ht⟩ ⟨-, hc⟩
    exact (ht.2 d List.mem_cons_self).2.2.keeps hfinal ht hc

end Upkeep

section Quiet

variable {F : Prop} {T : String → Prop} {R : String → Prop} {w v w' : World} {r : Run}
  {text id : String} {m m₀ : Module}

theorem World.persistAliases_eq {visited : List String}
    (h : ∀ a ∈ w.graph.aliases, a.target.id ∈ visited → readText? w.disk
      (w.graph.store.codePath a.target.stem (some a.hashPrefix)) = some a.target.code) :
    w.persistAliases visited = w := by
  have hall : ∀ as : List Alias, (∀ a ∈ as, readText? w.disk
      (w.graph.store.codePath a.target.stem (some a.hashPrefix)) = some a.target.code) →
      as.foldl World.persistAlias w = w := by
    intro as
    induction as with
    | nil => exact fun _ ↦ rfl
    | cons a as ih =>
      intro has
      rw [List.foldl_cons, World.persistAlias, if_pos (has a List.mem_cons_self)]
      exact ih fun b hb ↦ has b (List.mem_cons_of_mem a hb)
  refine hall _ fun a ha ↦ ?_
  obtain ⟨ha, hv⟩ := List.mem_filter.1 ha
  exact h a ha (List.contains_iff_mem.1 hv)

/-- The code of certain modules is in the store under all names by which local modules import it. -/
def World.Stocks (w : World) (R : String → Prop) : Prop :=
  ∀ x m, w.graph.module? x = some m → ∀ d ∈ m.dependencies, d.hash ≠ "" → R d.path →
    ∀ target, w.graph.module? d.path = some target →
      readText? w.disk (w.graph.store.codePath (ModuleId.stem d.path) (some d.hash)) =
        some target.code

theorem World.Stocks.persistAliases_eq (h : w.Stocks R) (hs : Sound F T v)
    (hhas : ∀ x m, v.graph.module? x = some m → w.graph.module? x = some m)
    (hstore : v.graph.store = w.graph.store) (hdisk : v.disk = w.disk) {visited : List String}
    (hv : ∀ x ∈ visited, R x) : v.persistAliases visited = v := by
  refine World.persistAliases_eq fun a ha hmem ↦ ?_
  obtain ⟨m, hm, d, hd, he⟩ := exists_of_mem_aliases ha
  obtain ⟨ht, hne, hp, -⟩ := aliasOf?_eq_some he
  have hfind := hs.sorted.find?_of_mem hm
  have hid := ModuleTable.id_of_find? ht
  obtain ⟨t, htext⟩ := ((hs.modules _ _ hfind).1.dependencies d hd).1.resolve_left hne
  rw [hstore, hdisk, hp, Module.stem, hid, htext, codePath_hashPrefix, ← htext]
  exact h m.id m (hhas _ _ hfind) d hd hne (hv _ (hid ▸ hmem)) _ (hhas _ _ ht)

/-- Nothing is left to do for certain modules: they stand with names that need no renewal, and their
code is in the store under all its names. -/
structure World.Quiet (w : World) (R : String → Prop) : Prop where
  sound : Sound False (fun _ ↦ True) w
  standing : w.Standing R
  named : ∀ x m, R x → w.graph.module? x = some m → ∀ d ∈ m.dependencies, w.Named x d
  stocks : w.Stocks R

namespace World

theorem Idles.quiet (h : w.Idles (fun _ ↦ False) v) (hs : Sound False (fun _ ↦ True) v)
    (hq : w.Quiet R) : v.Quiet R := by
  have hhas : ∀ x m, v.Has x m ↔ w.Has x m :=
    fun x m ↦ ⟨fun hm ↦ (h.adds x m hm).resolve_right id, h.keeps x m⟩
  have hmodule : ∀ x m, v.graph.module? x = some m ↔ w.graph.module? x = some m := fun x m ↦
    ⟨fun hm ↦ hq.sound.module?_of_has ((hhas x m).1 (.inl hm)) (hs.modules x m hm).2.2,
      fun hm ↦ hs.module?_of_has ((hhas x m).2 (.inl hm)) (hq.sound.modules x m hm).2.2⟩
  have himports : v.Imports = w.Imports := by
    funext a b
    simp only [Imports, hhas]
  have hsource : ∀ x, v.source? x = w.source? x := fun x ↦
    h.source?_eq (.inr (by rw [h.disk]))
  refine ⟨hs, fun x hx ↦ ?_, fun x m hx hm d hd ↦ ?_, fun x m hm d hd hne hR target ht ↦ ?_⟩
  · rcases hq.standing x hx with ⟨m, hm⟩ | ⟨m, hm, hsrc, hd⟩
    · refine .inl ⟨m, ((hhas x m).2 (.inr hm)).resolve_left fun hl ↦ ?_⟩
      exact (hs.modules x m hl).2.2 (hq.sound.remote x m hm).2.2
    · refine .inr ⟨m, (hmodule x m).2 hm, ?_, fun d hd' ↦ ⟨(hd d hd').1, ?_⟩⟩
      · rw [hsource]
        exact hsrc
      · obtain ⟨target, htarget⟩ := (hd d hd').2
        exact ⟨target, (hhas _ _).2 htarget⟩
  · have hnamed := hq.named x m hx ((hmodule x m).1 hm) d hd
    simpa only [Named, OneWay, Meets, Reaches, himports, hhas] using hnamed
  · rw [h.store, h.disk]
    exact hq.stocks x m ((hmodule x m).1 hm) d hd hne hR target ((hmodule _ _).1 ht)

/-- A call that is about standing modules ends with one of them and does nothing, if their code is in
the store under all its names. -/
theorem Standing.idles {final : String → Module} {P : Run → Task → Prop}
    {Q : Run → Task → Run → Prop} (h : w.Standing R) (hk : w.Stocks R)
    (hs : Sound False (fun _ ↦ True) w) (hfinal : ∀ x m, w.Has x m → m = final x)
    (hP : Upkeep R final P Q) (he : w.entryId text = .ok id)
    (hid : P (Run.start w) (.visit id .default)) :
    w.Has id (final id) ∧ (w.compile text .default).1 = .ok (final id) ∧
      w.Idles (fun _ ↦ False) (w.compile text .default).2 ∧
      Sound False (fun _ ↦ True) (w.compile text .default).2 := by
  obtain ⟨r, hm, hy, hidled, hhas, hc⟩ := h.compile hs hfinal hP he hid
  have hsound : Sound False (fun _ ↦ True) r.world :=
    (hy.sound False.elim ⟨hs, fun _ hm ↦ by cases hm⟩ (proper_entryId he) fun _ _ _ ↦ trivial).1
  have haliases : r.world.persistAliases r.visited = r.world := by
    refine hk.persistAliases_eq hsound (fun x m hm ↦ ?_) hidled.idles.store hidled.idles.disk
      fun x hx ↦ ?_
    · exact hs.module?_of_has ((hhas x m).1 (.inl hm)) (hsound.modules x m hm).2.2
    · exact ((hidled.visited x hx).resolve_left fun hn ↦ by cases hn).1
  rw [haliases] at hc
  rw [hc]
  exact ⟨hm, rfl, { hidled.idles with adds := fun x m hm ↦ .inl ((hhas x m).1 hm) }, hsound⟩

theorem Quiet.compile (h : w.Quiet R) (he : w.entryId text = .ok id) (hid : R id) :
    ∃ m, w.Has id m ∧ (w.compile text .default).1 = .ok m ∧
      w.Idles (fun _ ↦ False) (w.compile text .default).2 ∧
      (w.compile text .default).2.Quiet R := by
  obtain ⟨final, hfinal⟩ := h.sound.exists_final
  obtain ⟨hm, hc, hidles, hsound⟩ := h.standing.idles h.stocks h.sound hfinal
    (upkeep_circles h.standing h.sound hfinal h.named) he ⟨.start w w, hid, rfl, fun _ ht ↦ by cases ht⟩
  exact ⟨final id, hm, hc, hidles, hidles.quiet hsound h⟩

theorem Idles.entryId_eq (h : w.Idles R v) (text : String) : v.entryId text = w.entryId text := by
  rw [entryId, entryId, h.folder, h.disk]

end World

/-- Certain modules have been looked after: they stand, the local ones have names for all that they
import, and their code is in the store under all its names. -/
structure World.Tended (w : World) (R : String → Prop) : Prop where
  sound : Sound False (fun _ ↦ True) w
  standing : w.Standing R
  accounts : ∀ x m, R x → w.graph.module? x = some m → ∀ d ∈ m.dependencies,
    d.hash ≠ "" ∧ w.Accounts x d
  stocks : w.Stocks R

/-- Nothing is left to do for modules that have been looked after, if all names between modules on
cycles are current or belong to simple cycles. -/
theorem World.Tended.quiet (h : w.Tended R)
    (hcycles : ∀ x m, R x → w.graph.module? x = some m → ∀ d ∈ m.dependencies,
      w.OnCycle x → w.OnCycle d.path →
        (∃ target, w.Has d.path target ∧ d.hash = target.hash) ∨
          w.Reaches d.path x ∧ w.OneWay x) : w.Quiet R := by
  refine ⟨h.sound, h.standing, fun x m hx hm d hd ↦ ?_, h.stocks⟩
  obtain ⟨hne, target, htarget, hhash⟩ := h.accounts x m hx hm d hd
  rcases hhash with hhash | ⟨hcycle, hcycle'⟩
  · exact ⟨target, htarget, .inl hhash⟩
  · rcases hcycles x m hx hm d hd hcycle hcycle' with ⟨target, htarget, hhash⟩ | ⟨hback, hone⟩
    · exact ⟨target, htarget, .inl hhash⟩
    · exact ⟨target, htarget, .inr ⟨hne, hback, hone⟩⟩

end Quiet

section Ring

variable {w w' u u' : World} {m m' : Module} {a b code code' text : String}
  {slots slots' : List HashSlot}

/-- Two modules that import each other, beside an empty store. -/
def ringWorld : World :=
  ⟨.new ⟨"s", 1000⟩ ⟨"c"⟩ ⟨⟨[]⟩, true, false⟩,
    ⟨[], [(["s"], .directory), (["s", "a.js"], .file "import\"./b.js\"".toUTF8),
      (["s", "b.js"], .file "import\"./a.js\"".toUTF8), (["c"], .directory)]⟩,
    ⟨[], .error .hostNotFound, []⟩⟩

theorem fresh_ringWorld : ringWorld.Fresh :=
  World.fresh_of_entries rfl rfl (by decide)

def IsRing (x : String) : Prop :=
  x = "/a.js" ∨ x = "/b.js"

theorem World.CanKeep.mono {ids ids' : String → Prop} (h : w.CanKeep ids) (hm : ∀ x, ids' x → ids x) :
    w.CanKeep ids' :=
  ⟨fun a b ha hb hia hib ↦ h.1 a b ha hb (hm a hia) (hm b hib),
    fun d ht a ha ↦ h.2 d (ht.mono fun _ hk ↦ hk.mono hm) a (ha.mono hm)⟩

theorem separate_ringWorld {x : String} (h : IsRing x) : ringWorld.Separate x := by
  have hroot : ringWorld.storePlace = ["c"] := by decide
  rcases h with rfl | rfl
  · have hl : ringWorld.disk.locate (ringWorld.graph.folder.basePath "/a.js") =
        .ok ["s", "a.js"] := rfl
    exact separate_of_file (by decide) hl rfl (by rw [hroot]; decide)
  · have hl : ringWorld.disk.locate (ringWorld.graph.folder.basePath "/b.js") =
        .ok ["s", "b.js"] := rfl
    exact separate_of_file (by decide) hl rfl (by rw [hroot]; decide)

structure World.Ring (w : World) (m m' : Module) : Prop where
  id_fst : m.id = "/a.js"
  id_snd : m'.id = "/b.js"
  has_iff : ∀ x n, w.Has x n ↔ x = "/a.js" ∧ n = m ∨ x = "/b.js" ∧ n = m'
  fst : m.dependencies = [⟨"/b.js", m'.hash⟩]
  snd : m'.dependencies.map Dependency.path = ["/a.js"]

namespace World.Ring

theorem imports_iff (h : w.Ring m m') {x y : String} : w.Imports x y ↔
    x = "/a.js" ∧ y = "/b.js" ∨ x = "/b.js" ∧ y = "/a.js" := by
  constructor
  · rintro ⟨n, hn, d, hd, rfl⟩
    rcases (h.has_iff x n).1 hn with ⟨rfl, rfl⟩ | ⟨rfl, rfl⟩
    · rw [h.fst] at hd
      rw [List.mem_singleton.1 hd]
      exact .inl ⟨rfl, rfl⟩
    · have hpath := List.mem_map_of_mem (f := Dependency.path) hd
      rw [h.snd] at hpath
      exact .inr ⟨rfl, List.mem_singleton.1 hpath⟩
  · rintro (⟨rfl, rfl⟩ | ⟨rfl, rfl⟩)
    · exact ⟨m, (h.has_iff _ _).2 (.inl ⟨rfl, rfl⟩), ⟨"/b.js", m'.hash⟩, h.fst ▸ List.mem_cons_self,
        rfl⟩
    · obtain ⟨d, ds, hds, hd, -⟩ := List.map_eq_cons_iff.1 h.snd
      exact ⟨m', (h.has_iff _ _).2 (.inr ⟨rfl, rfl⟩), d, hds ▸ List.mem_cons_self, hd⟩

theorem oneWay (h : w.Ring m m') (x : String) : w.OneWay x := by
  intro y z z' _ hz hz' _ _
  rcases h.imports_iff.1 hz with ⟨rfl, rfl⟩ | ⟨rfl, rfl⟩ <;>
    rcases h.imports_iff.1 hz' with ⟨he, rfl⟩ | ⟨he, rfl⟩
  · rfl
  · exact absurd he (by decide)
  · exact absurd he (by decide)
  · rfl

theorem reaches (h : w.Ring m m') : w.Reaches "/a.js" "/b.js" ∧ w.Reaches "/b.js" "/a.js" :=
  ⟨.single (h.imports_iff.2 (.inl ⟨rfl, rfl⟩)), .single (h.imports_iff.2 (.inr ⟨rfl, rfl⟩))⟩

theorem eq_of_reaches (h : w.Ring m m') {x : String} (hx : w.Reaches "/a.js" x) : IsRing x := by
  induction hx with
  | refl => exact .inl rfl
  | tail _ hi _ => exact (h.imports_iff.1 hi).elim (fun h ↦ .inr h.2) fun h ↦ .inl h.2

theorem isRing (h : w.Ring m m') {x : String} {n : Module} (hx : w.Has x n) : IsRing x :=
  ((h.has_iff x n).1 hx).imp And.left And.left

theorem leadsBack (h : w.Ring m m') {x y : String} (hi : w.Imports x y) : w.Reaches y x := by
  rcases h.imports_iff.1 hi with ⟨rfl, rfl⟩ | ⟨rfl, rfl⟩
  · exact h.reaches.2
  · exact h.reaches.1

theorem registered (h : w.Ring m m') {x : String} (hx : registeredIn [w, ringWorld] x) :
    IsRing x := by
  obtain ⟨v, hv, n, hn⟩ := hx
  rcases List.mem_cons.1 hv with rfl | hv
  · exact h.isRing hn
  · rw [List.mem_singleton.1 hv] at hn
    exact absurd hn (fresh_ringWorld.not_has x n)

theorem separate (h : w.Ring m m') {x : String} (hx : w.Reaches "/a.js" x) :
    ringWorld.Separate x :=
  separate_ringWorld (h.eq_of_reaches hx)

theorem quiet {R : String → Prop} (h : w.Ring m m') (ht : w.Tended R) : w.Quiet R :=
  ht.quiet fun x n _ hn d hd _ _ ↦ .inr ⟨h.leadsBack ⟨n, .inl hn, d, hd, rfl⟩, h.oneWay x⟩

theorem idles (h : w.Ring m m') (hi : w.Idles (fun _ ↦ False) w') : w'.Ring m m' where
  id_fst := h.id_fst
  id_snd := h.id_snd
  has_iff x n := by
    rw [← h.has_iff]
    exact ⟨fun hn ↦ (hi.adds x n hn).resolve_right id, hi.keeps x n⟩
  fst := h.fst
  snd := h.snd

end World.Ring

end Ring

section Again

variable {w w' : World} {text id : String} {m m₀ : Module}

end Again

end SiteCompiler.Graph
