import SiteCompiler.Proofs.Graph.Incremental

namespace SiteCompiler.Graph

namespace World

/-- Nothing is compiled or written from one world to another. The graph keeps its modules, and only
certain ones are entered into it. -/
structure Idles (R : String → Prop) (w w' : World) : Prop extends SameTerms w w' where
  store : w'.graph.store = w.graph.store
  disk : w'.disk = w.disk
  compiled : w'.graph.stats.compiled = w.graph.stats.compiled
  persisted : w'.graph.stats.persisted = w.graph.stats.persisted
  keeps : ∀ x m, w.Has x m → w'.Has x m
  adds : ∀ x m, w'.Has x m → w.Has x m ∨ R x

structure Recalls (w : World) (m : Module) : Prop where
  previous : w.previous? m.id = some m
  obtained : (w.obtain m.id .default (some m)).1 = .ok none
  isRemote : m.isRemote = ModuleId.isRemote m.id

/-- Certain modules have come to their final form: they are vendored, or they are recorded in it, and
so is all that they import. -/
structure Stays (R : String → Prop) (final : String → Module) (w : World) : Prop where
  only : ∀ x m, R x → w.Has x m → m = final x
  there : ∀ x, R x → (final x).id = x ∧ (w.Vendors x ∨ w.Recalls (final x) ∧
    ∀ d ∈ (final x).dependencies, R d.path)

variable {w w' w'' : World} {R : String → Prop} {final : String → Module} {m : Module} {id : String}

theorem Idles.refl (R : String → Prop) (w : World) : w.Idles R w :=
  ⟨.refl w, rfl, rfl, rfl, rfl, fun _ _ h ↦ h, fun _ _ ↦ .inl⟩

theorem Idles.trans (h : w.Idles R w') (h' : w'.Idles R w'') : w.Idles R w'' where
  toSameTerms := h.toSameTerms.trans h'.toSameTerms
  store := h'.store.trans h.store
  disk := h'.disk.trans h.disk
  compiled := h'.compiled.trans h.compiled
  persisted := h'.persisted.trans h.persisted
  keeps := fun x m hm ↦ h'.keeps x m (h.keeps x m hm)
  adds := fun x m hm ↦ (h'.adds x m hm).elim (h.adds x m) .inr

theorem obtain_congr (h : w.SameTerms w') (hd : w'.disk = w.disk) (id : String) (o : Options)
    (previous : Option Module) : (w'.obtain id o previous).1 = (w.obtain id o previous).1 := by
  have hload : (Source.load w'.graph.folder w'.disk w'.network id).1 =
      (Source.load w.graph.folder w.disk w.network id).1 := by
    rw [Source.load, Source.load]
    split
    · change (Source.ofAnswer id (w'.network.answer id)).mapError _ =
        (Source.ofAnswer id (w.network.answer id)).mapError _
      rw [Network.answer, Network.answer, h.answers, h.otherwise]
    · rw [h.folder, hd]
  rw [obtain, obtain]
  cases o.source? with
  | some text => rfl
  | none =>
    dsimp only
    split
    · rfl
    · rcases ha : Source.load w'.graph.folder w'.disk w'.network id with ⟨a, n⟩
      rcases hb : Source.load w.graph.folder w.disk w.network id with ⟨b, n'⟩
      rw [ha, hb] at hload
      obtain rfl : a = b := hload
      cases a <;> rfl

theorem loadPersisted?_congr {g g' : Graph} (hs : g'.store = g.store)
    (ht : g'.settings = g.settings) (disk : Disk) (id : String) :
    g'.loadPersisted? disk id = g.loadPersisted? disk id := by
  rw [loadPersisted?, loadPersisted?, hs, ht]

theorem Recalls.congr (h : w.Recalls m) (ht : w.SameTerms w') (hs : w'.graph.store = w.graph.store)
    (hd : w'.disk = w.disk)
    (hm : w'.graph.modules.find? m.id = w.graph.modules.find? m.id ∨
      w'.graph.modules.find? m.id = some m) : w'.Recalls m where
  previous := by
    rcases hm with hm | hm
    · rw [previous?, hm, loadPersisted?_congr hs ht.settings, hd]
      exact h.previous
    · rw [previous?, hm]
      rfl
  obtained := (obtain_congr ht hd _ _ _).trans h.obtained
  isRemote := h.isRemote

theorem Recalls.prepare (h : w.Recalls m) : ∃ w', w.prepare m.id .default = (.ok (m, false), w') ∧
    w.SameModules w' ∧ w.Idles R w' := by
  have hs := w.sameModules_obtain m.id .default (w.previous? m.id)
  have hn := w.network_obtain m.id .default (w.previous? m.id)
  have hstats : (w.obtain m.id .default (some m)).2.graph.stats.compiled = w.graph.stats.compiled ∧
      (w.obtain m.id .default (some m)).2.graph.stats.persisted = w.graph.stats.persisted := by
    rw [obtain]
    dsimp only [Options.default]
    split
    · exact ⟨rfl, rfl⟩
    · split <;> exact ⟨rfl, rfl⟩
  have ho := h.obtained
  rw [h.previous] at hs hn
  rw [World.prepare, show (w.graph.modules.find? m.id).or (w.graph.loadPersisted? w.disk m.id) =
    w.previous? m.id from rfl, h.previous]
  generalize w.obtain m.id .default (some m) = r at hs hn hstats ho ⊢
  obtain ⟨r, w₁⟩ := r
  obtain rfl : r = .ok none := ho
  have hsame := hs.trans (sameModules_count w₁ fun s => { s with reused := s.reused + 1 })
  refine ⟨_, by rw [← h.isRemote], hsame, ?_⟩
  exact ⟨⟨hsame.folder, hsame.settings, hn.1, hn.2⟩, hsame.store, hsame.disk, hstats.1, hstats.2,
    fun x m hm ↦ hsame.has.2 hm, fun x m hm ↦ .inl (hsame.has.1 hm)⟩

theorem Stays.sameModules (h : w.Stays R final) (hs : w.SameModules w') (hi : w.Idles R w') :
    w'.Stays R final := by
  refine ⟨fun x m hx hm ↦ h.only x m hx (hs.has.1 hm), fun x hx ↦ ?_⟩
  obtain ⟨hid, hthere⟩ := h.there x hx
  refine ⟨hid, hthere.imp (fun hv ↦ ?_) fun hr ↦ ⟨?_, hr.2⟩⟩
  · rw [Vendors, hs.remote]
    exact hv
  · exact hr.1.congr hi.toSameTerms hi.store hi.disk (.inl (by rw [hs.modules]))

theorem Stays.prepare (h : w.Stays R final) (hr : w.graph.remote.find? id = none) (hid : R id) :
    ∃ w', w.prepare id .default = (.ok (final id, false), w') ∧ w.SameModules w' ∧ w.Idles R w' ∧
      w'.Stays R final ∧ ∀ d ∈ (final id).dependencies, R d.path := by
  obtain ⟨hname, ⟨m, hm⟩ | ⟨hrecall, hd⟩⟩ := h.there id hid
  · rw [hr] at hm
    cases hm
  · obtain ⟨w', hp, hsame, hidles⟩ := hrecall.prepare (R := R)
    rw [hname] at hp
    exact ⟨w', hp, hsame, hidles, h.sameModules hsame hidles, hd⟩

theorem Stays.finish (h : w.Stays R final) (hid : R id) :
    (w.finish (final id) false).Stays R final ∧ w.Idles R (w.finish (final id) false) := by
  have hname := (h.there id hid).1
  obtain ⟨hfolder, hstore, hsettings, -, -⟩ := w.modules_finish (final id) false
  have hstats : (w.finish (final id) false).graph.stats = w.graph.stats := by
    rw [World.finish, register]
    split <;> rfl
  have hidles : w.Idles R (w.finish (final id) false) := by
    refine ⟨⟨hfolder, hsettings, rfl, rfl⟩, hstore, rfl, by rw [hstats], by rw [hstats],
      fun x m hm ↦ ?_, fun x m hm ↦ ?_⟩
    · by_cases hx : (final id).id = x
      · obtain rfl := hname.symm.trans hx
        rw [h.only _ m hid hm]
        have hself := w.has_finish_self (final id) false
        rwa [hname] at hself
      · exact (w.has_finish_of_ne false hx m).2 hm
    · by_cases hx : (final id).id = x
      · exact .inr (hname.symm.trans hx ▸ hid)
      · exact .inl ((w.has_finish_of_ne false hx m).1 hm)
  refine ⟨⟨fun x m hx hm ↦ ?_, fun x hx ↦ ?_⟩, hidles⟩
  · rcases eq_or_has_of_has_finish hm with rfl | hm'
    · rw [← hm.id_eq, hname]
    · exact h.only x m hx hm'
  · obtain ⟨hxid, hthere⟩ := h.there x hx
    refine ⟨hxid, hthere.imp (fun hv ↦ hv.finish _ _) fun hr ↦ ⟨?_, hr.2⟩⟩
    refine hr.1.congr hidles.toSameTerms hidles.store hidles.disk ?_
    by_cases hne : (final id).id = (final x).id
    · obtain rfl : id = x := hname.symm.trans (hne.trans hxid)
      obtain ⟨-, -, -, hmods, -⟩ := w.modules_finish (final id) false
      rw [hmods]
      split
      · exact .inl rfl
      · exact .inr ModuleTable.find?_insert_self
    · exact .inl (w.find?_finish_of_ne false hne).1

theorem SameModules.vendors_iff {w world : World} (h : w.SameModules world) {x : String} :
    world.Vendors x ↔ w.Vendors x := by
  rw [Vendors, Vendors, h.remote]

theorem vendors_finish {w : World} {m : Module} {changed : Bool} {x : String} :
    (w.finish m changed).Vendors x ↔ w.Vendors x ∨ m.isRemote = true ∧ m.id = x := by
  obtain ⟨-, -, -, -, hr⟩ := w.modules_finish m changed
  rw [Vendors, hr]
  cases m.isRemote with
  | false =>
    rw [if_neg Bool.false_ne_true]
    exact ⟨.inl, fun h ↦ h.resolve_right fun h ↦ by cases h.1⟩
  | true =>
    rw [if_pos rfl, ModuleTable.find?_insert]
    by_cases hx : m.id = x
    · rw [if_pos hx]
      exact iff_of_true ⟨m, rfl⟩ (.inr ⟨rfl, hx⟩)
    · rw [if_neg hx]
      exact ⟨.inl, fun h ↦ h.resolve_right fun h ↦ hx h.2⟩

end World

/-- What is known before the parts of a run and what is known after them, if the run is about modules
in their final form. -/
structure Course (R : String → Prop) (final : String → Module) (P : Run → Task → Prop)
    (Q : Run → Task → Run → Prop) : Prop where
  visits : ∀ {r : Run} {id : String} {o : Options}, P r (.visit id o) → R id ∧ o = .default
  vendored : ∀ {r : Run} {id : String}, P r (.visit id .default) → r.world.Vendors id →
    Q r (.visit id .default) r
  again : ∀ {r : Run} {id : String}, P r (.visit id .default) →
    r.world.graph.remote.find? id = none → id ∈ r.visited → Q r (.visit id .default) (r.noted id)
  inside : ∀ {r : Run} {id : String} {world : World}, P r (.visit id .default) →
    r.world.graph.remote.find? id = none → id ∉ r.visited → r.world.SameModules world →
    (final id).id = id → P ((r.entered id world).inside (final id))
      (.settle (final id).id (final id).dependencies)
  leaves : ∀ {r inner : Run} {id : String} {world : World}, P r (.visit id .default) →
    r.world.graph.remote.find? id = none → id ∉ r.visited → r.world.SameModules world →
    (final id).id = id → inner.stack = final id :: r.stack →
    Q ((r.entered id world).inside (final id)) (.settle (final id).id (final id).dependencies)
      inner → Q r (.visit id .default) (inner.finished r.stack (final id) false)
  done : ∀ {r : Run} {importer : String}, P r (.settle importer []) → Q r (.settle importer []) r
  first : ∀ {r : Run} {importer : String} {d : Dependency} {rest : List Dependency},
    P r (.settle importer (d :: rest)) → P r (.visit d.path .default)
  others : ∀ {r r' : Run} {importer : String} {d : Dependency} {rest : List Dependency},
    P r (.settle importer (d :: rest)) → Frame r r' → r'.stack = r.stack →
    Q r (.visit d.path .default) r' → P r' (.settle importer rest)
  next : ∀ {r r' r'' : Run} {importer : String} {d : Dependency} {rest : List Dependency},
    P r (.settle importer (d :: rest)) → Frame r r' → Frame r' r'' →
    Q r (.visit d.path .default) r' → Q r' (.settle importer rest) r'' →
      Q r (.settle importer (d :: rest)) r''

/-- Each dependency in such a run has the hash of what it leads to, or keeps its name. -/
structure Upkeep (R : String → Prop) (final : String → Module) (P : Run → Task → Prop)
    (Q : Run → Task → Run → Prop) : Prop extends Course R final P Q where
  named : ∀ {r r' : Run} {importer : String} {d : Dependency} {rest : List Dependency},
    P r (.settle importer (d :: rest)) → Q r (.visit d.path .default) r' →
      d.hash = (final d.path).hash ∨ r'.keepsName importer d

theorem Course.and {R : String → Prop} {final : String → Module} {P P' : Run → Task → Prop}
    {Q Q' : Run → Task → Run → Prop} (h : Course R final P Q) (h' : Course R final P' Q') :
    Course R final (fun r t ↦ P r t ∧ P' r t) fun r t r' ↦ Q r t r' ∧ Q' r t r' where
  visits hp := h.visits hp.1
  vendored hp hv := ⟨h.vendored hp.1 hv, h'.vendored hp.2 hv⟩
  again hp hr hv := ⟨h.again hp.1 hr hv, h'.again hp.2 hr hv⟩
  inside hp hr hv hs hid := ⟨h.inside hp.1 hr hv hs hid, h'.inside hp.2 hr hv hs hid⟩
  leaves hp hr hv hs hid hst hq :=
    ⟨h.leaves hp.1 hr hv hs hid hst hq.1, h'.leaves hp.2 hr hv hs hid hst hq.2⟩
  done hp := ⟨h.done hp.1, h'.done hp.2⟩
  first hp := ⟨h.first hp.1, h'.first hp.2⟩
  others hp hf hst hq := ⟨h.others hp.1 hf hst hq.1, h'.others hp.2 hf hst hq.2⟩
  next hp hf hf' hq hq' := ⟨h.next hp.1 hf hf' hq.1 hq'.1, h'.next hp.2 hf hf' hq.2 hq'.2⟩

def Outcome.Rests (final : String → Module) : Task → Outcome → Prop
  | .visit id _, .found m => m = final id
  | .settle .., .settled _ changed => changed = false
  | _, _ => True

structure Run.Resting (R : String → Prop) (final : String → Module) (P : Run → Task → Prop)
    (r : Run) (t : Task) : Prop where
  world : r.world.Stays R final
  stack : ∀ m ∈ r.stack, R m.id → m = final m.id
  task : P r t

structure Run.Idled (R : String → Prop) (final : String → Module) (r r' : Run) : Prop where
  idles : r.world.Idles R r'.world
  stays : r'.world.Stays R final
  visited : ∀ x ∈ r'.visited, x ∈ r.visited ∨ R x ∧ ¬r.world.Vendors x

variable {R : String → Prop} {final : String → Module} {P : Run → Task → Prop}
  {Q : Run → Task → Run → Prop} {w : World} {r r' : Run} {t : Task} {out : Outcome}
  {id text : String} {F : Prop} {T : String → Prop}

theorem Run.Resting.prepare {o : Options} (hP : Upkeep R final P Q)
    (h : r.Resting R final P (.visit id o)) (hr : r.world.graph.remote.find? id = none)
    (hv : id ∉ r.visited) : ∃ world, r.world.prepare id o = (.ok (final id, false), world) ∧
      r.world.SameModules world ∧ (final id).id = id ∧ r.world.Idles R world ∧
      ((r.entered id world).inside (final id)).Resting R final P
        (.settle (final id).id (final id).dependencies) := by
  obtain ⟨hid, rfl⟩ := hP.visits h.task
  obtain ⟨world, hp, hsame, hidles, hstays, -⟩ := h.world.prepare hr hid
  have hname := (h.world.there id hid).1
  refine ⟨world, hp, hsame, hname, hidles, hstays, fun x hx hR ↦ ?_,
    hP.inside h.task hr hv hsame hname⟩
  rcases List.mem_cons.1 hx with rfl | hx
  · rw [hname]
  · exact h.stack x hx hR

theorem Run.Resting.first {importer : String} {d : Dependency} {rest : List Dependency}
    (hP : Upkeep R final P Q) (h : r.Resting R final P (.settle importer (d :: rest))) :
    r.Resting R final P (.visit d.path .default) :=
  ⟨h.world, h.stack, hP.first h.task⟩

theorem Run.Resting.rest {importer : String} {d : Dependency} {rest : List Dependency}
    (hP : Upkeep R final P Q) (h : r.Resting R final P (.settle importer (d :: rest)))
    (hf : Frame r r') (hs : r'.stack = r.stack) (hw : r'.world.Stays R final)
    (hq : Q r (.visit d.path .default) r') : r'.Resting R final P (.settle importer rest) :=
  ⟨hw, hs ▸ h.stack, hP.others h.task hf hs hq⟩

/-- A dependency that has the hash of what it leads to, or keeps its name, is not renewed. -/
theorem Run.renews_eq_false {importer : String} {d : Dependency} {m : Module}
    (h : d.hash = m.hash ∨ r.keepsName importer d) : r.renews importer d m = false := by
  rw [renews]
  rcases h with h | h
  · rw [h, decide_eq_false fun hne ↦ hne rfl, Bool.false_and]
  · rw [h, Bool.not_true, Bool.and_false]

namespace Run.Idled

variable {r'' inner : Run} {world : World}

theorem refl (hw : r.world.Stays R final) : r.Idled R final r :=
  ⟨.refl R _, hw, fun _ ↦ .inl⟩

theorem trans (h : r.Idled R final r') (h' : r'.Idled R final r'') (hf : Frame r r') :
    r.Idled R final r'' where
  idles := h.idles.trans h'.idles
  stays := h'.stays
  visited := fun x hx ↦ (h'.visited x hx).elim (h.visited x) fun hx ↦
    .inr ⟨hx.1, fun hv ↦ hx.2 (hf.vendors hv)⟩

theorem outside (h : ((r.entered id world).inside (final id)).Idled R final inner) (hid : R id)
    (hr : r.world.graph.remote.find? id = none) (hsame : r.world.SameModules world)
    (hi : r.world.Idles R world) : r.Idled R final inner := by
  refine ⟨hi.trans h.idles, h.stays, fun x hx ↦ ?_⟩
  rcases h.visited x hx with hx | ⟨hx, hv⟩
  · rcases List.mem_cons.1 hx with rfl | hx
    · refine .inr ⟨hid, fun ⟨m, hm⟩ ↦ ?_⟩
      rw [hr] at hm
      cases hm
    · exact .inl hx
  · exact .inr ⟨hx, fun hr ↦ hv (hsame.vendors_iff.2 hr)⟩

theorem finished (h : r.Idled R final inner) (hid : R id) (stack : List Module) :
    r.Idled R final (inner.finished stack (final id) false) :=
  ⟨h.idles.trans (h.stays.finish hid).2, (h.stays.finish hid).1, h.visited⟩

end Run.Idled

theorem Yields.idles (hP : Upkeep R final P Q) (h : Yields r t out r')
    (hr : r.Resting R final P t) : r.Idled R final r' ∧ out.Rests final t ∧
      ((∀ stop, out ≠ .stopped stop) → Q r t r') := by
  have hinside : ∀ {r : Run} {id o m changed world}, r.Resting R final P (.visit id o) →
      r.world.graph.remote.find? id = none → id ∉ r.visited →
      r.world.prepare id o = (.ok (m, changed), world) → m = final id ∧ changed = false ∧
        o = .default ∧ R id ∧ (final id).id = id ∧ r.world.SameModules world ∧
        r.world.Idles R world ∧
        ((r.entered id world).inside m).Resting R final P (.settle m.id m.dependencies) := by
    intro r id o m changed world hr hrem hv hp
    obtain ⟨hid, ho⟩ := hP.visits hr.task
    obtain ⟨world', hp', hsame, hname, hidles, hin⟩ := hr.prepare hP hrem hv
    obtain ⟨hm, rfl⟩ := Prod.mk.inj (hp.symm.trans hp')
    obtain ⟨rfl, rfl⟩ := Prod.mk.inj (Except.ok.inj hm)
    exact ⟨rfl, rfl, ho, hid, hname, hsame, hidles, hin⟩
  have hstopped : ∀ {stop : Stop} {p : Prop}, (∀ s, Outcome.stopped stop ≠ .stopped s) → p :=
    fun h ↦ absurd rfl (h _)
  induction h with
  | deep => exact ⟨.refl hr.world, trivial, hstopped⟩
  | vendored hm =>
    obtain ⟨hid, rfl⟩ := hP.visits hr.task
    exact ⟨.refl hr.world, hr.world.only _ _ hid (.inr hm), fun _ ↦ hP.vendored hr.task ⟨_, hm⟩⟩
  | @again r id o m hm hv hk =>
    obtain ⟨hid, rfl⟩ := hP.visits hr.task
    refine ⟨⟨.refl R _, hr.world, fun _ ↦ .inl⟩, ?_, fun _ ↦ hP.again hr.task hm hv⟩
    rcases Option.or_eq_some_iff.1 hk with hk | ⟨-, hk⟩
    · have hname := List.find?_some hk
      obtain rfl := of_decide_eq_true hname
      exact hr.stack _ (List.mem_of_find?_eq_some hk) hid
    · exact hr.world.only _ _ hid (.inl hk)
  | lost => exact ⟨⟨.refl R _, hr.world, fun _ ↦ .inl⟩, trivial, hstopped⟩
  | unprepared hm hv hp =>
    obtain ⟨world, hp', -⟩ := hr.prepare hP hm hv
    cases (Prod.mk.inj (hp.symm.trans hp')).1
  | @leaf r id o m changed world hm hv hp ha =>
    obtain ⟨rfl, rfl, rfl, hid, hname, hsame, hidles, hin⟩ := hinside hr hm hv hp
    have hd : (final id).dependencies = [] := ha.resolve_left Bool.false_ne_true
    have hdone : Q ((r.entered id world).inside (final id))
        (.settle (final id).id (final id).dependencies)
        ((r.entered id world).inside (final id)) := by
      have htask := hin.task
      rw [hd] at htask ⊢
      exact hP.done htask
    have hleaves : Q r (.visit id .default) (((r.entered id world).inside (final id)).finished
        r.stack (final id) false) := hP.leaves hr.task hm hv hsame hname rfl hdone
    exact ⟨((Run.Idled.refl hin.world).outside hid hm hsame hidles).finished hid r.stack, rfl,
      fun _ ↦ hleaves⟩
  | dropped hm hv hp ha hb ih =>
    obtain ⟨rfl, rfl, -, hid, -, hsame, hidles, hin⟩ := hinside hr hm hv hp
    exact ⟨(ih hin).1.outside hid hm hsame hidles, trivial, hstopped⟩
  | @kept r inner id o m changed world ds hm hv hp ha hb ih =>
    obtain ⟨rfl, rfl, rfl, hid, hname, hsame, hidles, hin⟩ := hinside hr hm hv hp
    obtain ⟨hinner, -, hq⟩ := ih hin
    have hst := hb.frame.2 fun _ h ↦ Outcome.noConfusion h
    exact ⟨(hinner.outside hid hm hsame hidles).finished hid r.stack, rfl, fun _ ↦
      hP.leaves hr.task hm hv hsame hname hst (hq fun _ h ↦ Outcome.noConfusion h)⟩
  | broken hm hv hp ha hb hl ih =>
    obtain ⟨rfl, rfl, -, -, -, -, -, hin⟩ := hinside hr hm hv hp
    exact absurd (ih hin).2.1 Bool.noConfusion
  | relinked hm hv hp ha hb hl ih =>
    obtain ⟨rfl, rfl, -, -, -, -, -, hin⟩ := hinside hr hm hv hp
    exact absurd (ih hin).2.1 Bool.noConfusion
  | done => exact ⟨.refl hr.world, rfl, fun _ ↦ hP.done hr.task⟩
  | failed hf ih => exact ⟨(ih (hr.first hP)).1, trivial, hstopped⟩
  | cut hf ho ih ih' =>
    obtain ⟨hfirst, -, hq⟩ := ih (hr.first hP)
    obtain ⟨hframe, hst⟩ := hf.frame
    have hrest := hr.rest hP hframe (hst fun _ h ↦ Outcome.noConfusion h) hfirst.stays
      (hq fun _ h ↦ Outcome.noConfusion h)
    exact ⟨hfirst.trans (ih' hrest).1 hframe, trivial, hstopped⟩
  | @next r r' r'' importer d rest settled m changed hf ho ih ih' =>
    obtain ⟨hfirst, rfl, hq⟩ := ih (hr.first hP)
    obtain ⟨hframe, hst⟩ := hf.frame
    have hst := hst fun _ h ↦ Outcome.noConfusion h
    have hq := hq fun _ h ↦ Outcome.noConfusion h
    obtain ⟨hothers, rfl, hq'⟩ := ih' (hr.rest hP hframe hst hfirst.stays hq)
    refine ⟨hfirst.trans hothers hframe, ?_, fun _ ↦ hP.next hr.task hframe ho.frame.1 hq
      (hq' fun _ h ↦ Outcome.noConfusion h)⟩
    change (r'.renews importer d (final d.path) || false) = false
    rw [Run.renews_eq_false (hP.named hr.task hq)]
    rfl

theorem feasible_resting {known : List String} (hP : Upkeep R final P Q)
    (hknown : ∀ x, R x → x ∈ known) :
    Feasible known fun r t ↦ r.Resting R final P t ∧ r.Tracked := by
  refine ⟨fun {r id} h hrem hv ↦ ?_, fun {r id} h hrem hv ↦ h.2.exists_known hv hrem,
    fun {r inner id m changed world ds} h hrem hv hp hy ↦ ?_, fun h ↦ ⟨h.1.first hP, h.2⟩,
    fun {r r' importer d rest m} h hy ↦ ?_⟩
  · obtain ⟨world, hp, -, -, -, hin⟩ := h.1.prepare hP hrem hv
    exact ⟨hknown id (hP.visits h.1.task).1, _, _, _, hp, hin, h.2.inside hp⟩
  · obtain ⟨world', hp', -, -, -, hin⟩ := h.1.prepare hP hrem hv
    obtain ⟨hm, rfl⟩ := Prod.mk.inj (hp.symm.trans hp')
    obtain ⟨rfl, rfl⟩ := Prod.mk.inj (Except.ok.inj hm)
    exact absurd (hy.idles hP hin).2.1 Bool.noConfusion
  · obtain ⟨hidled, -, hq⟩ := hy.idles hP (h.1.first hP)
    obtain ⟨hframe, hst⟩ := hy.frame
    exact ⟨h.1.rest hP hframe (hst fun _ h ↦ Outcome.noConfusion h) hidled.stays
      (hq fun _ h ↦ Outcome.noConfusion h), hy.tracked h.2 fun _ h ↦ Outcome.noConfusion h⟩

/-- A call that is about modules in their final form ends with one of them and does nothing but store
aliases. -/
theorem World.Stays.compile (h : w.Stays R final) (hP : Upkeep R final P Q)
    (he : w.entryId text = .ok id) (hid : P (Run.start w) (.visit id .default))
    (hknown : ∀ x, R x → x ∈ w.knownIds) : ∃ r,
      Yields (Run.start w) (.visit id .default) (.found (final id)) r ∧
      (Run.start w).Idled R final r ∧
      w.compile text .default = (.ok (final id), r.world.persistAliases r.visited) := by
  have hstart : (Run.start w).Resting R final P (.visit id .default) :=
    ⟨h, (fun _ hm ↦ by cases hm), hid⟩
  obtain ⟨m, r, hy, hc⟩ := exists_compile (feasible_resting hP hknown) he ⟨hstart, tracked_start w⟩
  obtain ⟨hidled, rfl, -⟩ := hy.idles hP hstart
  exact ⟨r, hy, hidled, hc⟩

/-- Certain modules are registered for the sources that they have, and so is all that they import. -/
def World.Standing (w : World) (R : String → Prop) : Prop :=
  ∀ x, R x → w.Vendors x ∨ ∃ m, w.graph.modules.find? x = some m ∧
    (∃ s, w.source? x = some s ∧ m.sourceHash = s.hash) ∧
    ∀ d ∈ m.dependencies, R d.path ∧ ∃ target, w.Has d.path target

/-- Certain modules are registered for the sources that they have and with the hashes of their
dependencies. -/
def World.Settled (w : World) (R : String → Prop) : Prop :=
  ∀ x, R x → w.Vendors x ∨ ∃ m, w.graph.modules.find? x = some m ∧
    (∃ s, w.source? x = some s ∧ m.sourceHash = s.hash) ∧
    ∀ d ∈ m.dependencies, R d.path ∧ ∃ target, w.Has d.path target ∧ d.hash = target.hash

theorem obtain_of_source? {m : Module} {s : Source} {o : Options} (ho : o.source? = none)
    (h : w.source? id = some s) (he : m.sourceHash = s.hash) :
    (w.obtain id o (some m)).1 = .ok none := by
  have hl := World.load_eq_ok h
  rw [World.obtain, ho]
  dsimp only
  split
  · rfl
  · rcases ho : Source.load w.graph.folder w.disk w.network id with ⟨_, n⟩
    rw [ho] at hl
    obtain rfl := hl
    change Except.ok (newer (some m) s) = _
    rw [newer, Option.map_some, he, if_pos rfl]

theorem World.prepare_of_source? {m : Module} {s : Source} {o : Options} (hm : w.previous? id = some m)
    (ho : o.source? = none) (hs : w.source? id = some s) (he : m.sourceHash = s.hash) :
    ∃ world, w.prepare id o = (.ok ({ m with isRemote := ModuleId.isRemote id }, false), world) := by
  have hobtain := obtain_of_source? ho hs he
  rcases hp : w.obtain id o (some m) with ⟨r, world⟩
  rw [hp] at hobtain
  obtain rfl : r = .ok none := hobtain
  refine ⟨world.count fun s ↦ { s with reused := s.reused + 1 }, ?_⟩
  rw [World.prepare, show (w.graph.modules.find? id).or (w.graph.loadPersisted? w.disk id) = some m
    from hm]
  dsimp only
  rw [hp]

theorem Sound.exists_final (hs : Sound F T w) :
    ∃ final : String → Module, ∀ x m, w.Has x m → m = final x := by
  refine Classical.axiomOfChoice (r := fun x m₀ ↦ ∀ m, w.Has x m → m = m₀) fun x ↦ ?_
  by_cases hx : ∃ m, w.Has x m
  · obtain ⟨m₀, hm₀⟩ := hx
    exact ⟨m₀, fun m hm ↦ hs.has_unique hm hm₀⟩
  · exact ⟨⟨"", .js, "", false, "", "", none, "", [], []⟩, fun m hm ↦ absurd ⟨m, hm⟩ hx⟩

theorem mem_knownIds_of_has {m : Module} (h : w.Has id m) : id ∈ w.knownIds := by
  have hid : id ∈ World.idsOfModule m := h.id_eq ▸ List.mem_cons_self
  rw [World.knownIds]
  refine List.mem_append_left _ (List.mem_append_left _ ?_)
  rcases h with h | h
  · exact List.mem_append_left _ (List.mem_flatMap.2 ⟨m, ModuleTable.mem_of_find? h, hid⟩)
  · exact List.mem_append_right _ (List.mem_flatMap.2 ⟨m, ModuleTable.mem_of_find? h, hid⟩)

namespace World

theorem Standing.exists_has (h : w.Standing R) {x : String} (hx : R x) : ∃ m, w.Has x m := by
  rcases h x hx with ⟨m, hm⟩ | ⟨m, hm, -⟩
  · exact ⟨m, .inr hm⟩
  · exact ⟨m, .inl hm⟩

theorem Standing.has_final (h : w.Standing R) (hfinal : ∀ x m, w.Has x m → m = final x)
    {x : String} (hx : R x) : w.Has x (final x) := by
  obtain ⟨m, hm⟩ := h.exists_has hx
  exact hfinal x m hm ▸ hm

theorem Standing.stays (h : w.Standing R) (hs : Sound F T w)
    (hfinal : ∀ x m, w.Has x m → m = final x) : w.Stays R final := by
  refine ⟨fun x m _ hm ↦ hfinal x m hm, fun x hx ↦ ?_⟩
  rcases h x hx with ⟨m, hm⟩ | ⟨m, hm, ⟨s, hsource, he⟩, hd⟩
  · obtain rfl := hfinal x m (.inr hm)
    exact ⟨Has.id_eq (w := w) (.inr hm), .inl ⟨_, hm⟩⟩
  · obtain rfl := hfinal x m (.inl hm)
    have hid := Has.id_eq (w := w) (.inl hm)
    refine ⟨hid, .inr ⟨⟨?_, ?_, ?_⟩, fun d hd' ↦ (hd d hd').1⟩⟩
    · rw [hid, previous?, hm]
      rfl
    · rw [hid]
      exact obtain_of_source? rfl hsource he
    · exact (hs.modules x _ hm).1.isRemote

theorem Standing.compile (h : w.Standing R) (hs : Sound F T w)
    (hfinal : ∀ x m, w.Has x m → m = final x) (hP : Upkeep R final P Q)
    (he : w.entryId text = .ok id) (hid : P (Run.start w) (.visit id .default)) :
    ∃ r, w.Has id (final id) ∧ Yields (Run.start w) (.visit id .default) (.found (final id)) r ∧
      (Run.start w).Idled R final r ∧ (∀ x m, r.world.Has x m ↔ w.Has x m) ∧
      w.compile text .default = (.ok (final id), r.world.persistAliases r.visited) := by
  obtain ⟨r, hy, hidled, hc⟩ := (h.stays hs hfinal).compile hP he hid fun x hx ↦
    (h.exists_has hx).elim fun m hm ↦ mem_knownIds_of_has hm
  refine ⟨r, h.has_final hfinal (hP.visits hid).1, hy, hidled,
    fun x m ↦ ⟨fun hm ↦ ?_, hidled.idles.keeps x m⟩, hc⟩
  rcases hidled.idles.adds x m hm with hm | hx
  · exact hm
  · rw [hidled.stays.only x m hx hm]
    exact h.has_final hfinal hx

end World

def Task.Rests (R : String → Prop) (final : String → Module) : Task → Prop
  | .visit id o => R id ∧ o = .default
  | .settle _ ds => ∀ d ∈ ds, R d.path ∧ d.hash = (final d.path).hash

namespace World

theorem Settled.standing (h : w.Settled R) : w.Standing R := fun x hx ↦
  (h x hx).imp_right fun ⟨m, hm, hs, hd⟩ ↦
    ⟨m, hm, hs, fun d hd' ↦ ⟨(hd d hd').1, (hd d hd').2.imp fun _ ht ↦ ht.1⟩⟩

theorem Settled.upkeep (h : w.Settled R) (hfinal : ∀ x m, w.Has x m → m = final x) :
    Upkeep R final (fun r t ↦ t.Rests R final ∧ ∀ x, w.Vendors x → r.world.Vendors x)
      fun _ _ _ ↦ True where
  visits := fun h ↦ h.1
  vendored := fun _ _ ↦ trivial
  again := fun _ _ _ ↦ trivial
  inside := by
    rintro r id world ⟨⟨hid, -⟩, hv⟩ hrem - hsame -
    refine ⟨fun d hd ↦ ?_, fun x hx ↦ ?_⟩
    · rcases h id hid with hx | ⟨m, hm, -, hdeps⟩
      · obtain ⟨m, hm⟩ := hv id hx
        rw [hrem] at hm
        cases hm
      · obtain rfl := hfinal id m (.inl hm)
        obtain ⟨hR, target, htarget, hhash⟩ := hdeps d hd
        rw [← hfinal d.path target htarget]
        exact ⟨hR, hhash⟩
    · exact hsame.vendors_iff.2 (hv x hx)
  leaves := fun _ _ _ _ _ _ _ ↦ trivial
  done := fun _ ↦ trivial
  first := fun h ↦ ⟨⟨(h.1 _ List.mem_cons_self).1, rfl⟩, h.2⟩
  others := fun h hf _ _ ↦
    ⟨fun d hd ↦ h.1 d (List.mem_cons_of_mem _ hd), fun x hx ↦ hf.vendors (h.2 x hx)⟩
  next := fun _ _ _ _ _ ↦ trivial
  named := fun h _ ↦ .inl (h.1 _ List.mem_cons_self).2

theorem Settled.compile (h : w.Settled R) (hs : Sound F T w) (he : w.entryId text = .ok id)
    (hid : R id) : ∃ m r, w.Has id m ∧ Yields (Run.start w) (.visit id .default) (.found m) r ∧
      w.Idles R r.world ∧ (∀ x m, r.world.Has x m ↔ w.Has x m) ∧
      w.compile text .default = (.ok m, r.world.persistAliases r.visited) := by
  obtain ⟨final, hfinal⟩ := hs.exists_final
  obtain ⟨r, hm, hy, hidled, hhas, hc⟩ := h.standing.compile hs hfinal (h.upkeep hfinal) he
    ⟨⟨hid, rfl⟩, fun _ hv ↦ hv⟩
  exact ⟨final id, r, hm, hy, hidled.idles, hhas, hc⟩

end World

section Pair

theorem separate_pairWorld {x : String} (hx : x = "/a.js" ∨ x = "/b.js") :
    pairWorld.Separate x := by
  have hroot : pairWorld.storePlace = ["c"] := by decide
  rcases hx with rfl | rfl
  · have hl : pairWorld.disk.locate (pairWorld.graph.folder.basePath "/a.js") =
        .ok ["s", "a.js"] := rfl
    exact separate_of_file (by decide) hl rfl (by rw [hroot]; decide)
  · have hl : pairWorld.disk.locate (pairWorld.graph.folder.basePath "/b.js") =
        .ok ["s", "b.js"] := rfl
    exact separate_of_file (by decide) hl rfl (by rw [hroot]; decide)

theorem sound_pairWorld : Sound False (fun _ ↦ True) (pairWorld.compile "a.js" .default).2 :=
  Sound.compile False.elim (sound_of_fresh fresh_pairWorld) "a.js" .default fun _ _ _ ↦ trivial

theorem settled_pairWorld : (pairWorld.compile "a.js" .default).2.Settled fun x ↦
    x = "/a.js" ∨ x = "/b.js" := by
  have hsound := sound_pairWorld
  have hpair : contents (pairWorld.compile "a.js" .default).2.graph = pair := by
    obtain ⟨_, w, hok, -, hpair⟩ := exists_compile_pairWorld
    rw [hok]
    exact hpair
  have hworked := World.worked_compile (F := False) (T := fun _ ↦ True)
    (sound_of_fresh fresh_pairWorld) "a.js" .default
  have hrec := Recorded.compile (F := False) (T := fun _ ↦ True) False.elim
    (standard_derived (S := fun x ↦ x = "/a.js" ∨ x = "/b.js") rfl
      (fun x hx ↦ .inr (separate_pairWorld hx)) fun x s _ hs ↦ hs)
    (sound_of_fresh fresh_pairWorld) (recorded_of_fresh fresh_pairWorld) "a.js"
    (o := .default) ⟨rfl, rfl⟩ fun _ _ _ ↦ trivial
  generalize (pairWorld.compile "a.js" .default).2 = w at hsound hpair hworked hrec
  have hregistered : ∀ x, x = "/a.js" ∨ x = "/b.js" → ∃ m, w.graph.modules.find? x = some m ∧
      (x, m.code, m.dependencies) ∈ pair ∧
      ∃ s, w.source? x = some s ∧ m.sourceHash = s.hash := by
    intro x hx
    have hmem : x ∈ (contents w.graph).map Prod.fst := by
      rw [hpair]
      rcases hx with rfl | rfl <;> decide
    obtain ⟨m, hm⟩ := exists_of_mem_contents hmem
    have hid := hm.id_eq
    subst hid
    obtain ⟨s, c, _, hs, -, hd⟩ := hrec.registered _ m hm hx
    refine ⟨m, hm.resolve_right fun hr ↦ ?_, hpair ▸ mem_contents hm, s, ?_, hd.sourceHash⟩
    · have hremote := (hsound.remote _ m hr).2.2
      rcases hx with hx | hx <;> rw [hx] at hremote <;> exact absurd hremote (by decide)
    · rw [hworked.source? (.inr (separate_pairWorld hx))]
      exact hs
  obtain ⟨mb, hmb, hb, hsource⟩ := hregistered "/b.js" (.inr rfl)
  have hcode : mb.code = "" ∧ mb.dependencies = [] := by
    rcases List.mem_cons.1 hb with he | he
    · exact absurd (Prod.mk.inj he).1 (by decide)
    · exact Prod.mk.inj (Prod.mk.inj (List.mem_singleton.1 he)).2
  rintro x (rfl | rfl)
  · obtain ⟨ma, hma, ha, hsource⟩ := hregistered "/a.js" (.inl rfl)
    refine .inr ⟨ma, hma, hsource, fun d hd ↦ ?_⟩
    have hdeps : ma.dependencies = [⟨"/b.js", "da39a3ee5e6b4b0d3255bfef95601890afd80709"⟩] := by
      rcases List.mem_cons.1 ha with he | he
      · exact (Prod.mk.inj (Prod.mk.inj he).2).2
      · exact absurd (Prod.mk.inj (List.mem_singleton.1 he)).1 (by decide)
    rw [hdeps] at hd
    obtain rfl := List.mem_singleton.1 hd
    refine ⟨.inr rfl, mb, .inl hmb, ?_⟩
    rw [(hsound.modules _ mb hmb).1.hash, hcode.1, contentHash_empty]
  · refine .inr ⟨mb, hmb, hsource, fun d hd ↦ ?_⟩
    rw [hcode.2] at hd
    cases hd

end Pair

end SiteCompiler.Graph
