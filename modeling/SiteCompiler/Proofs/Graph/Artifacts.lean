import SiteCompiler.Proofs.Graph.Propagation

namespace SiteCompiler.Graph

open Disk (Place placeOf Through Accepts Writes EndsIn)
open ArtifactStore (codeEnding recordEnding Puts PutsCode readText?)
open Digest (contentHash hashPrefix)

def Names (id : String) : Option String → Prop
  | none => ModuleId.isRemote id
  | some hash => ¬ModuleId.isRemote id ∧ ∃ text, hash = contentHash text

/-- What the store does to keep modules with certain ids: it writes them, and it writes code of
theirs under other hashes. -/
inductive Keeps (store : ArtifactStore) (ids : String → Prop) : Disk.Action Unit → Prop
  | write {m : Module} (filed : Filed store m) (mem : ids m.id) :
      Keeps store ids (store.write m.stem m.record.text m.file m.code m.sourceMap)
  | writeUnder {id hash : String} (code : String) (sourceMap : Option String) (mem : ids id)
      (names : Names id (some hash)) : Keeps store ids
        (ArtifactStore.writeCode (store.codePath (ModuleId.stem id) (some hash)) code sourceMap)

def World.codePlace (w : World) (id : String) (hash : Option String) : Place :=
  placeOf w.disk.workingDirectory (w.graph.store.codePath (ModuleId.stem id) hash)

/-- No two modules with certain ids share a place for their code. -/
def World.Apart (w : World) (ids : String → Prop) : Prop :=
  ∀ a b ha hb, ids a → ids b → Names a ha → Names b hb →
    w.codePlace a ha = w.codePlace b hb → a = b

variable {ids ids' : String → Prop} {store : ArtifactStore} {w w' : World} {m m' : Module}
  {id : String} {changed : Bool}

theorem Keeps.mono {a : Disk.Action Unit} (h : Keeps store ids a) (hm : ∀ id, ids id → ids' id) :
    Keeps store ids' a := by
  cases h with
  | write hf hid => exact .write hf (hm _ hid)
  | writeUnder code map hid hn => exact .writeUnder code map (hm _ hid) hn

theorem Filed.names (h : Filed store m) : Names m.id m.nameHash := by
  rw [Module.nameHash, h.isRemote]
  split
  · next hr => exact hr
  · next hr => exact ⟨hr, m.code, h.hash⟩

/-- What the store writes to keep modules is code only where that of one of them belongs. -/
theorem Keeps.writes {a : Disk.Action Unit} (h : Keeps store ids a) :
    Writes (fun wd p _ ↦ EndsIn p codeEnding → ∃ id hash, ids id ∧ Names id hash ∧
      placeOf wd (store.codePath (ModuleId.stem id) hash) = p) a := by
  cases h with
  | @write m hf hid =>
    refine (ArtifactStore.writes_write _ _ _ _ _ _).mono fun wd p c hn hend ↦ ?_
    rcases hn with ⟨rfl, -⟩ | ⟨rfl, -⟩ | ⟨map, -, rfl, -⟩
    · exact absurd hend (ArtifactStore.not_endsIn_of_ne (store.endsIn_recordPath _ _) (by decide))
    · exact ⟨m.id, m.nameHash, hid, hf.names, by rw [hf.file, Module.stem]⟩
    · exact absurd hend
        (ArtifactStore.not_endsIn_of_ne (ArtifactStore.endsIn_sourceMapPath _ _) (by decide))
  | @writeUnder id hash code map hid hn =>
    refine (ArtifactStore.writes_writeCode _ _ _).mono fun wd p c hp hend ↦ ?_
    rcases hp with ⟨rfl, -⟩ | ⟨map, -, rfl, -⟩
    · exact ⟨id, some hash, hid, hn, rfl⟩
    · exact absurd hend
        (ArtifactStore.not_endsIn_of_ne (ArtifactStore.endsIn_sourceMapPath _ _) (by decide))

theorem readText?_of_through {disk disk' : Disk} (h : Through (Keeps store ids) disk disk')
    {hash : Option String} {text : String}
    (hr : readText? disk (store.codePath (ModuleId.stem id) hash) = some text)
    (hne : ∀ id' hash', ids id' → Names id' hash' →
      placeOf disk.workingDirectory (store.codePath (ModuleId.stem id') hash') ≠
        placeOf disk.workingDirectory (store.codePath (ModuleId.stem id) hash)) :
    readText? disk' (store.codePath (ModuleId.stem id) hash) = some text := by
  refine ArtifactStore.readText?_of_grows (h.grows fun _ ↦ Keeps.writes) hr fun c hn ↦ ?_
  obtain ⟨id', hash', hid, hnames, hplace⟩ := hn (store.endsIn_codePath _ _ _)
  exact absurd hplace (hne id' hash' hid hnames)

theorem workingDirectory_of_through {disk disk' : Disk}
    (h : Through (Keeps store ids) disk disk') :
    disk'.workingDirectory = disk.workingDirectory :=
  (h.grows fun _ ↦ Keeps.writes).workingDirectory

theorem World.through_finish (hm : Filed w.graph.store m) (changed : Bool) :
    Through (Keeps w.graph.store (· = m.id)) w.disk (w.finish m changed).disk := by
  rw [World.disk_finish]
  split
  · rw [World.persist, World.disk_persistBy]
    exact .one (.write hm rfl) _
  · exact .refl _

/-- The world keeps its modules: the code of each is in the store. Whatever is written for them is
written, and does not replace anything else. -/
structure Kept (ids : String → Prop) (w : World) : Prop where
  sound : Sound False (fun _ ↦ True) w
  each : w.Each (ids ·.id)
  apart : w.Apart ids
  accepts : Accepts (Keeps w.graph.store ids) w.disk
  files : w.Each fun m ↦ readText? w.disk m.file = some m.code

theorem World.Apart.of_eq (h : w.Apart ids) (hs : w'.graph.store = w.graph.store)
    (hw : w'.disk.workingDirectory = w.disk.workingDirectory) : w'.Apart ids := by
  intro a b ha hb hia hib hna hnb he
  rw [World.codePlace, World.codePlace, hs, hw] at he
  exact h a b ha hb hia hib hna hnb he

theorem Kept.sameModules (h : Kept ids w) (hs : World.SameModules w w') : Kept ids w' where
  sound := h.sound.sameModules hs
  each := fun id m hm ↦ h.each id m (hs.has.1 hm)
  apart := h.apart.of_eq hs.store (by rw [hs.disk])
  accepts := by rw [hs.store, hs.disk]; exact h.accepts
  files := fun id m hm ↦ by rw [hs.disk]; exact h.files id m (hs.has.1 hm)

theorem Kept.readText?_of_through (h : Kept ids w) {disk : Disk} {hash : Option String}
    {text : String} (ht : Through (Keeps w.graph.store ids') w.disk disk)
    (hsub : ∀ id, ids' id → ids id) (hid : ids id) (hne : ¬ids' id) (hn : Names id hash)
    (hr : readText? w.disk (w.graph.store.codePath (ModuleId.stem id) hash) = some text) :
    readText? disk (w.graph.store.codePath (ModuleId.stem id) hash) = some text :=
  Graph.readText?_of_through ht hr fun id' hash' hid' hn' he ↦
    hne (h.apart id' id hash' hash (hsub id' hid') hid hn' hn he ▸ hid')

theorem Kept.finish (h : Kept ids w) (hm : Known False w.graph.store m) (hid : ids m.id)
    (changed : Bool)
    (hfile : changed = false → readText? w.disk m.file = some m.code) :
    Kept ids (w.finish m changed) ∧
      Through (Keeps w.graph.store (· = m.id)) w.disk (w.finish m changed).disk := by
  obtain ⟨-, hstore, -, -, -⟩ := w.modules_finish m changed
  have hthrough := World.through_finish hm.toFiled changed
  have hread : readText? (w.finish m changed).disk m.file = some m.code := by
    rw [World.disk_finish]
    cases changed with
    | false => exact hfile rfl
    | true =>
      rw [if_pos rfl, World.persist, World.disk_persistBy]
      refine ArtifactStore.readText?_write ?_ (h.accepts.perform (.write hm.toFiled hid))
      rw [hm.file]
      exact w.graph.store.endsIn_codePath _ _ _
  have hsub : ∀ x, x = m.id → ids x := fun x hx ↦ hx ▸ hid
  have hsound := h.sound.finish hm trivial changed
  refine ⟨⟨hsound, ?_, ?_, ?_, ?_⟩, hthrough⟩
  · intro id' m' hm'
    by_cases he : m.id = id'
    · rw [hm'.id_eq, ← he]
      exact hid
    · exact h.each id' m' ((w.has_finish_of_ne changed he m').1 hm')
  · exact h.apart.of_eq hstore (workingDirectory_of_through hthrough)
  · rw [hstore]
    exact h.accepts.through (hthrough.mono fun _ ha ↦ ha.mono hsub)
  · intro id' m' hm'
    by_cases he : m.id = id'
    · subst he
      rw [hsound.has_unique hm' (w.has_finish_self m changed)]
      exact hread
    · have hm' := (w.has_finish_of_ne changed he m').1 hm'
      have hknown := h.sound.known hm'
      have hfile : readText? w.disk m'.file = some m'.code := h.files id' m' hm'
      rw [hknown.file, Module.stem] at hfile ⊢
      exact h.readText?_of_through hthrough hsub (h.each id' m' hm')
        (fun hx ↦ he (hx.symm.trans hm'.id_eq)) hknown.names hfile

theorem Kept.file_of_previous? (h : Kept ids w) (hm : w.previous? id = some m) :
    readText? w.disk m.file = some m.code := by
  rcases Option.or_eq_some_iff.1 hm with hm | ⟨-, hm⟩
  · have hhas : w.Has id m := .inl hm
    exact h.files id m hhas
  · obtain ⟨found, code, map, -, -, hc, -, he⟩ := loadPersisted?_eq_some hm
    rw [he]
    dsimp only
    exact hc

theorem Kept.file_of_prepares (h : Kept ids w) {o : Options} (hp : Prepares w id o m false) :
    readText? w.disk m.file = some m.code := by
  cases hp with
  | @recorded m _ hm =>
    have hfile := h.file_of_previous? hm
    dsimp only
    exact hfile

theorem through_without {a b : List String} {disk disk' : Disk}
    (h : Through (Keeps store fun id ↦ ids id ∧ id ∉ b) disk disk') (hs : ∀ id ∈ a, id ∈ b) :
    Through (Keeps store fun id ↦ ids id ∧ id ∉ a) disk disk' :=
  h.mono fun _ ha ↦ ha.mono fun id hid ↦ ⟨hid.1, fun hm ↦ hid.2 (hs id hm)⟩

theorem through_inside {r : Run} {o : Options} {world : World} {disk : Disk}
    (hp : r.world.prepare id o = (.ok (m, changed), world))
    (h : Through (Keeps ((r.entered id world).inside m).world.graph.store fun x ↦
      ids x ∧ x ∉ ((r.entered id world).inside m).visited)
      ((r.entered id world).inside m).world.disk disk) :
    Through (Keeps r.world.graph.store fun x ↦ ids x ∧ x ∉ id :: r.visited) r.world.disk disk := by
  have hsame := (World.prepare_eq hp).1
  rw [← hsame.store, ← hsame.disk]
  exact h

theorem Kept.concluded {r inner : Run} {o : Options} {world : World}
    (hk : Kept ids r.world) (hv : id ∉ r.visited)
    (hp : r.world.prepare id o = (.ok (m, changed), world)) (hin : Kept ids inner.world)
    (hstore : inner.world.graph.store = r.world.graph.store)
    (hthrough : Through (Keeps r.world.graph.store fun x ↦ ids x ∧ x ∉ id :: r.visited)
      r.world.disk inner.world.disk)
    (hm : Known False r.world.graph.store m') (hname : m'.id = id) (hid : ids m'.id)
    (changed' : Bool) (hc : changed' = false → changed = false ∧ m' = m) :
    Kept ids (inner.world.finish m' changed') ∧
      Through (Keeps r.world.graph.store fun x ↦ ids x ∧ x ∉ r.visited) r.world.disk
        (inner.world.finish m' changed').disk := by
  obtain ⟨hk', hthrough'⟩ := hin.finish (hstore ▸ hm) hid changed' fun h ↦ by
    obtain ⟨rfl, rfl⟩ := hc h
    have hfile := hk.file_of_prepares (Prepares.of_eq hp)
    rw [hm.file, Module.stem] at hfile ⊢
    exact hk.readText?_of_through hthrough (fun x hx ↦ hx.1) hid
      (fun hx ↦ hx.2 (hname ▸ List.mem_cons_self)) hm.names hfile
  refine ⟨hk', (through_without hthrough fun x hx ↦ List.mem_cons_of_mem id hx).trans ?_⟩
  rw [hstore] at hthrough'
  refine hthrough'.mono fun _ ha ↦ ha.mono ?_
  rintro x rfl
  exact ⟨hid, hname ▸ hv⟩

theorem Yields.keeps {r r' : Run} {t : Task} {out : Outcome} (h : Yields r t out r')
    (hk : Kept ids r.world) (hstack : ∀ m ∈ r.stack, Known False r.world.graph.store m)
    (ht : t.Proper) (hids : r'.world.Each (ids ·.id)) :
    Kept ids r'.world ∧
      Through (Keeps r.world.graph.store fun id ↦ ids id ∧ id ∉ r.visited) r.world.disk
        r'.world.disk := by
  have hT : Faithful False fun _ ↦ True := False.elim
  have hall : ∀ w : World, w.Each fun _ ↦ True := fun _ _ _ _ ↦ trivial
  induction h with
  | deep => exact ⟨hk, .refl _⟩
  | vendored => exact ⟨hk, .refl _⟩
  | again => exact ⟨hk, .refl _⟩
  | lost => exact ⟨hk, .refl _⟩
  | @unprepared r id o stop world _ _ hp =>
    have hsame := (World.prepare_eq hp).1
    refine ⟨hk.sameModules hsame, ?_⟩
    change Through _ r.world.disk world.disk
    rw [hsame.disk]
    exact .refl _
  | @leaf r id o m changed world hr hv hp ha =>
    have hs : r.Sound False fun _ ↦ True := ⟨hk.sound, hstack⟩
    have hsame := (World.prepare_eq hp).1
    have hname := (Prepares.of_eq hp).id_eq
    obtain ⟨hm, -, -⟩ := hs.inside hT ht hp
    have hid : ids m.id := hids m.id m (world.has_finish_self m changed)
    obtain ⟨hk', hthrough⟩ := (hk.sameModules hsame).finish (hsame.store ▸ hm) hid changed
      fun hc ↦ by
        subst hc
        rw [hsame.disk]
        exact hk.file_of_prepares (Prepares.of_eq hp)
    rw [hsame.store, hsame.disk] at hthrough
    refine ⟨hk', hthrough.mono fun _ ha ↦ ha.mono ?_⟩
    rintro x rfl
    exact ⟨hid, hname ▸ hv⟩
  | @dropped r inner id o m changed world stop hr hv hp ha hb ih =>
    have hs : r.Sound False fun _ ↦ True := ⟨hk.sound, hstack⟩
    obtain ⟨-, hs', ht'⟩ := hs.inside hT ht hp
    obtain ⟨hk', hthrough⟩ := ih (hk.sameModules (World.prepare_eq hp).1) hs'.stack ht' hids
    exact ⟨hk', through_without (through_inside hp hthrough) fun x hx ↦ List.mem_cons_of_mem id hx⟩
  | @kept r inner id o m changed world ds hr hv hp ha hb ih =>
    have hs : r.Sound False fun _ ↦ True := ⟨hk.sound, hstack⟩
    obtain ⟨hm, hs', ht'⟩ := hs.inside hT ht hp
    have hin := hb.frame.1.each_inside hp hk.each rfl hids
    obtain ⟨hk', hthrough⟩ := ih (hk.sameModules (World.prepare_eq hp).1) hs'.stack ht' hin
    have hstore := hb.frame.1.store.trans (World.prepare_eq hp).1.store
    have hid : ids m.id := hids m.id m (inner.world.has_finish_self m changed)
    exact hk.concluded hv hp hk' hstore (through_inside hp hthrough) hm (Prepares.of_eq hp).id_eq hid
      changed fun h ↦ ⟨h, rfl⟩
  | @broken r inner id o m changed world ds stop hr hv hp ha hb hl ih =>
    have hs : r.Sound False fun _ ↦ True := ⟨hk.sound, hstack⟩
    obtain ⟨-, hs', ht'⟩ := hs.inside hT ht hp
    obtain ⟨hk', hthrough⟩ := ih (hk.sameModules (World.prepare_eq hp).1) hs'.stack ht' hids
    exact ⟨hk', through_without (through_inside hp hthrough) fun x hx ↦ List.mem_cons_of_mem id hx⟩
  | @relinked r inner id o m m' changed world ds hr hv hp ha hb hl ih =>
    have hs : r.Sound False fun _ ↦ True := ⟨hk.sound, hstack⟩
    obtain ⟨hm, hs', ht'⟩ := hs.inside hT ht hp
    have hname := (relink_id hl).1
    have hin := hb.frame.1.each_inside hp hk.each hname hids
    obtain ⟨hk', hthrough⟩ := ih (hk.sameModules (World.prepare_eq hp).1) hs'.stack ht' hin
    have hstore := hb.frame.1.store.trans (World.prepare_eq hp).1.store
    have hid : ids m'.id := hids m'.id m' (inner.world.has_finish_self m' true)
    have hm' : Known False inner.world.graph.store m' :=
      Known.relink (hstore ▸ hm) (hb.sound hT hs' ht' (hall _)).2 hl
    rw [hstore] at hm'
    exact hk.concluded hv hp hk' hstore (through_inside hp hthrough) hm'
      (hname.trans (Prepares.of_eq hp).id_eq) hid true fun h ↦ Bool.noConfusion h
  | done => exact ⟨hk, .refl _⟩
  | failed hf ih => exact ih hk hstack (ht _ List.mem_cons_self).2 hids
  | @cut r r' r'' importer d rest m stop hf ho ih ih' =>
    obtain ⟨hframe, hst⟩ := hf.frame
    obtain ⟨hk', hthrough⟩ := ih hk hstack (ht d List.mem_cons_self).2
      (hframe.each ho.frame.1 hk.each hids)
    have hs' : r'.Sound False fun _ ↦ True :=
      Run.Sound.after ⟨hk.sound, hstack⟩ hframe (hst fun _ h ↦ Outcome.noConfusion h) hk'.sound
    obtain ⟨hk'', hthrough'⟩ := ih' hk' hs'.stack (fun d' hd ↦ ht d' (List.mem_cons_of_mem d hd)) hids
    rw [hframe.store] at hthrough'
    exact ⟨hk'', hthrough.trans (through_without hthrough' hframe.visited)⟩
  | @next r r' r'' importer d rest settled m changed hf ho ih ih' =>
    obtain ⟨hframe, hst⟩ := hf.frame
    obtain ⟨hk', hthrough⟩ := ih hk hstack (ht d List.mem_cons_self).2
      (hframe.each ho.frame.1 hk.each hids)
    have hs' : r'.Sound False fun _ ↦ True :=
      Run.Sound.after ⟨hk.sound, hstack⟩ hframe (hst fun _ h ↦ Outcome.noConfusion h) hk'.sound
    obtain ⟨hk'', hthrough'⟩ := ih' hk' hs'.stack (fun d' hd ↦ ht d' (List.mem_cons_of_mem d hd)) hids
    rw [hframe.store] at hthrough'
    exact ⟨hk'', hthrough.trans (through_without hthrough' hframe.visited)⟩

section Hashes

variable {r r' : Run} {t : Task} {out : Outcome}

/-- The dependencies of the modules of a task are visited as well. -/
def Task.Whole : Task → Prop
  | .visit _ o => o.alone = false
  | .settle .. => True

def Hashed (m : Module) : Prop :=
  ∀ d ∈ m.dependencies, d.hash ≠ ""

def Outcome.Hashed : Outcome → Prop
  | .settled ds _ => ∀ d ∈ ds, d.hash ≠ ""
  | _ => True

theorem hash_settledAs_ne (r : Run) (importer : String) (d : Dependency) (hm : m.hash ≠ "") :
    (r.settledAs importer d m).hash ≠ "" := by
  rw [Run.settledAs]
  split
  · exact hm
  · next hr =>
    intro he
    rw [Run.renews, Run.keepsName, he] at hr
    simp only [ne_eq, not_true_eq_false, decide_false, Bool.and_false, Bool.not_false,
      Bool.and_true, decide_not, Bool.not_eq_true', Bool.not_eq_false, decide_eq_true_eq] at hr
    exact hm hr

theorem hashed_of_finish (inner : Run) {o : Options} {world : World} {changed' : Bool}
    (hp : r.world.prepare id o = (.ok (m, changed), world))
    (hs : Sound False (fun _ ↦ True) (inner.world.finish m' changed')) (hid : m'.id = id)
    (hm : Hashed m') (hin : ∀ x n, inner.world.Has x n → Hashed n ∨ world.Has x n ∧
      (x ∈ inner.visited → x ∈ id :: r.visited)) {x : String} {n : Module}
    (hn : (inner.world.finish m' changed').Has x n) :
    Hashed n ∨ r.world.Has x n ∧ (x ∈ inner.visited → x ∈ r.visited) := by
  by_cases he : m'.id = x
  · subst he
    rw [hs.has_unique hn (inner.world.has_finish_self m' changed')]
    exact .inl hm
  · refine (hin x n ((inner.world.has_finish_of_ne changed' he n).1 hn)).imp_right ?_
    rintro ⟨hw, hv⟩
    exact ⟨(World.prepare_eq hp).1.has.1 hw, fun hx ↦
      (List.mem_cons.1 (hv hx)).resolve_left fun h ↦ he (hid.trans h.symm)⟩

/-- Whatever a part of a run enters has hashes for all its dependencies, and nothing that it visits is
left as it was, unless it is stopped. -/
theorem Yields.hashes (h : Yields r t out r') (hs : r.Sound False fun _ ↦ True) (ht : t.Proper)
    (hw : t.Whole) : out.Hashed ∧ ∀ x m, r'.world.Has x m → Hashed m ∨
      r.world.Has x m ∧ (x ∈ r'.visited → x ∈ r.visited ∨ ∃ stop, out = .stopped stop) := by
  have hT : Faithful False fun _ ↦ True := False.elim
  have hall : ∀ w : World, w.Each fun _ ↦ True := fun _ _ _ _ ↦ trivial
  have hsettled : ∀ {inner : Run} {visited : List String} {ds changed} {x : String} {n : Module}
      {world : World},
      Hashed n ∨ world.Has x n ∧ (x ∈ inner.visited → x ∈ visited ∨
        ∃ stop, Outcome.settled ds changed = .stopped stop) →
      Hashed n ∨ world.Has x n ∧ (x ∈ inner.visited → x ∈ visited) := fun h ↦
    h.imp_right fun h ↦ ⟨h.1, fun hx ↦ (h.2 hx).resolve_right fun ⟨_, he⟩ ↦ Outcome.noConfusion he⟩
  induction h with
  | deep => exact ⟨trivial, fun _ _ hm ↦ .inr ⟨hm, .inl⟩⟩
  | vendored => exact ⟨trivial, fun _ _ hm ↦ .inr ⟨hm, .inl⟩⟩
  | again => exact ⟨trivial, fun _ _ hm ↦ .inr ⟨hm, .inl⟩⟩
  | lost => exact ⟨trivial, fun _ _ hm ↦ .inr ⟨hm, .inl⟩⟩
  | unprepared _ _ hp =>
    exact ⟨trivial, fun _ _ hm ↦ .inr ⟨(World.prepare_eq hp).1.has.1 hm, fun _ ↦ .inr ⟨_, rfl⟩⟩⟩
  | @leaf r id o m changed world hr hv hp ha =>
    obtain ⟨hm, -, -⟩ := hs.inside hT ht hp
    have hsame := (World.prepare_eq hp).1
    have hd : m.dependencies = [] := ha.resolve_left (by rw [hw]; exact Bool.false_ne_true)
    have hfin := (hs.world.sameModules hsame).finish (hsame.store ▸ hm) trivial changed
    refine ⟨trivial, fun x n hn ↦ ?_⟩
    refine (hashed_of_finish ((r.entered id world).inside m) hp hfin
      (Prepares.of_eq hp).id_eq (fun d h ↦ by rw [hd] at h; cases h)
      (fun x n hn ↦ .inr ⟨hn, fun hx ↦ hx⟩) hn).imp_right fun h ↦ ⟨h.1, fun hx ↦ .inl (h.2 hx)⟩
  | dropped hr hv hp ha hb ih =>
    obtain ⟨-, hs', ht'⟩ := hs.inside hT ht hp
    exact ⟨trivial, fun x n hn ↦ ((ih hs' ht' trivial).2 x n hn).imp_right fun h ↦
      ⟨(World.prepare_eq hp).1.has.1 h.1, fun _ ↦ .inr ⟨_, rfl⟩⟩⟩
  | @kept r inner id o m changed world ds hr hv hp ha hb ih =>
    obtain ⟨hm, hs', ht'⟩ := hs.inside hT ht hp
    obtain ⟨hd, hin⟩ := ih hs' ht' trivial
    have hstore := hb.frame.1.store.trans (World.prepare_eq hp).1.store
    have hfin := (hb.sound hT hs' ht' (hall _)).1.finish (hstore ▸ hm) trivial changed
    refine ⟨trivial, fun x n hn ↦ ?_⟩
    refine (hashed_of_finish inner hp hfin (Prepares.of_eq hp).id_eq (fun d h ↦ hd d (hb.settled_eq ▸ h))
      (fun x n hn ↦ hsettled (hin x n hn)) hn).imp_right fun h ↦ ⟨h.1, fun hx ↦ .inl (h.2 hx)⟩
  | broken hr hv hp ha hb hl ih =>
    obtain ⟨-, hs', ht'⟩ := hs.inside hT ht hp
    exact ⟨trivial, fun x n hn ↦ ((ih hs' ht' trivial).2 x n hn).imp_right fun h ↦
      ⟨(World.prepare_eq hp).1.has.1 h.1, fun _ ↦ .inr ⟨_, rfl⟩⟩⟩
  | @relinked r inner id o m m' changed world ds hr hv hp ha hb hl ih =>
    obtain ⟨hm, hs', ht'⟩ := hs.inside hT ht hp
    obtain ⟨hd, hin⟩ := ih hs' ht' trivial
    have hstore := hb.frame.1.store.trans (World.prepare_eq hp).1.store
    have hinner := hb.sound hT hs' ht' (hall _)
    have hfin := hinner.1.finish (Known.relink (hstore ▸ hm) hinner.2 hl) trivial true
    refine ⟨trivial, fun x n hn ↦ ?_⟩
    refine (hashed_of_finish inner hp hfin ((relink_id hl).1.trans (Prepares.of_eq hp).id_eq)
      (fun d h ↦ hd d (relink_dependencies hl ▸ h))
      (fun x n hn ↦ hsettled (hin x n hn)) hn).imp_right fun h ↦ ⟨h.1, fun hx ↦ .inl (h.2 hx)⟩
  | done => exact ⟨(fun _ h ↦ by cases h), fun _ _ hm ↦ .inr ⟨hm, .inl⟩⟩
  | failed hf ih => exact ⟨trivial, (ih hs (ht _ List.mem_cons_self).2 rfl).2⟩
  | @cut r r' r'' importer d rest m stop hf ho ih ih' =>
    obtain ⟨hframe, hst⟩ := hf.frame
    have hvisit := (ht d List.mem_cons_self).2
    have hs' := hs.after hframe (hst fun _ h ↦ Outcome.noConfusion h) (hf.sound hT hs hvisit (hall _)).1
    obtain ⟨-, hfirst⟩ := ih hs hvisit rfl
    obtain ⟨-, hrest⟩ := ih' hs' (fun d' hd ↦ ht d' (List.mem_cons_of_mem d hd)) trivial
    refine ⟨trivial, fun x n hn ↦ ?_⟩
    rcases hrest x n hn with h | ⟨hn, -⟩
    · exact .inl h
    · exact (hfirst x n hn).imp_right fun h ↦ ⟨h.1, fun _ ↦ .inr ⟨_, rfl⟩⟩
  | @next r r' r'' importer d rest settled m changed hf ho ih ih' =>
    obtain ⟨hframe, hst⟩ := hf.frame
    have hvisit := (ht d List.mem_cons_self).2
    obtain ⟨hsound, hm⟩ := hf.sound hT hs hvisit (hall _)
    have hs' := hs.after hframe (hst fun _ h ↦ Outcome.noConfusion h) hsound
    obtain ⟨-, hfirst⟩ := ih hs hvisit rfl
    obtain ⟨hd, hrest⟩ := ih' hs' (fun d' hd ↦ ht d' (List.mem_cons_of_mem d hd)) trivial
    refine ⟨fun d' hd' ↦ ?_, fun x n hn ↦ ?_⟩
    · rcases List.mem_cons.1 hd' with rfl | hd'
      · have hm : Known False r.world.graph.store m := hm
        exact hash_settledAs_ne r' importer d (hm.hash ▸ Digest.contentHash_ne_empty _)
      · exact hd d' hd'
    · rcases hrest x n hn with h | ⟨hn, hx⟩
      · exact .inl h
      · refine (hfirst x n hn).imp_right fun h ↦ ⟨h.1, fun hv ↦ ?_⟩
        rcases hx hv with hv | ⟨_, he⟩
        · exact (h.2 hv).imp_right fun ⟨_, he⟩ ↦ Outcome.noConfusion he
        · cases he

end Hashes

section Aliases

variable {a b : Alias} {hash : Option String}

structure World.HasAlias (w : World) (a : Alias) : Prop where
  target : w.Has a.target.id a.target
  isLocal : ¬ModuleId.isRemote a.target.id
  hash : ∃ text, a.hashPrefix = hashPrefix (contentHash text)

def Retains (w w' : World) : Prop :=
  ∀ id m hash, w.Has id m → Names id hash →
    readText? w.disk (w.graph.store.codePath (ModuleId.stem id) hash) = some m.code →
    readText? w'.disk (w.graph.store.codePath (ModuleId.stem id) hash) = some m.code

theorem codePath_hashPrefix (store : ArtifactStore) (stem text : String) :
    store.codePath stem (some (hashPrefix (contentHash text))) =
      store.codePath stem (some (contentHash text)) := by
  simp only [ArtifactStore.codePath, Module.nameOf, Digest.hashPrefix_hashPrefix_contentHash]

theorem World.HasAlias.exists_codePath (h : w.HasAlias a) (store : ArtifactStore) :
    ∃ text, Names a.target.id (some (contentHash text)) ∧
      store.codePath a.target.stem (some a.hashPrefix) =
        store.codePath (ModuleId.stem a.target.id) (some (contentHash text)) := by
  obtain ⟨text, htext⟩ := h.hash
  exact ⟨text, ⟨h.isLocal, text, rfl⟩, by rw [htext, codePath_hashPrefix, Module.stem]⟩

theorem disk_persistAlias (w : World) (a : Alias) :
    (w.persistAlias a).disk = w.disk ∧ readText? w.disk
      (w.graph.store.codePath a.target.stem (some a.hashPrefix)) = some a.target.code ∨
    (w.persistAlias a).disk = (w.disk.perform (ArtifactStore.writeCode
      (w.graph.store.codePath a.target.stem (some a.hashPrefix)) a.target.code
      a.target.sourceMap)).2 := by
  rw [World.persistAlias]
  split
  · next h => exact .inl ⟨rfl, h⟩
  · exact .inr (World.disk_persistBy _ _)

theorem Kept.persistAlias (h : Kept ids w) (ha : w.HasAlias a) :
    Kept ids (w.persistAlias a) ∧ Retains w (w.persistAlias a) ∧
      readText? (w.persistAlias a).disk
        (w.graph.store.codePath a.target.stem (some a.hashPrefix)) = some a.target.code := by
  obtain ⟨text, hnames, hpath⟩ := ha.exists_codePath w.graph.store
  have hid : ids a.target.id := h.each _ _ ha.target
  have hkeeps : Keeps w.graph.store ids (ArtifactStore.writeCode
      (w.graph.store.codePath a.target.stem (some a.hashPrefix)) a.target.code
      a.target.sourceMap) := by
    rw [hpath]
    exact .writeUnder _ _ hid hnames
  have hsame := World.sameGraph_persistAlias w a
  have hthrough : Through (Keeps w.graph.store ids) w.disk (w.persistAlias a).disk := by
    rcases disk_persistAlias w a with ⟨hd, -⟩ | hd <;> rw [hd]
    · exact .refl _
    · exact .one hkeeps _
  have hread : readText? (w.persistAlias a).disk
      (w.graph.store.codePath a.target.stem (some a.hashPrefix)) = some a.target.code := by
    rcases disk_persistAlias w a with ⟨hd, hr⟩ | hd <;> rw [hd]
    · exact hr
    · exact ArtifactStore.readText?_writeCode (w.graph.store.endsIn_codePath _ _ _)
        (h.accepts.perform hkeeps)
  have hretains : Retains w (w.persistAlias a) := by
    intro id m hash hm hn hr
    rcases disk_persistAlias w a with ⟨hd, -⟩ | hd <;> rw [hd]
    · exact hr
    · refine ArtifactStore.readText?_of_grows (ArtifactStore.writes_writeCode _ _ _ w.disk) hr
        fun c hc ↦ ?_
      have hend := w.graph.store.endsIn_codePath w.disk.workingDirectory (ModuleId.stem id) hash
      rcases hc with ⟨hp, hc⟩ | ⟨map, -, hp, -⟩
      · -- the same place is that of the same module
        rw [hpath] at hp
        have hidm : ids id := hm.id_eq ▸ h.each id m hm
        rw [← h.apart _ _ _ _ hid hidm hnames hn hp] at hm
        rw [h.sound.has_unique hm ha.target]
        exact hc
      · rw [← hp] at hend
        exact absurd hend (ArtifactStore.not_endsIn_of_ne
          (ArtifactStore.endsIn_sourceMapPath _ _) (by decide))
  refine ⟨⟨h.sound.persistAlias trivial, fun id m hm ↦ h.each id m (hsame.has.1 hm),
    h.apart.of_eq hsame.store (workingDirectory_of_through hthrough), ?_, ?_⟩, hretains, hread⟩
  · rw [hsame.store]
    exact h.accepts.through hthrough
  · intro id m hm
    have hm := hsame.has.1 hm
    have hknown := h.sound.known hm
    have hfile : readText? w.disk m.file = some m.code := h.files id m hm
    rw [hknown.file, Module.stem, hm.id_eq] at hfile ⊢
    exact hretains id m _ hm (hm.id_eq ▸ hknown.names) hfile

theorem Retains.trans {w'' : World} (h : Retains w w') (h' : Retains w' w'')
    (hs : World.SameGraph w w') : Retains w w'' := by
  intro id m hash hm hn hr
  have hr' := h id m hash hm hn hr
  rw [← hs.store] at hr' ⊢
  exact h' id m hash (hs.has.2 hm) hn hr'

theorem Kept.foldl_persistAlias (h : Kept ids w) (as : List Alias) (ha : ∀ a ∈ as, w.HasAlias a) :
    Kept ids (as.foldl World.persistAlias w) ∧ Retains w (as.foldl World.persistAlias w) ∧
      ∀ a ∈ as, readText? (as.foldl World.persistAlias w).disk
        (w.graph.store.codePath a.target.stem (some a.hashPrefix)) = some a.target.code := by
  induction as generalizing w with
  | nil => exact ⟨h, fun _ _ _ _ _ hr ↦ hr, fun _ h ↦ by cases h⟩
  | cons a as ih =>
    rw [List.foldl_cons]
    have hsame := World.sameGraph_persistAlias w a
    obtain ⟨hk, hretains, hread⟩ := h.persistAlias (ha a List.mem_cons_self)
    obtain ⟨hk', hretains', hreads⟩ := ih hk fun b hb ↦
      have hb := ha b (List.mem_cons_of_mem a hb)
      ⟨hsame.has.2 hb.target, hb.isLocal, hb.hash⟩
    refine ⟨hk', hretains.trans hretains' hsame, fun b hb ↦ ?_⟩
    rcases List.mem_cons.1 hb with rfl | hb
    · have hb := ha b List.mem_cons_self
      obtain ⟨text, hnames, hpath⟩ := hb.exists_codePath w.graph.store
      rw [hpath] at hread ⊢
      rw [← hsame.store] at hread ⊢
      exact hretains' _ _ _ (hsame.has.2 hb.target) hnames hread
    · rw [← hsame.store]
      exact hreads b hb

theorem hasAlias_of_mem {F : Prop} {T : String → Prop} (h : Sound F T w)
    (ha : a ∈ w.graph.aliases) : w.HasAlias a := by
  obtain ⟨m, hm, d, hd, he⟩ := exists_of_mem_aliases ha
  obtain ⟨ht, hne, hp, -⟩ := aliasOf?_eq_some he
  have hid := ModuleTable.id_of_find? ht
  have hfind := h.sorted.find?_of_mem hm
  obtain ⟨text, htext⟩ := ((h.modules _ _ hfind).1.dependencies d hd).1.resolve_left hne
  exact ⟨.inl (hid ▸ ht), hid ▸ (h.modules _ _ ht).2.2, text, by rw [hp, htext]⟩

theorem through_foldl_persistAlias (as : List Alias)
    (ha : ∀ a ∈ as, w.HasAlias a ∧ ids a.target.id) :
    Through (Keeps w.graph.store ids) w.disk (as.foldl World.persistAlias w).disk := by
  induction as generalizing w with
  | nil => exact .refl _
  | cons a as ih =>
    have hsame := World.sameGraph_persistAlias w a
    obtain ⟨halias, hid⟩ := ha a List.mem_cons_self
    have hstep : Through (Keeps w.graph.store ids) w.disk (w.persistAlias a).disk := by
      rcases disk_persistAlias w a with ⟨hd, -⟩ | hd <;> rw [hd]
      · exact .refl _
      · obtain ⟨text, hnames, hpath⟩ := halias.exists_codePath w.graph.store
        rw [hpath]
        exact .one (.writeUnder _ _ hid hnames) _
    rw [List.foldl_cons]
    refine hstep.trans ?_
    rw [← hsame.store]
    exact ih fun b hb ↦
      have hb := ha b (List.mem_cons_of_mem a hb)
      ⟨⟨hsame.has.2 hb.1.target, hb.1.isLocal, hb.1.hash⟩, hb.2⟩

theorem through_persistAliases {F : Prop} {T : String → Prop} (h : Sound F T w)
    (visited : List String) :
    Through (Keeps w.graph.store fun x ↦ x ∈ visited ∧ ModuleId.Proper x) w.disk
      (w.persistAliases visited).disk := by
  refine through_foldl_persistAlias _ fun a ha ↦ ?_
  obtain ⟨ha, hv⟩ := List.mem_filter.1 ha
  have ha := hasAlias_of_mem h ha
  exact ⟨ha, List.contains_iff_mem.1 hv, (h.known ha.target).proper⟩

end Aliases

section Histories

variable {text : String} {m₀ : Module}

theorem Kept.persistAliases (h : Kept ids w) (visited : List String) :
    Kept ids (w.persistAliases visited) ∧ ∀ a ∈ w.graph.aliases, a.target.id ∈ visited →
      readText? (w.persistAliases visited).disk
        (w.graph.store.codePath a.target.stem (some a.hashPrefix)) = some a.target.code := by
  obtain ⟨hk, -, hread⟩ := h.foldl_persistAlias
    (w.graph.aliases.filter fun a ↦ visited.contains a.target.id)
    fun a ha ↦ hasAlias_of_mem h.sound (List.mem_of_mem_filter ha)
  rw [World.persistAliases]
  exact ⟨hk, fun a ha hv ↦ hread a (List.mem_filter.2 ⟨ha, List.contains_iff_mem.2 hv⟩)⟩

theorem Kept.of_yields {r : Run} {o : Options} {out : Outcome} (h : Kept ids w)
    (hid : ModuleId.Proper id) (hy : Yields (Run.start w) (.visit id o) out r)
    (hids : r.world.Each (ids ·.id)) : Kept ids r.world :=
  (hy.keeps h (fun _ hm ↦ by cases hm) hid hids).1

theorem Kept.compile (h : Kept ids w) {o : Options}
    (hids : (w.compile text o).2.Each (ids ·.id)) : Kept ids (w.compile text o).2 := by
  rcases compile_cases w text o with
    ⟨cause, -, hc⟩ | ⟨id, r, he, ⟨stop, hy, hc⟩ | ⟨m, hy, hc⟩⟩
  · rw [hc]
    exact h
  · rw [hc] at hids ⊢
    exact h.of_yields (proper_entryId he) hy hids
  · rw [hc] at hids ⊢
    have hsame := World.sameGraph_persistAliases r.world r.visited
    have hids' : r.world.Each (ids ·.id) := fun id m hm ↦ hids id m (hsame.has.2 hm)
    exact ((h.of_yields (proper_entryId he) hy hids').persistAliases r.visited).1

/-- An edit leaves the paths into the store as they are. -/
def World.Spares (w : World) : Event → Prop
  | .edit disk _ => ∀ path place, w.disk.locate path = .ok place → w.storePlace <+: place →
      disk.locate path = .ok place
  | _ => True

/-- Modules are compiled with all that they import and are not forgotten; an edit leaves the paths
into the store as they are. -/
def World.Whole (w : World) : Event → Prop
  | .compile _ o => o = .default
  | .remove _ => False
  | .edit disk _ => ∀ path place, w.disk.locate path = .ok place → w.storePlace <+: place →
      disk.locate path = .ok place
  | .restart .. => True

/-- The store has a place for the code of each module with one of the ids, and all that is written
for them is written. -/
def World.CanKeep (w : World) (ids : String → Prop) : Prop :=
  w.Apart ids ∧ Accepts (Keeps w.graph.store ids) w.disk

theorem Kept.edit (h : Kept ids w) {disk : Disk} {network : Network}
    (ha : w.Admits (.edit disk network)) (hw : w.Spares (.edit disk network))
    (hkeep : (w.react (.edit disk network)).CanKeep ids) :
    Kept ids (w.react (.edit disk network)) := by
  refine ⟨h.sound.react False.elim ha fun _ _ _ ↦ trivial, h.each, hkeep.1, hkeep.2,
    fun id m hm ↦ ?_⟩
  have hknown := h.sound.known hm
  have hfile : readText? w.disk m.file = some m.code := h.files id m hm
  obtain ⟨place, hl, he⟩ := Disk.readBytes_eq_ok (ArtifactStore.readText?_eq_some hfile)
  have hbelow : w.storePlace <+: place := by
    rw [Disk.locate_eq_ok hl, hknown.file, Module.stem]
    refine (codePath_place w hknown.proper fun x hx ↦ ?_).1
    have hn := hknown.names
    rw [Option.mem_def.1 hx] at hn
    exact hn.2
  refine ArtifactStore.readText?_of_readBytes ?_
  exact Disk.readBytes_of_file (hw _ _ hl hbelow) ((ha.2 place hbelow).trans he)

theorem Kept.remove (h : Kept ids w) (id : String) : Kept ids (w.react (.remove id)) := by
  have hhas : ∀ x m, (w.react (.remove id)).Has x m → w.Has x m := fun _ _ ↦ World.has_of_remove
  exact ⟨h.sound.react False.elim trivial fun _ _ _ ↦ trivial, fun x m hm ↦ h.each x m (hhas x m hm),
    h.apart, h.accepts, fun x m hm ↦ h.files x m (hhas x m hm)⟩

theorem World.Fresh.not_has (h : w.Fresh) (id : String) (m : Module) : ¬w.Has id m := by
  rintro (hm | hm)
  · rw [module?, h.modules] at hm
    cases hm
  · rw [remoteModule?, h.remote] at hm
    cases hm

theorem World.not_has_restart (w : World) (folder : Source.Folder) (settings : Settings)
    (id : String) (m : Module) : ¬(w.react (.restart folder settings)).Has id m := by
  rintro (hm | hm) <;> cases hm

theorem kept_of_history {ws : List World} (h : History World.Spares ws)
    (hids : ∀ w ∈ ws, w.Each (ids ·.id)) (hkeep : ∀ w ∈ ws, w.CanKeep ids) :
    ∀ w ∈ ws, Kept ids w := by
  induction h with
  | @start w hf =>
    intro w' hw
    rw [List.mem_singleton.1 hw]
    have hk := hkeep w List.mem_cons_self
    exact ⟨sound_of_fresh hf, fun id m hm ↦ absurd hm (hf.not_has id m), hk.1, hk.2,
      fun id m hm ↦ absurd hm (hf.not_has id m)⟩
  | @step w ws e hb ha hw ih =>
    have hbefore := ih (fun v hv ↦ hids v (List.mem_cons_of_mem _ hv))
      fun v hv ↦ hkeep v (List.mem_cons_of_mem _ hv)
    have hk := hbefore w List.mem_cons_self
    intro v hv
    rcases List.mem_cons.1 hv with rfl | hv
    · have hids := hids _ List.mem_cons_self
      have hkeep := hkeep _ List.mem_cons_self
      cases e with
      | compile text o => exact hk.compile hids
      | remove id => exact hk.remove id
      | edit disk network => exact hk.edit ha hw hkeep
      | restart folder settings =>
        have hnone := w.not_has_restart folder settings
        exact ⟨hk.sound.react False.elim trivial fun _ _ _ ↦ trivial,
          fun id m hm ↦ absurd hm (hnone id m), hkeep.1, hkeep.2,
          fun id m hm ↦ absurd hm (hnone id m)⟩
    · exact hbefore v hv

/-- The ids of the modules that are registered in the course of a history. -/
def registeredIn (ws : List World) (id : String) : Prop :=
  ∃ w ∈ ws, ∃ m, w.Has id m

end Histories

section TopLevel

open Disk (IsName)
open ArtifactStore (Flat flat_of_entries mapEnding)

structure TopLevel (id name : String) : Prop where
  isLocal : ¬ModuleId.isRemote id
  stem : ModuleId.stem id = "/" ++ name
  slash : '/' ∉ name.toList
  nul : '\x00' ∉ name.toList
  size : name.utf8ByteSize ≤ 200

variable {root name : String}

theorem TopLevel.isName (h : TopLevel id name) {ending : String} (hl : 3 ≤ ending.length)
    (hs : ∀ c ∈ ending.toList, c ≠ '/' ∧ c ≠ '\x00') (hb : ending.utf8ByteSize ≤ 50) :
    IsName (name ++ ending) := by
  have hlen : 3 ≤ (name ++ ending).length := by
    rw [String.length_append]
    omega
  refine ⟨?_, ?_, ⟨?_, ?_, ?_⟩, ?_⟩
  · rw [String.toList_append]
    exact fun hm ↦ (List.mem_append.1 hm).elim h.slash fun hm ↦ (hs _ hm).1 rfl
  · rw [String.toList_append]
    exact fun hm ↦ (List.mem_append.1 hm).elim h.nul fun hm ↦ (hs _ hm).2 rfl
  · exact fun he ↦ absurd (he ▸ hlen) (by decide)
  · exact fun he ↦ absurd (he ▸ hlen) (by decide)
  · exact fun he ↦ absurd (he ▸ hlen) (by decide)
  · have hsize := h.size
    rw [String.utf8ByteSize_append]
    unfold Disk.maxName
    omega

theorem path_topLevel (hr : IsName root) (h : TopLevel id name) {ending : String}
    (hs : ∀ c ∈ ending.toList, c ≠ '/') (hne : ending ≠ "") :
    ArtifactStore.path ⟨root⟩ (ModuleId.stem id ++ ending) = root ++ "/" ++ (name ++ ending) := by
  have hslash : ∀ c ∈ (name ++ ending).toList, c ≠ '/' := by
    intro c hc
    rw [String.toList_append] at hc
    rcases List.mem_append.1 hc with hc | hc
    · exact fun he ↦ h.slash (he ▸ hc)
    · exact hs c hc
  obtain ⟨c, cs, hc⟩ : ∃ c cs, (name ++ ending).toList = c :: cs := by
    refine List.exists_cons_of_ne_nil fun he ↦ hne ?_
    rw [String.toList_append, List.append_eq_nil_iff] at he
    rw [← String.ofList_toList (s := ending), he.2]
  have hcne : c ≠ '/' := hslash c (hc ▸ List.mem_cons_self)
  have htrim : Text.trimStart (· = '/') (ModuleId.stem id ++ ending) = name ++ ending := by
    rw [h.stem, String.append_assoc, Text.trimStart, String.toList_append, hc]
    change String.ofList (('/' :: c :: cs).dropWhile _) = _
    rw [List.dropWhile_cons_of_pos (by simp), List.dropWhile_cons_of_neg (by simpa using hcne), ← hc,
      String.ofList_toList]
  have habs : FilePath.isAbsolute (name ++ ending) = false := by
    rw [FilePath.isAbsolute, Text.startsWith, hc]
    exact Bool.and_eq_false_imp.2 fun he ↦ absurd (eq_of_beq he).symm hcne
  have hend : Text.endsWith root "/" = false := by
    refine Bool.eq_false_iff.2 fun he ↦ hr.slash ?_
    exact (List.isSuffixOf_iff_suffix.1 he).subset List.mem_cons_self
  rw [ArtifactStore.path, htrim, FilePath.join, habs, hend, Bool.false_or,
    if_neg (by simpa using hr.special.1), if_neg Bool.false_ne_true]

def localEnding (text : String) : String :=
  "." ++ hashPrefix (contentHash text) ++ ".js"

theorem codePath_local (store : ArtifactStore) (stem text : String) :
    store.codePath stem (some (contentHash text)) = store.path (stem ++ localEnding text) := by
  simp only [ArtifactStore.codePath, Module.nameOf, localEnding, String.append_assoc]

theorem length_localEnding (text : String) : (localEnding text).toList.length = 13 := by
  simp only [localEnding, String.toList_append, List.length_append,
    Digest.hashPrefix_contentHash, List.length_take, Digest.length_contentHash]
  rfl

theorem mem_localEnding {text : String} {c : Char} (hc : c ∈ (localEnding text).toList) :
    c ≠ '/' ∧ c ≠ '\x00' := by
  rw [localEnding, String.toList_append, String.toList_append] at hc
  rcases List.mem_append.1 hc with hc | hc
  · rcases List.mem_append.1 hc with hc | hc
    · rw [List.mem_singleton.1 (show c ∈ ['.'] from hc)]
      decide
    · rw [Digest.hashPrefix_contentHash] at hc
      have hc := (Digest.ascii_contentHash (List.mem_of_mem_take hc)).2
      constructor <;> rintro rfl <;> exact absurd hc (by decide)
  · have hall : ∀ c ∈ ".js".toList, c ≠ '/' ∧ c ≠ '\x00' := by simp
    exact hall c hc

theorem size_localEnding (text : String) : (localEnding text).utf8ByteSize = 13 := by
  rw [localEnding, String.utf8ByteSize_append, String.utf8ByteSize_append,
    Digest.utf8ByteSize_eq_octets (hashPrefix _), Digest.octets_hashPrefix_contentHash]
  rfl

theorem TopLevel.isName_local (h : TopLevel id name) (text : String) :
    IsName (name ++ localEnding text) ∧ IsName (name ++ localEnding text ++ mapEnding) := by
  have hlen : (localEnding text).length = 13 := length_localEnding text
  refine ⟨h.isName (by omega) (fun c ↦ mem_localEnding) (by rw [size_localEnding]; decide), ?_⟩
  rw [String.append_assoc]
  refine h.isName (by rw [String.length_append]; omega) (fun c hc ↦ ?_) ?_
  · rw [String.toList_append] at hc
    have hall : ∀ c ∈ mapEnding.toList, c ≠ '/' ∧ c ≠ '\x00' := by simp [mapEnding]
    exact (List.mem_append.1 hc).elim mem_localEnding (hall c)
  · rw [String.utf8ByteSize_append, size_localEnding]
    decide

theorem codePath_topLevel (hr : IsName root) (h : TopLevel id name) (text : String) :
    ArtifactStore.codePath ⟨root⟩ (ModuleId.stem id) (some (contentHash text)) =
      root ++ "/" ++ (name ++ localEnding text) := by
  rw [codePath_local, path_topLevel hr h fun c hc ↦ (mem_localEnding hc).1]
  intro he
  have hlen := length_localEnding text
  rw [he] at hlen
  cases hlen

theorem flat_of_keeps (hr : IsName root) (hids : ∀ id, ids id → ∃ name, TopLevel id name)
    {disk : Disk} (hf : Flat root disk) {a : Disk.Action Unit} (ha : Keeps ⟨root⟩ ids a) :
    (disk.perform a).1 = .ok () ∧ Flat root (disk.perform a).2 := by
  cases ha with
  | @write m hfiled hid =>
    obtain ⟨name, hname⟩ := hids m.id hid
    have hremote : m.isRemote = false := by
      rw [hfiled.isRemote]
      exact Bool.eq_false_iff.2 hname.isLocal
    have hfile : m.file = root ++ "/" ++ (name ++ localEnding m.code) := by
      rw [hfiled.file, Module.nameHash, hremote, if_neg Bool.false_ne_true, hfiled.hash,
        Module.stem, codePath_topLevel hr hname]
    have hall : ∀ c ∈ ".meta.json".toList, c ≠ '/' ∧ c ≠ '\x00' := by simp
    rw [hfile]
    exact hf.write hr (hname.isName_local m.code).1 (hname.isName_local m.code).2
      (path_topLevel hr hname (fun c hc ↦ (hall c hc).1) (by decide))
      (hname.isName (by decide) hall (by decide)) _ _ _
  | @writeUnder id hash code map hid hnames =>
    obtain ⟨name, hname⟩ := hids id hid
    obtain ⟨-, text, rfl⟩ := hnames
    rw [codePath_topLevel hr hname]
    exact hf.writeCode hr (hname.isName_local text).1 (hname.isName_local text).2 code map

/-- A store at a directory without directories in it can keep modules that lie side by side. -/
theorem canKeep_of_flat (hr : IsName root) (hroot : w.graph.store = ⟨root⟩) (hf : Flat root w.disk)
    (hids : ∀ id, ids id → ∃ name, TopLevel id name)
    (hinj : ∀ id id', ids id → ids id' → ModuleId.stem id = ModuleId.stem id' → id = id') :
    w.CanKeep ids := by
  constructor
  · intro a b ha hb hia hib hna hnb he
    obtain ⟨na, hta⟩ := hids a hia
    obtain ⟨nb, htb⟩ := hids b hib
    have hplace : ∀ {id name hash}, TopLevel id name → Names id hash → ∃ text,
        w.codePlace id hash = w.disk.workingDirectory ++ [root, name ++ localEnding text] := by
      rintro id name (_ | hash) ht hn
      · exact absurd hn ht.isLocal
      · obtain ⟨-, text, rfl⟩ := hn
        refine ⟨text, ?_⟩
        rw [World.codePlace, hroot, codePath_topLevel hr ht]
        exact (Disk.locate_eq_ok (hr.locate_join (ht.isName_local text).1 hf.root hf.base)).symm
    obtain ⟨x, hx⟩ := hplace hta hna
    obtain ⟨y, hy⟩ := hplace htb hnb
    rw [hx, hy] at he
    have hname : na ++ localEnding x = nb ++ localEnding y := by simpa using he
    have hlist := congrArg String.toList hname
    rw [String.toList_append, String.toList_append] at hlist
    have hsame := (List.append_inj' hlist (by rw [length_localEnding, length_localEnding])).1
    refine hinj a b hia hib ?_
    rw [hta.stem, htb.stem, ← String.ofList_toList (s := na), hsame, String.ofList_toList]
  · rw [hroot]
    intro disk hthrough a ha
    have hflat : Flat root disk := by
      induction hthrough with
      | refl => exact hf
      | step _ ha ih => exact (flat_of_keeps hr hids ih ha).2
    exact (flat_of_keeps hr hids hflat ha).1

theorem canKeep_pairWorld (h : contents w.graph = pair) :
    pairWorld.CanKeep (registeredIn [w, pairWorld]) := by
  have ha : TopLevel "/a.js" "a" := ⟨by decide, by decide, by decide, by decide, by decide⟩
  have hb : TopLevel "/b.js" "b" := ⟨by decide, by decide, by decide, by decide, by decide⟩
  have hc : IsName "c" := ⟨by decide, by decide, by decide, by decide⟩
  have hids : ∀ id, registeredIn [w, pairWorld] id → id = "/a.js" ∨ id = "/b.js" := by
    rintro id ⟨v, hv, m, hm⟩
    rcases List.mem_cons.1 hv with rfl | hv
    · have hmem := mem_contents hm
      rw [h, pair] at hmem
      rcases List.mem_cons.1 hmem with he | hmem
      · exact .inl (Prod.mk.inj he).1
      · exact .inr (Prod.mk.inj (List.mem_singleton.1 hmem)).1
    · rw [List.mem_singleton.1 hv] at hm
      rcases hm with hm | hm <;> cases hm
  have hflat : Flat "c" pairWorld.disk := flat_of_entries rfl rfl (by decide)
  refine canKeep_of_flat hc rfl hflat (fun id hid ↦ ?_) fun id id' hid hid' hs ↦ ?_
  · rcases hids id hid with rfl | rfl
    · exact ⟨"a", ha⟩
    · exact ⟨"b", hb⟩
  · rcases hids id hid with rfl | rfl <;> rcases hids id' hid' with rfl | rfl
    · rfl
    · exact absurd hs (by decide)
    · exact absurd hs (by decide)
    · rfl

end TopLevel
end SiteCompiler.Graph
