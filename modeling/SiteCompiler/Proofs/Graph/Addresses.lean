import SiteCompiler.Proofs.Graph.Artifacts

namespace SiteCompiler.Graph

open Disk (Place placeOf Grows EndsIn)
open ArtifactStore (recordEnding codeEnding mapEnding)
open Digest (contentHash hashPrefix)

variable {w w' : World} {r r' r'' : Run} {place : Place} {content : ByteArray} {id text : String}
  {m : Module}

def Issued (r r' : Run) (place : Place) (content : ByteArray) : Prop :=
  EndsIn place codeEnding → ∃ id m, id ∈ r'.visited ∧ id ∉ r.visited ∧ r'.world.Has id m ∧
    placeOf r.world.disk.workingDirectory m.file = place ∧ m.code.toUTF8 = content

theorem grows_finish (w : World) (m : Module) (changed : Bool) :
    Grows (fun p c ↦ EndsIn p codeEnding →
      placeOf w.disk.workingDirectory m.file = p ∧ m.code.toUTF8 = c) w.disk
        (w.finish m changed).disk := by
  rw [World.disk_finish]
  split
  · rw [World.persist, World.disk_persistBy]
    refine (ArtifactStore.writes_write _ _ _ _ _ _ w.disk).mono fun p c hn hend ↦ ?_
    rcases hn with ⟨rfl, -⟩ | ⟨rfl, rfl⟩ | ⟨map, -, rfl, -⟩
    · exact absurd hend (ArtifactStore.not_endsIn_of_ne
        (w.graph.store.endsIn_recordPath _ _) (by decide))
    · exact ⟨rfl, rfl⟩
    · exact absurd hend (ArtifactStore.not_endsIn_of_ne
        (ArtifactStore.endsIn_sourceMapPath _ _) (by decide))
  · exact .refl _ _

theorem grows_trans (h : Grows (Issued r r') r.world.disk r'.world.disk)
    (h' : Grows (Issued r' r'') r'.world.disk r''.world.disk) (hf : Frame r r')
    (hf' : Frame r' r'') : Grows (Issued r r'') r.world.disk r''.world.disk := by
  refine (h.mono fun p c hn hend ↦ ?_).trans (h'.mono fun p c hn hend ↦ ?_)
  · obtain ⟨id, m, hv, hnew, hm, hp⟩ := hn hend
    exact ⟨id, m, hf'.visited id hv, hnew, (hf'.has (.inl hv) m).2 hm, hp⟩
  · obtain ⟨id, m, hv, hnew, hm, hp⟩ := hn hend
    rw [h.workingDirectory] at hp
    exact ⟨id, m, hv, fun hid ↦ hnew (hf.visited id hid), hm, hp⟩

theorem grows_concluded {inner : Run} {o : Options} {m' : Module} {changed : Bool} {world : World}
    (hv : id ∉ r.visited) (hp : r.world.prepare id o = (.ok (m, changed), world))
    (hf : Frame ((r.entered id world).inside m) inner)
    (h : Grows (Issued ((r.entered id world).inside m) inner) world.disk inner.world.disk)
    (hid : m'.id = id) (changed' : Bool) :
    Grows (Issued r (inner.finished r.stack m' changed')) r.world.disk
      (inner.finished r.stack m' changed').world.disk := by
  have hin : id ∈ ((r.entered id world).inside m).visited := List.mem_cons_self
  rw [← (World.prepare_eq hp).1.disk]
  refine (h.mono fun p c hn hend ↦ ?_).trans
    ((grows_finish inner.world m' changed').mono fun p c hn hend ↦ ?_)
  · obtain ⟨x, n, hx, hnew, hn, hplace⟩ := hn hend
    have hne : m'.id ≠ x := by
      rintro rfl
      exact hnew (hid ▸ hin)
    refine ⟨x, n, hx, fun hx ↦ hnew (List.mem_cons_of_mem id hx), ?_, ?_⟩
    · exact (inner.world.has_finish_of_ne changed' hne n).2 hn
    · rw [← (World.prepare_eq hp).1.disk]
      exact hplace
  · obtain ⟨hplace, hcode⟩ := hn hend
    refine ⟨id, m', hf.visited id hin, hv, ?_, ?_, hcode⟩
    · rw [← hid]
      exact inner.world.has_finish_self m' changed'
    · rw [h.workingDirectory, (World.prepare_eq hp).1.disk] at hplace
      exact hplace

theorem Yields.issues {t : Task} {out : Outcome} (h : Yields r t out r') :
    Grows (Issued r r') r.world.disk r'.world.disk := by
  have hinside : ∀ {r inner : Run} {id : String} {o : Options} {m : Module} {changed : Bool}
      {world : World}, r.world.prepare id o = (.ok (m, changed), world) →
      Grows (Issued ((r.entered id world).inside m) inner) world.disk inner.world.disk →
      Grows (Issued r inner) r.world.disk inner.world.disk := by
    intro r inner id o m changed world hp h
    rw [← (World.prepare_eq hp).1.disk]
    refine h.mono fun p c hn hend ↦ ?_
    obtain ⟨x, n, hx, hnew, hn, hplace⟩ := hn hend
    refine ⟨x, n, hx, fun hx ↦ hnew (List.mem_cons_of_mem id hx), hn, ?_⟩
    rw [← (World.prepare_eq hp).1.disk]
    exact hplace
  induction h with
  | deep => exact .refl _ _
  | vendored => exact .refl _ _
  | again => exact .refl _ _
  | lost => exact .refl _ _
  | @unprepared r id o stop world _ _ hp =>
    change Grows _ _ world.disk
    rw [(World.prepare_eq hp).1.disk]
    exact .refl _ _
  | @leaf r id o m changed world _ hv hp _ =>
    have hinner := Frame.refl ((r.entered id world).inside m)
    exact grows_concluded hv hp hinner (.refl _ _) (Prepares.of_eq hp).id_eq changed
  | dropped _ _ hp _ _ ih => exact hinside hp ih
  | kept _ hv hp _ hb ih =>
    exact grows_concluded hv hp hb.frame.1 ih (Prepares.of_eq hp).id_eq _
  | broken _ _ hp _ _ _ ih => exact hinside hp ih
  | relinked _ hv hp _ hb hl ih =>
    exact grows_concluded hv hp hb.frame.1 ih ((relink_id hl).1.trans (Prepares.of_eq hp).id_eq) _
  | done => exact .refl _ _
  | failed _ ih => exact ih
  | cut hf ho ih ih' => exact grows_trans ih ih' hf.frame.1 ho.frame.1
  | next hf ho ih ih' => exact grows_trans ih ih' hf.frame.1 ho.frame.1

namespace World

def Issues (w : World) (place : Place) (text : String) : Prop :=
  ∃ id m, w.Has id m ∧ placeOf w.disk.workingDirectory m.file = place ∧ m.code = text

def Lends (w : World) (place : Place) : Prop :=
  ∃ a ∈ w.graph.aliases, placeOf w.disk.workingDirectory
    (w.graph.store.codePath a.target.stem (some a.hashPrefix)) = place

end World

theorem grows_persistAliases (w : World) (visited : List String) :
    Grows (fun p _ ↦ EndsIn p codeEnding → w.Lends p) w.disk
      (w.persistAliases visited).disk := by
  have hall : ∀ (as : List Alias) (u : World), u.graph.store = w.graph.store →
      u.disk.workingDirectory = w.disk.workingDirectory → (∀ a ∈ as, a ∈ w.graph.aliases) →
      Grows (fun p _ ↦ EndsIn p codeEnding → w.Lends p) u.disk
        (as.foldl World.persistAlias u).disk := by
    intro as
    induction as with
    | nil => exact fun u _ _ _ ↦ .refl _ _
    | cons a as ih =>
      intro u hs hwd ha
      have hstep : Grows (fun p _ ↦ EndsIn p codeEnding → w.Lends p) u.disk
          (u.persistAlias a).disk := by
        rcases disk_persistAlias u a with ⟨hd, -⟩ | hd <;> rw [hd]
        · exact .refl _ _
        · refine (ArtifactStore.writes_writeCode _ _ _ u.disk).mono fun p c hn hend ↦ ?_
          rcases hn with ⟨hp, -⟩ | ⟨map, -, rfl, -⟩
          · rw [hs, hwd] at hp
            exact ⟨a, ha a List.mem_cons_self, hp⟩
          · exact absurd hend (ArtifactStore.not_endsIn_of_ne
              (ArtifactStore.endsIn_sourceMapPath _ _) (by decide))
      rw [List.foldl_cons]
      refine hstep.trans (ih _ ?_ (hstep.workingDirectory.trans hwd)
        fun b hb ↦ ha b (List.mem_cons_of_mem a hb))
      exact (World.sameGraph_persistAlias u a).store.trans hs
  rw [World.persistAliases]
  exact hall _ w rfl rfl fun a ha ↦ List.mem_of_mem_filter ha

theorem World.Lends.of_sameGraph (h : w.Lends place) (hs : World.SameGraph w w')
    (hwd : w'.disk.workingDirectory = w.disk.workingDirectory) : w'.Lends place := by
  obtain ⟨a, ha, hp⟩ := h
  refine ⟨a, ?_, ?_⟩
  · rw [aliases_eq] at ha ⊢
    have hnote : w'.graph.noteAlias = w.graph.noteAlias := by
      funext found d
      rw [noteAlias, noteAlias, aliasOf?, aliasOf?, hs.modules]
    rw [hnote, hs.modules]
    exact ha
  · rw [hs.store, hwd]
    exact hp

/-- All code that a call writes is that of modules which are registered when it ends, by their own
names or by names that are lent to them. -/
theorem grows_compile (w : World) (text : String) (o : Options) :
    Grows (fun p c ↦ EndsIn p codeEnding →
      (∃ t, (w.compile text o).2.Issues p t ∧ t.toUTF8 = c) ∨ (w.compile text o).2.Lends p)
      w.disk (w.compile text o).2.disk := by
  rcases compile_cases w text o with ⟨cause, -, hc⟩ | ⟨id, r, -, ⟨stop, hy, hc⟩ | ⟨m, hy, hc⟩⟩
  · rw [hc]
    exact .refl _ _
  · have hg : Grows (Issued (Run.start w) r) w.disk r.world.disk := hy.issues
    rw [hc]
    refine hg.mono fun p c hn hend ↦ .inl ?_
    obtain ⟨x, m, -, -, hm, hp, hcode⟩ := hn hend
    exact ⟨m.code, ⟨x, m, hm, by rw [hg.workingDirectory]; exact hp, rfl⟩, hcode⟩
  · have hg : Grows (Issued (Run.start w) r) w.disk r.world.disk := hy.issues
    have hg' := grows_persistAliases r.world r.visited
    have hsame := World.sameGraph_persistAliases r.world r.visited
    rw [hc]
    refine (hg.mono fun p c hn hend ↦ ?_).trans (hg'.mono fun p c hn hend ↦ ?_)
    · obtain ⟨x, m, -, -, hm, hp, hcode⟩ := hn hend
      refine .inl ⟨m.code, ⟨x, m, hsame.has.2 hm, ?_, rfl⟩, hcode⟩
      rw [hg'.workingDirectory, hg.workingDirectory]
      exact hp
    · exact .inr ((hn hend).of_sameGraph hsame hg'.workingDirectory)

section Histories

variable {F : Prop} {T : String → Prop} {allowed : World → Event → Prop} {v u : World}
  {ws : List World} {e : Event} {t : String}

theorem store_react (ha : w.Admits e) : (w.react e).graph.store = w.graph.store ∧
    (w.react e).storePlace = w.storePlace := by
  cases e with
  | compile text o =>
    have hs : (w.compile text o).2.graph.store = w.graph.store := w.store_compile text o
    refine ⟨hs, ?_⟩
    rw [World.react_compile, World.storePlace, World.storePlace, hs,
      (grows_compile w text o).workingDirectory]
  | remove => exact ⟨rfl, rfl⟩
  | edit disk network => exact ⟨rfl, ha.1⟩
  | restart => exact ⟨rfl, rfl⟩

theorem store_of_history (h : History allowed (v :: ws)) : ∀ w ∈ v :: ws,
    v.graph.store = w.graph.store ∧ v.storePlace = w.storePlace := by
  generalize hall : v :: ws = worlds at h
  induction h generalizing v ws with
  | start =>
    obtain ⟨rfl, rfl⟩ := List.cons.inj hall
    intro w hw
    rw [List.mem_singleton.1 hw]
    exact ⟨rfl, rfl⟩
  | step _ ha _ ih =>
    obtain ⟨rfl, rfl⟩ := List.cons.inj hall
    intro w hw
    rcases List.mem_cons.1 hw with rfl | hw
    · exact ⟨rfl, rfl⟩
    · obtain ⟨hs, hp⟩ := ih rfl w hw
      obtain ⟨hs', hp'⟩ := store_react ha
      exact ⟨hs'.trans hs, hp'.trans hp⟩

theorem codePlace_eq (hs : v.graph.store = w.graph.store) (hp : v.storePlace = w.storePlace)
    (id : String) (hash : Option String) : v.codePlace id hash = w.codePlace id hash := by
  rw [World.storePlace, World.storePlace, hs] at hp
  rw [World.codePlace, World.codePlace, hs, ArtifactStore.codePath, ArtifactStore.placeOf_path,
    ArtifactStore.placeOf_path, hp]

theorem file_react (ha : w.Admits e) (hb : w.storePlace <+: place)
    (hc : w.disk.entry? place = some (.file content)) :
    ∃ content', (w.react e).disk.entry? place = some (.file content') := by
  cases e with
  | compile text o => exact (grows_compile w text o).files place content hc
  | remove => exact ⟨content, hc⟩
  | edit disk network => exact ⟨content, (ha.2 place hb).trans hc⟩
  | restart => exact ⟨content, hc⟩

theorem file_of_history (h : History allowed (v :: ws)) (hw : w ∈ v :: ws)
    (hb : w.storePlace <+: place) (hc : w.disk.entry? place = some (.file content)) :
    ∃ content', v.disk.entry? place = some (.file content') := by
  generalize hall : v :: ws = worlds at h
  induction h generalizing v ws with
  | start =>
    obtain ⟨rfl, rfl⟩ := List.cons.inj hall
    rw [List.mem_singleton.1 hw] at hc
    exact ⟨content, hc⟩
  | step before ha _ ih =>
    obtain ⟨rfl, rfl⟩ := List.cons.inj hall
    rcases List.mem_cons.1 hw with rfl | hw
    · exact ⟨content, hc⟩
    · obtain ⟨content', hc'⟩ := ih hw rfl
      refine file_react ha ?_ hc'
      rw [(store_of_history before w hw).2]
      exact hb

theorem origin_react (ha : w.Admits e) (hb : w.storePlace <+: place) (hend : EndsIn place codeEnding)
    (hc : (w.react e).disk.entry? place = some (.file content)) :
    w.disk.entry? place = some (.file content) ∨
      (∃ t, (w.react e).Issues place t ∧ t.toUTF8 = content) ∨ (w.react e).Lends place := by
  cases e with
  | compile text o =>
    exact ((grows_compile w text o).origin place content hc).imp_right fun hn ↦ hn hend
  | remove => exact .inl hc
  | edit disk network => exact .inl ((ha.2 place hb).symm.trans hc)
  | restart => exact .inl hc

theorem origin_of_history (h : History allowed (v :: ws)) (hw : w ∈ v :: ws)
    (hb : w.storePlace <+: place) (hend : EndsIn place codeEnding)
    (hc : w.disk.entry? place = some (.file content)) : ∃ u ∈ v :: ws,
      (∃ t, u.Issues place t ∧ t.toUTF8 = content) ∨ u.Lends place := by
  generalize hall : v :: ws = worlds at h
  induction h generalizing v ws w with
  | @start w₀ hf =>
    obtain ⟨rfl, rfl⟩ := List.cons.inj hall
    obtain rfl := List.mem_singleton.1 hw
    have hmark : EndsIn place "VERSION" :=
      ⟨w.storePlace, "", by rw [hf.files place content hb hc, String.empty_append]⟩
    exact absurd hend (ArtifactStore.not_endsIn_of_ne hmark (by decide))
  | @step w₀ ws₀ e before ha _ ih =>
    obtain ⟨rfl, rfl⟩ := List.cons.inj hall
    rcases List.mem_cons.1 hw with rfl | hw
    · rw [(store_react ha).2] at hb
      rcases origin_react ha hb hend hc with hc | hnew
      · obtain ⟨u, hu, h⟩ := ih List.mem_cons_self hb hc rfl
        exact ⟨u, List.mem_cons_of_mem _ hu, h⟩
      · exact ⟨_, List.mem_cons_self, hnew⟩
    · obtain ⟨u, hu, h⟩ := ih hw hb hc rfl
      exact ⟨u, List.mem_cons_of_mem _ hu, h⟩

theorem endsIn_codePlace (w : World) (id text : String) :
    EndsIn (w.codePlace id (some (contentHash text))) (localEnding text) := by
  have hlen : (localEnding text).length = 13 := length_localEnding text
  have hslash : '/' ∉ (localEnding text).toList := fun hm ↦ (mem_localEnding hm).1 rfl
  rw [World.codePlace, codePath_local, ArtifactStore.path_append]
  · exact Disk.endsIn_placeOf (by omega) hslash _ _
  · intro c hc
    have hc : c ∈ (localEnding text).toList := List.mem_of_head? hc
    exact (mem_localEnding hc).1

theorem hashPrefix_of_codePlace {id' text' : String} (h : w.codePlace id (some (contentHash text)) =
    v.codePlace id' (some (contentHash text'))) :
    hashPrefix (contentHash text) = hashPrefix (contentHash text') := by
  obtain ⟨front, name, hp⟩ := endsIn_codePlace w id text
  obtain ⟨front', name', hp'⟩ := endsIn_codePlace v id' text'
  rw [hp, hp'] at h
  obtain ⟨-, hlast⟩ := List.append_inj' h (by simp)
  have hlist := congrArg String.toList (List.cons.inj hlast).1
  rw [String.toList_append, String.toList_append] at hlist
  have hend := (List.append_inj' hlist (by rw [length_localEnding, length_localEnding])).2
  simp only [localEnding, String.toList_append, List.append_assoc, List.append_cancel_left_eq] at hend
  exact String.toList_inj.1 (List.append_cancel_right hend)

/-- A place that belongs to local code alone: the name is not lent, and it is not that of a remote
module. -/
structure World.Reserves (w : World) (place : Place) : Prop where
  lends : ¬w.Lends place
  remote : ∀ id m, w.graph.remoteModule? id = some m →
    placeOf w.disk.workingDirectory m.file ≠ place

theorem World.Issues.hashPrefix_eq (h : w.Issues place t) (hs : Sound F T w) (hr : w.Reserves place)
    (hp : place = v.codePlace id (some (contentHash text))) :
    hashPrefix (contentHash t) = hashPrefix (contentHash text) := by
  obtain ⟨x, m, hm, hplace, rfl⟩ := h
  have hm' := hm.resolve_right fun hm ↦ hr.remote x m hm hplace
  obtain ⟨hknown, -, hlocal⟩ := hs.modules x m hm'
  have hremote : m.isRemote = false := by
    rw [hknown.isRemote, hm.id_eq]
    exact Bool.eq_false_iff.2 hlocal
  have hfile : w.codePlace m.id (some (contentHash m.code)) = place := by
    rw [← hplace, hknown.file, Module.nameHash, hremote, if_neg Bool.false_ne_true, hknown.hash,
      World.codePlace, Module.stem]
  exact hashPrefix_of_codePlace (hfile.trans hp)

/-- As long as the name of local code is not lent and is not that of a remote module, its file holds
a compiled text whose hash starts with the digits of the name. It holds the same octets from then on,
unless two compiled texts have these digits in common. -/
theorem addressed_of_history (h : History (fun _ _ ↦ True) (v :: ws)) (hw : w ∈ v :: ws)
    (hid : ModuleId.Proper id)
    (hc : w.disk.entry? (w.codePlace id (some (contentHash text))) = some (.file content))
    (hown : ∀ u ∈ v :: ws, u.Reserves (w.codePlace id (some (contentHash text)))) :
    ∃ t, heldIn (v :: ws) t ∧ t.toUTF8 = content ∧
      hashPrefix (contentHash t) = hashPrefix (contentHash text) ∧
      ∃ t', v.disk.entry? (v.codePlace id (some (contentHash text))) = some (.file t'.toUTF8) ∧
        heldIn (v :: ws) t' ∧ hashPrefix (contentHash t') = hashPrefix (contentHash t) := by
  have hplace : ∀ u ∈ v :: ws, u.storePlace <+: u.codePlace id (some (contentHash text)) ∧
      u.codePlace id (some (contentHash text)) = w.codePlace id (some (contentHash text)) := by
    intro u hu
    obtain ⟨hs, hp⟩ := store_of_history h u hu
    obtain ⟨hs', hp'⟩ := store_of_history h w hw
    refine ⟨(codePath_place u hid fun x hx ↦ ?_).1, codePlace_eq (hs.symm.trans hs')
      (hp.symm.trans hp') _ _⟩
    exact ⟨text, (Option.some_inj.1 hx).symm⟩
  have hheld : ∀ u ∈ v :: ws, ∀ c,
      u.disk.entry? (u.codePlace id (some (contentHash text))) = some (.file c) →
      ∃ t, heldIn (v :: ws) t ∧ t.toUTF8 = c ∧
        hashPrefix (contentHash t) = hashPrefix (contentHash text) := by
    intro u hu c hc
    have hend : EndsIn (u.codePlace id (some (contentHash text))) codeEnding :=
      u.graph.store.endsIn_codePath _ _ _
    obtain ⟨x, hx, ⟨t, ht, rfl⟩ | hl⟩ := origin_of_history h hu (hplace u hu).1 hend hc
    · refine ⟨t, ?_, rfl, ht.hashPrefix_eq (sound_heldIn h x hx) ?_ rfl⟩
      · obtain ⟨y, m, hm, -, hcode⟩ := ht
        exact ⟨x, hx, y, m, hm, hcode⟩
      · rw [(hplace u hu).2]
        exact hown x hx
    · rw [(hplace u hu).2] at hl
      exact absurd hl (hown x hx).lends
  obtain ⟨t, ht, rfl, hprefix⟩ := hheld w hw content hc
  have hv := hplace v List.mem_cons_self
  obtain ⟨content', hc'⟩ := file_of_history h hw (hplace w hw).1 hc
  rw [← hv.2] at hc'
  obtain ⟨t', ht', rfl, hprefix'⟩ := hheld v List.mem_cons_self content' hc'
  exact ⟨t, ht, rfl, hprefix, t', hc', ht', hprefix'.trans hprefix.symm⟩

theorem codePlace_pairWorld :
    pairWorld.codePlace "/b.js" (some (contentHash "")) = ["c", "b.da39a3ee5.js"] := by
  rw [contentHash_empty]
  decide +kernel

theorem file_pairWorld {m₀ : Module} (hok : pairWorld.compile "a.js" .default = (.ok m₀, w))
    (hpair : contents w.graph = pair) :
    w.disk.entry? (w.codePlace "/b.js" (some (contentHash ""))) = some (.file "".toUTF8) := by
  have hkept : Kept (registeredIn [w, pairWorld]) pairWorld := by
    refine kept_of_history (.start fresh_pairWorld) (fun v hv id m hm ↦ ?_)
      (fun v hv ↦ ?_) pairWorld List.mem_cons_self
    · exact ⟨v, List.mem_cons_of_mem _ hv, m, hm.id_eq.symm ▸ hm⟩
    · rw [List.mem_singleton.1 hv]
      exact canKeep_pairWorld hpair
  have hk : Kept (registeredIn [w, pairWorld]) w := by
    have hk : Kept (registeredIn [w, pairWorld]) (pairWorld.compile "a.js" .default).2 :=
      hkept.compile fun id m hm ↦ by
        rw [hok] at hm
        exact ⟨w, List.mem_cons_self, m, hm.id_eq.symm ▸ hm⟩
    rwa [hok] at hk
  obtain ⟨m, hm⟩ := @exists_of_mem_contents w "/b.js" (by rw [hpair]; decide)
  have hcode : m.code = "" := by
    have hmem := mem_contents hm
    rw [hpair] at hmem
    rcases List.mem_cons.1 hmem with he | he
    · exact absurd (Prod.mk.inj he).1 (by decide)
    · exact (Prod.mk.inj (Prod.mk.inj (List.mem_singleton.1 he)).2).1
  have hknown := hk.sound.known hm
  have hremote : m.isRemote = false := by
    rw [hknown.isRemote, hm.id_eq]
    decide
  have hread : ArtifactStore.readText? w.disk m.file = some m.code := hk.files "/b.js" m hm
  obtain ⟨place, hl, he⟩ := Disk.readBytes_eq_ok (ArtifactStore.readText?_eq_some hread)
  rw [Disk.locate_eq_ok hl, hknown.file, Module.nameHash, hremote, if_neg Bool.false_ne_true,
    hknown.hash, hcode, Module.stem, hm.id_eq] at he
  exact he

theorem addressed_pairWorld : ∃ w t, pairWorld.react (.compile "a.js" .default) = w ∧
    w.disk.entry? ["c", "b.da39a3ee5.js"] = some (.file t.toUTF8) ∧
      hashPrefix (contentHash t) = hashPrefix (contentHash "") := by
  have hh : History (fun _ _ ↦ True) [pairWorld.react (.compile "a.js" .default), pairWorld] :=
    .step (.start fresh_pairWorld) (pairWorld.admits_compile "a.js" .default) trivial
  have hproper : ModuleId.Proper "/b.js" := .inr (by decide)
  obtain ⟨m₀, w, hok, -, hpair, haliases⟩ := compile_pairWorld
  rw [World.react_compile] at hh ⊢
  rw [hok] at hh ⊢
  dsimp only at hh ⊢
  have hplace : w.codePlace "/b.js" (some (contentHash "")) = ["c", "b.da39a3ee5.js"] := by
    obtain ⟨hs, hp⟩ := store_of_history hh pairWorld (List.mem_cons_of_mem _ List.mem_cons_self)
    rw [codePlace_eq hs hp, codePlace_pairWorld]
  have hown : ∀ u ∈ [w, pairWorld],
      u.Reserves (w.codePlace "/b.js" (some (contentHash ""))) := by
    intro u hu
    have haliases : u.graph.aliases = [] := by
      rcases List.mem_cons.1 hu with rfl | hu
      · exact haliases
      · rw [List.mem_singleton.1 hu]
        rfl
    refine ⟨?_, fun id m hm ↦ ?_⟩
    · rintro ⟨a, ha, -⟩
      rw [haliases] at ha
      cases ha
    · have hremote := ((sound_heldIn hh u hu).remote id m hm).2.2
      rcases List.mem_cons.1 hu with rfl | hu
      · have hmem := mem_contents (.inr hm : u.Has id m)
        rw [hpair, pair] at hmem
        rcases List.mem_cons.1 hmem with he | hmem
        · rw [(Prod.mk.inj he).1] at hremote
          exact absurd hremote (by decide)
        · rw [(Prod.mk.inj (List.mem_singleton.1 hmem)).1] at hremote
          exact absurd hremote (by decide)
      · rw [List.mem_singleton.1 hu] at hm
        cases hm
  have hfile := file_pairWorld hok hpair
  rw [← hplace]
  obtain ⟨t, -, ht, hprefix, -⟩ := addressed_of_history hh List.mem_cons_self hproper hfile hown
  exact ⟨w, t, rfl, by rw [hfile, ht], hprefix⟩

end Histories

end SiteCompiler.Graph
