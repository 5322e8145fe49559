import SiteCompiler.Proofs.Graph.Clean
import SiteCompiler.Proofs.Graph.Progress

namespace SiteCompiler.Graph

open Relation (ReflTransGen TransGen)
open Digest (contentHash IsHash)

def World.Vendors (w : World) (id : String) : Prop :=
  ∃ m, w.graph.remote.find? id = some m

/-- The remote modules that are registered in another world are as they are compiled from scratch,
and so are all that they import. -/
def World.Supplies (w u : World) (F : Prop) (S : String → Prop) : Prop :=
  ∀ x m, S x → u.graph.remote.find? x = some m →
    (F → Clean w x m.record m.code) ∧ ∀ d ∈ m.dependencies, u.Vendors d.path

/-- What a run has finished is as it is compiled from scratch. The modules on the stack draw on one
another, so that no cycle has been met. -/
structure Run.Cleaned (F : Prop) (w : World) (S : String → Prop) (r : Run) : Prop where
  finished : ∀ x, S x → x ∈ r.visited → (∀ m ∈ r.stack, m.id ≠ x) →
    ∃ m, r.world.Has x m ∧ (F → Clean w x m.record m.code)
  remote : w.Supplies r.world F S
  chain : r.stack.IsChain fun inner outer ↦ S outer.id → w.Draws outer.id inner.id
  cyclic : ∀ x ∈ r.cyclic, ¬S x
  visited : ∀ m ∈ r.stack, m.id ∈ r.visited

def Task.Belongs (r : Run) (w : World) (S : String → Prop) : Task → Prop
  | .visit id o => o.alone = false ∧ ∀ top ∈ r.stack.head?, S top.id → w.Draws top.id id
  | .settle importer ds => (∃ top ∈ r.stack.head?, top.id = importer) ∧
      ∀ d ∈ ds, S importer → w.Draws importer d.path

def Run.Finds (F : Prop) (w : World) (S : String → Prop) (r : Run) (id : String) (m : Module) : Prop :=
  S id → (F → Clean w id m.record m.code) ∧ (ModuleId.isRemote id → r.world.Vendors id)

def Run.Settles (F : Prop) (w : World) (S : String → Prop) (r : Run) (importer : String)
    (ds : List Dependency) : Prop :=
  S importer → ∀ d ∈ ds,
    (F → ∃ record code, Clean w d.path record code ∧ d.hash = record.hash) ∧
    (ModuleId.isRemote d.path → r.world.Vendors d.path)

def Outcome.Cleaned (F : Prop) (w : World) (S : String → Prop) (r : Run) : Task → Outcome → Prop
  | .visit id _, .found m => r.Finds F w S id m
  | .settle importer _, .settled ds _ => r.Settles F w S importer ds
  | _, _ => True

variable {F : Prop} {T : String → Prop} {v w u : World} {S : String → Prop}
  {had : String → Source → Prop} {r r' inner : Run} {id : String} {o : Options} {m m' : Module}
  {changed : Bool} {world : World}

theorem World.Vendors.finish (h : u.Vendors id) (m : Module) (changed : Bool) :
    (u.finish m changed).Vendors id := by
  obtain ⟨m', hm'⟩ := h
  obtain ⟨-, -, -, -, hr⟩ := u.modules_finish m changed
  rw [Vendors, hr]
  split
  · rw [ModuleTable.find?_insert]
    split
    · exact ⟨m, rfl⟩
    · exact ⟨m', hm'⟩
  · exact ⟨m', hm'⟩

theorem Frame.vendors (h : Frame r r') (hv : r.world.Vendors id) : r'.world.Vendors id :=
  hv.imp fun m hm ↦ h.vendored id m hm

namespace Run.Cleaned

theorem ne_of_mem_stack (h : r.Cleaned F w S) (hw : w.Regular S) (hS : S id)
    (hb : ∀ top ∈ r.stack.head?, S top.id → w.Draws top.id id) (hm : m ∈ r.stack) : m.id ≠ id := by
  rintro rfl
  have hc := h.chain
  cases hs : r.stack with
  | nil =>
    rw [hs] at hm
    cases hm
  | cons top ms =>
    rw [hs] at hm hc hb
    have hcycle := (Run.transGen_of_mem_stack (I := fun a b ↦ S a → w.Draws a b) hc hm (hb top rfl)).2
    exact hw.acyclic _ hS (hw.transGen hcycle hS).1

theorem noted (h : r.Cleaned F w S) (hw : w.Regular S)
    (hb : ∀ top ∈ r.stack.head?, S top.id → w.Draws top.id id) : (r.noted id).Cleaned F w S := by
  refine ⟨h.finished, h.remote, h.chain, fun x hx hS ↦ ?_, h.visited⟩
  rcases List.mem_append.1 hx with hx | hx
  · have hcycle := Run.transGen_of_mem_cycleTo (I := fun a b ↦ S a → w.Draws a b) h.chain hb x hx
    exact hw.acyclic x hS (hw.transGen hcycle hS).1
  · exact h.cyclic x hx hS

theorem inside (h : r.Cleaned F w S) (hp : r.world.prepare id o = (.ok (m, changed), world))
    (hb : ∀ top ∈ r.stack.head?, S top.id → w.Draws top.id id) :
    ((r.entered id world).inside m).Cleaned F w S := by
  have hid := (Prepares.of_eq hp).id_eq
  have hsame := (World.prepare_eq hp).1
  refine ⟨fun x hS hx hne ↦ ?_, fun x m' hS hm' ↦ ?_, ?_, h.cyclic, fun x hx ↦ ?_⟩
  · have hx : x ∈ r.visited :=
      (List.mem_cons.1 hx).resolve_left fun he ↦ hne m List.mem_cons_self (hid.trans he.symm)
    obtain ⟨m', hm', hc⟩ := h.finished x hS hx fun y hy ↦ hne y (List.mem_cons_of_mem m hy)
    exact ⟨m', hsame.has.2 hm', hc⟩
  · change world.graph.remote.find? x = some m' at hm'
    change _ ∧ ∀ d ∈ m'.dependencies, ∃ m, world.graph.remote.find? d.path = some m
    rw [hsame.remote] at hm' ⊢
    exact h.remote x m' hS hm'
  · exact List.isChain_cons.2 ⟨fun top htop ↦ hid ▸ hb top htop, h.chain⟩
  · rcases List.mem_cons.1 hx with rfl | hx
    · exact hid ▸ List.mem_cons_self
    · exact List.mem_cons_of_mem id (h.visited x hx)

theorem finish (h : inner.Cleaned F w S) (hs : inner.stack = m :: r.stack) (hid : m'.id = m.id)
    (hc : S m'.id → F → Clean w m'.id m'.record m'.code)
    (hd : S m'.id → ModuleId.isRemote m'.id → ∀ d ∈ m'.dependencies, inner.world.Vendors d.path)
    (hsound : Graph.Sound F T (inner.world.finish m' changed)) :
    (inner.finished r.stack m' changed).Cleaned F w S := by
  have hv := h.visited
  have hch := h.chain
  rw [hs] at hv hch
  refine ⟨fun x hS hx hne ↦ ?_, fun x m₀ hS hm₀ ↦ ?_, hch.of_cons, h.cyclic,
    fun x hx ↦ hv x (List.mem_cons_of_mem m hx)⟩
  · by_cases hm : m'.id = x
    · subst hm
      exact ⟨m', inner.world.has_finish_self m' changed, hc hS⟩
    · obtain ⟨m₀, hm₀, hclean⟩ := h.finished x hS hx fun y hy ↦ by
        rw [hs] at hy
        rcases List.mem_cons.1 hy with rfl | hy
        · exact fun he ↦ hm (hid.trans he)
        · exact hne y hy
      exact ⟨m₀, (inner.world.has_finish_of_ne changed hm m₀).2 hm₀, hclean⟩
  · change (inner.world.finish m' changed).graph.remote.find? x = some m₀ at hm₀
    by_cases hm : m'.id = x
    · subst hm
      obtain rfl := hsound.has_unique (inner.world.has_finish_self m' changed) (.inr hm₀)
      have hr := (hsound.remote _ _ hm₀).2.2
      exact ⟨hc hS, fun d hd' ↦ (hd hS hr d hd').finish _ _⟩
    · rw [(inner.world.find?_finish_of_ne changed hm).2] at hm₀
      obtain ⟨hclean, hdeps⟩ := h.remote x m₀ hS hm₀
      exact ⟨hclean, fun d hd' ↦ (hdeps d hd').finish _ _⟩

end Run.Cleaned

theorem hash_settledAs {importer : String} (h : importer ∉ r.cyclic) (d : Dependency) (m : Module) :
    (r.settledAs importer d m).hash = m.hash := by
  have hk : r.keepsName importer d = false := by
    have hn : r.cyclic.contains importer = false :=
      Bool.eq_false_iff.2 fun hc ↦ h (List.contains_iff_mem.1 hc)
    rw [Run.keepsName, hn, Bool.and_false, Bool.false_and]
  rw [Run.settledAs, Run.renews, hk, Bool.not_false, Bool.and_true]
  by_cases he : m.hash = d.hash
  · simp [he]
  · simp [he]

/-- A module that is made of its source, with dependencies as they are compiled from scratch, is
entered into the graph. -/
theorem Run.Cleaned.concluded {store : ArtifactStore} (h : inner.Cleaned F w S)
    (hs : inner.stack = m :: r.stack) (hname : m'.id = m.id)
    (hid : m.id = id) (hw : w.Regular S) (hr : Remembers w S had) (hq : Derived F w S had m')
    (hm : Known F store m') (hup : S m'.id → w.UpToDate m')
    (hd : inner.Settles F w S m'.id m'.dependencies)
    (hsound : Graph.Sound F T (inner.world.finish m' changed)) :
    (inner.finished r.stack m' changed).Cleaned F w S ∧
      (inner.finished r.stack m' changed).Finds F w S id m' := by
  have hclean : S m'.id → F → Clean w m'.id m'.record m'.code := fun hS hF ↦
    .of_current hF (hq.current hS hw hr (hup hS)) hm.hash hm.isRemote fun d hd' ↦ (hd hS d hd').1 hF
  have hfin := h.finish hs hname hclean
    (fun hS hrem d hd' ↦ (hd hS d hd').2 ((hm.dependencies d hd').2.2 hrem)) hsound
  obtain rfl := hname.trans hid
  refine ⟨hfin, fun hS ↦ ⟨hclean hS, fun hrem ↦ ?_⟩⟩
  have hhas := inner.world.has_finish_self m' changed
  exact ⟨m', hhas.resolve_left fun hx ↦ (hsound.modules _ _ hx).2.2 hrem⟩

theorem World.UpToDate.relink {g : Graph} {ds : List Dependency} (h : w.UpToDate m)
    (hl : g.relink m ds = .ok m') : w.UpToDate m' := by
  rw [UpToDate, (relink_id hl).1, (relink_source hl).2.1]
  exact h

theorem Task.Belongs.first {importer : String} {d : Dependency} {rest : List Dependency}
    (h : (Task.settle importer (d :: rest)).Belongs r w S) :
    (Task.visit d.path .default).Belongs r w S := by
  obtain ⟨⟨top, htop, rfl⟩, hd⟩ := h
  refine ⟨rfl, fun m hm hS ↦ ?_⟩
  obtain rfl := Option.mem_unique hm htop
  exact hd d List.mem_cons_self hS

theorem Task.Belongs.rest {importer : String} {d : Dependency} {rest : List Dependency}
    (h : (Task.settle importer (d :: rest)).Belongs r w S) (hs : r'.stack = r.stack) :
    (Task.settle importer rest).Belongs r' w S := by
  obtain ⟨⟨top, htop, hid⟩, hd⟩ := h
  exact ⟨⟨top, hs ▸ htop, hid⟩, fun d' hd' ↦ hd d' (List.mem_cons_of_mem d hd')⟩

/-- What a part of a run finishes is as it is compiled from scratch, and no cycle is met. -/
theorem Yields.cleans (hT : Faithful F T) (hw : w.Regular S) (hr : Remembers w S had)
    (hQ : Standard Options.Plain F v (Derived F w S had))
    (hup : ∀ {u id o m changed}, v.Worked u → S id → o.Plain → Prepares u id o m changed →
      w.UpToDate m)
    {t : Task} {out : Outcome} (h : Yields r t out r') (hrec : r.Recorded F T (Derived F w S had) v)
    (hcl : r.Cleaned F w S) (ht : t.Proper) (hplain : t.Within Options.Plain) (hb : t.Belongs r w S)
    (htexts : r'.world.Each (T ·.code)) :
    w.Supplies r'.world F S ∧
      ((∀ stop, out ≠ .stopped stop) → r'.Cleaned F w S ∧ out.Cleaned F w S r' t) := by
  have hdefault : Options.default.Plain := ⟨rfl, rfl⟩
  have hbelongs : ∀ {r : Run} {id o m changed world}, r.Recorded F T (Derived F w S had) v →
      o.Plain → r.world.prepare id o = (.ok (m, changed), world) → ModuleId.Proper id →
      (Task.settle m.id m.dependencies).Belongs ((r.entered id world).inside m) w S := by
    intro r id o m changed world hrec ho hp hid
    refine ⟨⟨m, rfl, rfl⟩, fun d hd hS ↦ ?_⟩
    have hu := hup hrec.worked ((Prepares.of_eq hp).id_eq ▸ hS) ho (Prepares.of_eq hp)
    exact ((hrec.inside hT hQ hid ho hp).1.current hS hw hr hu).draws hd
  induction h with
  | deep => exact ⟨hcl.remote, fun h ↦ absurd rfl (h _)⟩
  | vendored hm =>
    exact ⟨hcl.remote, fun _ ↦ ⟨hcl, fun hS ↦ ⟨(hcl.remote _ _ hS hm).1, fun _ ↦ ⟨_, hm⟩⟩⟩⟩
  | @again r id o m hm hv hk =>
    have hn := hcl.noted hw hb.2
    refine ⟨hcl.remote, fun _ ↦ ⟨hn, fun hS ↦ ?_⟩⟩
    obtain ⟨m', hm', hclean⟩ := hcl.finished id hS hv fun x hx ↦ hcl.ne_of_mem_stack hw hS hb.2 hx
    have hmod := hm'.resolve_right fun hx ↦ by
      rw [remoteModule?, hm] at hx
      cases hx
    have hk : r.world.graph.modules.find? id = some m := by
      rcases Option.or_eq_some_iff.1 hk with hk | ⟨-, hk⟩
      · have hid := List.find?_some hk
        exact absurd (of_decide_eq_true hid)
          (hcl.ne_of_mem_stack hw hS hb.2 (List.mem_of_find?_eq_some hk))
      · exact hk
    obtain rfl := Option.some_inj.1 (hmod.symm.trans hk)
    exact ⟨hclean, fun hrem ↦ absurd hrem (hrec.sound.world.modules id m' hmod).2.2⟩
  | lost => exact ⟨hcl.remote, fun h ↦ absurd rfl (h _)⟩
  | @unprepared r id o stop world hm hv hp =>
    refine ⟨fun x m hS hx ↦ ?_, fun h ↦ absurd rfl (h _)⟩
    change world.graph.remote.find? x = some m at hx
    change _ ∧ ∀ d ∈ m.dependencies, ∃ m, world.graph.remote.find? d.path = some m
    rw [(World.prepare_eq hp).1.remote] at hx ⊢
    exact hcl.remote x m hS hx
  | @leaf r id o m changed world hm hv hp ha =>
    have hd : m.dependencies = [] := ha.resolve_left (by rw [hb.1]; exact Bool.false_ne_true)
    have hname := (Prepares.of_eq hp).id_eq
    obtain ⟨hq, hin⟩ := hrec.inside hT hQ ht hplain hp
    have hs := ((Yields.leaf hm hv hp ha).sound hT hrec.sound ht htexts).1
    have hfin := (hcl.inside hp hb.2).concluded rfl rfl hname hw hr hq (hin.sound.stack m List.mem_cons_self)
      (fun hS ↦ hup hrec.worked (hname ▸ hS) hplain (Prepares.of_eq hp))
      (by rw [hd]; exact fun _ _ h ↦ by cases h) hs
    exact ⟨hfin.1.remote, fun _ ↦ hfin⟩
  | @dropped r inner id o m changed world stop hm hv hp ha hbelow ih =>
    obtain ⟨-, hin⟩ := hrec.inside hT hQ ht hplain hp
    obtain ⟨-, -, ht'⟩ := hrec.sound.inside hT ht hp
    exact ⟨(ih hin (hcl.inside hp hb.2) ht' trivial (hbelongs hrec hplain hp ht) htexts).1,
      fun h ↦ absurd rfl (h _)⟩
  | @kept r inner id o m changed world ds hm hv hp ha hbelow ih =>
    have hname := (Prepares.of_eq hp).id_eq
    obtain ⟨hq, hin⟩ := hrec.inside hT hQ ht hplain hp
    obtain ⟨hknown, -, ht'⟩ := hrec.sound.inside hT ht hp
    have hmid := hbelow.frame.1.each_inside hp hrec.sound.world.each rfl htexts
    have hst := hbelow.frame.2 fun _ h ↦ Outcome.noConfusion h
    obtain ⟨hclin, hd⟩ := (ih hin (hcl.inside hp hb.2) ht' trivial (hbelongs hrec hplain hp ht)
      hmid).2 fun _ h ↦ Outcome.noConfusion h
    have hs := ((Yields.kept hm hv hp ha hbelow).sound hT hrec.sound ht htexts).1
    have hfin := hclin.concluded hst rfl hname hw hr hq hknown
      (fun hS ↦ hup hrec.worked (hname ▸ hS) hplain (Prepares.of_eq hp))
      (hbelow.settled_eq ▸ hd) hs
    exact ⟨hfin.1.remote, fun _ ↦ hfin⟩
  | @broken r inner id o m changed world ds stop hm hv hp ha hbelow hl ih =>
    obtain ⟨-, hin⟩ := hrec.inside hT hQ ht hplain hp
    obtain ⟨-, -, ht'⟩ := hrec.sound.inside hT ht hp
    exact ⟨(ih hin (hcl.inside hp hb.2) ht' trivial (hbelongs hrec hplain hp ht) htexts).1,
      fun h ↦ absurd rfl (h _)⟩
  | @relinked r inner id o m m' changed world ds hm hv hp ha hbelow hl ih =>
    have hname := (Prepares.of_eq hp).id_eq
    obtain ⟨hq, hin⟩ := hrec.inside hT hQ ht hplain hp
    obtain ⟨hknown, -, ht'⟩ := hrec.sound.inside hT ht hp
    have hmid := hbelow.frame.1.each_inside hp hrec.sound.world.each (relink_id hl).1 htexts
    have hst := hbelow.frame.2 fun _ h ↦ Outcome.noConfusion h
    obtain ⟨hclin, hd⟩ := (ih hin (hcl.inside hp hb.2) ht' trivial (hbelongs hrec hplain hp ht)
      hmid).2 fun _ h ↦ Outcome.noConfusion h
    obtain ⟨-, hresettled⟩ := hbelow.sound hT hin.sound ht' hmid
    have hstore := hbelow.frame.1.store.trans (World.prepare_eq hp).1.store
    rw [← hstore] at hknown
    have hs := ((Yields.relinked hm hv hp ha hbelow hl).sound hT hrec.sound ht htexts).1
    have hfin := hclin.concluded hst (relink_id hl).1 hname hw hr
      (hQ.relinked hknown hq hresettled hl) (hknown.relink hresettled hl)
      (fun hS ↦ (hup hrec.worked (hname ▸ (relink_id hl).1 ▸ hS) hplain
        (Prepares.of_eq hp)).relink hl)
      (by rw [relink_dependencies hl, (relink_id hl).1]; exact hd) hs
    exact ⟨hfin.1.remote, fun _ ↦ hfin⟩
  | done => exact ⟨hcl.remote, fun _ ↦ ⟨hcl, fun _ _ h ↦ by cases h⟩⟩
  | @failed r r' importer d rest stop hf ih =>
    exact ⟨(ih hrec hcl (ht d List.mem_cons_self).2 hdefault hb.first htexts).1,
      fun h ↦ absurd rfl (h _)⟩
  | @cut r r' r'' importer d rest m stop hf ho ih ih' =>
    have hvisit := (ht d List.mem_cons_self).2
    have hmid := hf.frame.1.each ho.frame.1 hrec.sound.world.each htexts
    have hst := hf.frame.2 fun _ h ↦ Outcome.noConfusion h
    have hrec' := hrec.after hT hf hvisit (fun _ h ↦ Outcome.noConfusion h) hmid
      (hf.recorded hT hQ hrec hvisit hdefault hmid).1
    obtain ⟨hcl', -⟩ := (ih hrec hcl hvisit hdefault hb.first hmid).2
      fun _ h ↦ Outcome.noConfusion h
    exact ⟨(ih' hrec' hcl' (fun d' hd ↦ ht d' (List.mem_cons_of_mem d hd)) trivial (hb.rest hst)
      htexts).1, fun h ↦ absurd rfl (h _)⟩
  | @next r r' r'' importer d rest settled m changed hf ho ih ih' =>
    have hvisit := (ht d List.mem_cons_self).2
    have hmid := hf.frame.1.each ho.frame.1 hrec.sound.world.each htexts
    have hst := hf.frame.2 fun _ h ↦ Outcome.noConfusion h
    have hrec' := hrec.after hT hf hvisit (fun _ h ↦ Outcome.noConfusion h) hmid
      (hf.recorded hT hQ hrec hvisit hdefault hmid).1
    obtain ⟨hcl', hfound⟩ := (ih hrec hcl hvisit hdefault hb.first hmid).2
      fun _ h ↦ Outcome.noConfusion h
    obtain ⟨hremote, hlast⟩ := ih' hrec' hcl' (fun d' hd ↦ ht d' (List.mem_cons_of_mem d hd)) trivial
      (hb.rest hst) htexts
    obtain ⟨hcl'', hd⟩ := hlast fun _ h ↦ Outcome.noConfusion h
    refine ⟨hremote, fun _ ↦ ⟨hcl'', fun hS d' hd' ↦ ?_⟩⟩
    rcases List.mem_cons.1 hd' with rfl | hd'
    · have hSd := hw.closed _ _ hS (hb.2 d List.mem_cons_self hS)
      obtain ⟨hclean, hvendors⟩ := hfound hSd
      rw [Run.settledAs_path, hash_settledAs fun hx ↦ hcl'.cyclic _ hx hS]
      exact ⟨fun hF ↦ ⟨m.record, m.code, hclean hF, rfl⟩,
        fun hrem ↦ ho.frame.1.vendors (hvendors hrem)⟩
    · exact hd hS d' hd'

end SiteCompiler.Graph
