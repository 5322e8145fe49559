import SiteCompiler.Proofs.Graph.Closure
import SiteCompiler.Proofs.Graph.IdForms

namespace SiteCompiler

open Digest (contentHash hashPrefix)

namespace Module

variable {stem stem' text text' : String}

theorem nameOf_none_inj : nameOf stem none = nameOf stem' none ↔ stem = stem' :=
  String.append_left_inj ".js"

theorem nameOf_some_inj :
    nameOf stem (some (contentHash text)) = nameOf stem' (some (contentHash text')) ↔
      stem = stem' ∧ hashPrefix (contentHash text) = hashPrefix (contentHash text') := by
  constructor
  · intro h
    have hcut := (String.append_left_inj ".js").1 h
    have hdot : ∀ t, '.' ∉ (hashPrefix (contentHash t)).toList := fun t ↦
      Digest.not_mem_hashPrefix (by decide)
    have hs := @Text.cutLast?_append '.' stem _ (hdot text)
    have hs' := @Text.cutLast?_append '.' stem' _ (hdot text')
    exact Prod.mk.inj (Option.some.inj ((hcut ▸ hs).symm.trans hs'))
  · rintro ⟨rfl, h⟩
    rw [nameOf, nameOf, h]

theorem nameOf_some_eq_none {hash : String} :
    nameOf stem (some hash) = nameOf stem' none ↔ stem ++ "." ++ hashPrefix hash = stem' :=
  String.append_left_inj ".js"

end Module

namespace ModuleId

/-- The id of a remote module, or of a local one in normal form. -/
def Normal (id : String) : Prop :=
  isRemote id = true ∨ normalizeLocal id = id

variable {id id' : String}

theorem Normal.proper (h : Normal id) : Proper id :=
  h.imp_right fun (hn : normalizeLocal id = id) ↦ hn ▸ dots_not_mem_normalizeLocal id

theorem stem_of_isRemote_eq_false (h : isRemote id = false) : stem id = stripExtension id := by
  rw [stem, h, if_neg Bool.false_ne_true]

theorem exists_stripExtension_eq (h : normalizeLocal id = id) :
    ∃ rest, stripExtension id = "/" ++ rest := by
  rw [← h, normalizeLocal, rooted]
  generalize "/".intercalate (cleanSegments id) = rest
  unfold stripExtension
  split
  · next stem extension _ hcut =>
    obtain ⟨he, -⟩ := Text.cutLast?_eq_some.1 hcut
    have he := congrArg String.toList he
    rw [String.toList_append, String.toList_append, String.toList_append] at he
    cases hs : stem.toList with
    | nil =>
      rw [hs] at he
      exact absurd (List.cons.inj he).1 (by decide)
    | cons c cs =>
      rw [hs] at he
      obtain rfl : '/' = c := (List.cons.inj he).1
      exact ⟨String.ofList cs, by rw [← String.toList_inj, hs, String.toList_append]; simp⟩
  · exact ⟨rest, rfl⟩

theorem exists_pieces_stripExtension (h : normalizeLocal id = id) : ∃ front last,
    Text.pieces '/' (stripExtension id) = "" :: (front ++ [last]) ∧ ∀ s ∈ front, IsSegment s := by
  have hall : ∀ s ∈ cleanSegments id, IsSegment s := fun s ↦ isSegment_of_mem_cleanSegments
  by_cases hne : cleanSegments id = []
  · rw [normalizeLocal, hne] at h
    subst h
    exact ⟨[], "", by decide, fun _ hs ↦ (List.not_mem_nil hs).elim⟩
  · obtain ⟨rest, hrest⟩ := exists_stripExtension id
    obtain ⟨start, hstart⟩ := exists_stripExtension_eq h
    obtain ⟨front, last, hp⟩ := Text.exists_pieces '/' start
    have hpieces : Text.pieces '/' (stripExtension id) = "" :: (front ++ [last]) := by
      rw [hstart, ← hp]
      exact Text.pieces_append_sep '/' "" start
    have hprefix := Text.dropLast_pieces_prefix '/' (stripExtension id) rest
    rw [← hrest, hpieces, ← List.cons_append, List.dropLast_concat] at hprefix
    conv at hprefix => rhs; rw [← h]
    rw [normalizeLocal, pieces_rooted hne hall] at hprefix
    obtain ⟨after, hafter⟩ := hprefix
    have hafter := (List.cons.inj hafter).2
    refine ⟨front, last, hpieces, fun s hs ↦ hall s ?_⟩
    rw [← hafter]
    exact List.mem_append_left _ hs

theorem cleanSegments_stripExtension_inj {ending : String} (h : normalizeLocal id = id)
    (h' : normalizeLocal id' = id') (hl : 3 ≤ ending.length) (hs : '/' ∉ ending.toList) :
    cleanSegments (stripExtension id ++ ending) = cleanSegments (stripExtension id' ++ ending) ↔
      stripExtension id = stripExtension id' := by
  have hclean : ∀ {id : String} {front : List String} {last : String},
      Text.pieces '/' (stripExtension id) = "" :: (front ++ [last]) → (∀ s ∈ front, IsSegment s) →
        cleanSegments (stripExtension id ++ ending) = front ++ [last ++ ending] := by
    intro id front last hp hfront
    have hlast : '/' ∉ last.toList := Text.not_mem_of_mem_pieces (s := stripExtension id) (by
      rw [hp]
      exact List.mem_cons_of_mem _ (List.mem_append_right _ List.mem_cons_self))
    have hall : ∀ s ∈ front ++ [last ++ ending], IsSegment s := by
      intro s hm
      rcases List.mem_append.1 hm with hm | hm
      · exact hfront s hm
      · rw [List.mem_singleton.1 hm]
        exact isSegment_append hlast hs hl
    rw [← List.cons_append] at hp
    rw [cleanSegments, Text.pieces_append hs hp, List.cons_append, climb, if_pos (.inl rfl),
      climb_segments hall, List.append_nil, List.reverse_reverse]
  obtain ⟨front, last, hp, hfront⟩ := exists_pieces_stripExtension h
  obtain ⟨front', last', hp', hfront'⟩ := exists_pieces_stripExtension h'
  refine ⟨fun he ↦ ?_, fun he ↦ by rw [he]⟩
  rw [hclean hp hfront, hclean hp' hfront'] at he
  obtain ⟨rfl, hend⟩ := List.append_inj' he rfl
  have hlast := (String.append_left_inj ending).1 (List.cons.inj hend).1
  rw [← @Text.pieces_inj '/', hp, hp', hlast]

end ModuleId

namespace Graph

open ModuleId (Normal normalizeLocal cleanSegments)
open ArtifactStore (recordEnding)
open Disk (placeOf)

variable {w v : World} {ws : List World} {a b id : String} {m m' : Module}

theorem normal_rooted {names : List String} (h : ∀ s ∈ names, ModuleId.IsSegment s) :
    Normal (ModuleId.rooted names) :=
  .inr (ModuleId.normalizeLocal_rooted h)

theorem normal_resolve (f : Source.Folder) (disk : Disk) (path : String) :
    Normal (f.resolve disk path) := by
  have hs : ∀ s ∈ cleanSegments path, ModuleId.IsSegment s :=
    fun _ ↦ ModuleId.isSegment_of_mem_cleanSegments
  have hn : Normal (normalizeLocal path) := .inr (ModuleId.normalizeLocal_normalizeLocal path)
  rw [Source.Folder.resolve]
  split
  · exact hn
  · next hx =>
    cases hc : f.canonicalId? disk (normalizeLocal path) with
    | none => exact hn
    | some id =>
      obtain ⟨names, -, hnames, rfl, -⟩ :=
        Source.Folder.canonicalId?_eq_some hs (Bool.eq_false_iff.2 hx) hc
      exact normal_rooted hnames

theorem normal_entryId {text : String} (h : w.entryId text = .ok id) : Normal id := by
  rcases World.isRemote_or_resolve_of_entryId h with hr | ⟨path, hid⟩
  · exact .inl hr
  · rw [hid]
    exact normal_resolve _ _ path

theorem normal_of_leads {g : Graph} {disk : Disk} {importer : String}
    (h : (g.linkage disk importer).Leads id) : Normal id := by
  rcases Linkage.isRemote_or_resolve_of_leads h with hr | ⟨path, hid⟩
  · exact .inl hr
  · rw [hid]
    exact normal_resolve _ _ path

theorem idForm_normal : IdForm Normal :=
  ⟨normal_entryId, normal_of_leads⟩

theorem normal_of_history {allowed : World → Event → Prop} (h : History allowed ws) (hw : w ∈ ws)
    (hm : w.Has id m) : Normal id :=
  idForm_normal.of_history h hw hm

def World.recordPlace (w : World) (m : Module) : Disk.Place :=
  placeOf w.disk.workingDirectory (w.graph.store.recordPath m.stem)

theorem recordPlace_eq (h : ModuleId.Proper m.id) : w.recordPlace m =
    placeOf w.disk.workingDirectory w.graph.store.root ++ cleanSegments (m.stem ++ recordEnding) :=
  ArtifactStore.placeOf_recordPath _ _ (ModuleId.staysBelow_stem h)

/-- When the records of two modules are kept in one place, and when they have one output name. -/
structure World.Shares (w : World) (m m' : Module) : Prop where
  record : w.recordPlace m = w.recordPlace m' ↔
    cleanSegments (m.stem ++ ".meta.json") = cleanSegments (m'.stem ++ ".meta.json")
  localRecord : m.isRemote = false → m'.isRemote = false →
    (w.recordPlace m = w.recordPlace m' ↔ m.stem = m'.stem)
  remoteName : m.isRemote = true → m'.isRemote = true →
    (m.outputName = m'.outputName ↔ m.stem = m'.stem)
  localName : m.isRemote = false → m'.isRemote = false →
    (m.outputName = m'.outputName ↔ m.stem = m'.stem ∧ hashPrefix m.hash = hashPrefix m'.hash)
  mixedName : m.isRemote = false → m'.isRemote = true →
    (m.outputName = m'.outputName ↔ m.stem ++ "." ++ hashPrefix m.hash = m'.stem) ∧
    (m.outputName = m'.outputName → Text.startsWith m.id "/-/" = true)

/-- In every state that a graph can be in, modules share the place of their records only if their stems
are spelled alike, and their output names only if the stems are the same or a local one spells a remote
one. -/
theorem shares_of_history {allowed : World → Event → Prop} (h : History allowed ws) (hw : w ∈ ws)
    (hm : w.Has a m) (hm' : w.Has b m') : w.Shares m m' := by
  have hsound : Sound False (fun _ ↦ True) w :=
    sound_of_history h (fun hF ↦ hF.elim) (fun _ _ _ _ _ ↦ trivial) w hw
  have hf := hsound.known hm
  have hf' := hsound.known hm'
  have hn := normal_of_history h hw hm
  have hn' := normal_of_history h hw hm'
  rw [← hm.id_eq] at hn
  rw [← hm'.id_eq] at hn'
  have hrecord : w.recordPlace m = w.recordPlace m' ↔
      cleanSegments (m.stem ++ ".meta.json") = cleanSegments (m'.stem ++ ".meta.json") := by
    rw [recordPlace_eq hf.proper, recordPlace_eq hf'.proper, List.append_cancel_left_eq]
    rfl
  have hstem : ∀ {m : Module}, m.isRemote = ModuleId.isRemote m.id → m.isRemote = false →
      Normal m.id → m.stem = ModuleId.stripExtension m.id ∧ normalizeLocal m.id = m.id := by
    intro m hm hr hn
    rw [hm] at hr
    refine ⟨ModuleId.stem_of_isRemote_eq_false hr, hn.resolve_left ?_⟩
    rw [hr]
    exact Bool.false_ne_true
  refine ⟨hrecord, fun hr hr' ↦ ?_, fun hr hr' ↦ ?_, fun hr hr' ↦ ?_, fun hr hr' ↦ ?_⟩
  · obtain ⟨hs, hnormal⟩ := hstem hf.isRemote hr hn
    obtain ⟨hs', hnormal'⟩ := hstem hf'.isRemote hr' hn'
    rw [hrecord, hs, hs']
    exact ModuleId.cleanSegments_stripExtension_inj hnormal hnormal' (by decide) (by decide)
  · rw [Module.outputName, Module.outputName, Module.nameHash, Module.nameHash, hr, hr', if_pos rfl,
      if_pos rfl, Module.nameOf_none_inj]
  · rw [Module.outputName, Module.outputName, Module.nameHash, Module.nameHash, hr, hr',
      if_neg Bool.false_ne_true, if_neg Bool.false_ne_true, hf.hash, hf'.hash,
      Module.nameOf_some_inj]
  · have hname : m.outputName = m'.outputName ↔ m.stem ++ "." ++ hashPrefix m.hash = m'.stem := by
      rw [Module.outputName, Module.outputName, Module.nameHash, Module.nameHash, hr, hr',
        if_neg Bool.false_ne_true, if_pos rfl, Module.nameOf_some_eq_none]
    refine ⟨hname, fun he ↦ ?_⟩
    have hremote : Text.startsWith m'.stem "/-/" = true := by
      rw [Module.stem, ModuleId.stem, if_pos (hf'.isRemote.symm.trans hr')]
      exact ModuleId.startsWith_remoteStem m'.id
    rw [← hname.1 he, (hstem hf.isRemote hr hn).1] at hremote
    obtain ⟨rest, hrest⟩ := ModuleId.exists_stripExtension m.id
    rw [hrest]
    exact ModuleId.startsWith_append (ModuleId.startsWith_of_dot hremote) rest

theorem shares_pairWorld : ∃ w m m', pairWorld.react (.compile "a.js" .default) = w ∧
    w.Has "/a.js" m ∧ w.Has "/b.js" m' ∧ w.Shares m m' ∧ m.stem ≠ m'.stem := by
  obtain ⟨_, w, hok, -, hpair⟩ := exists_compile_pairWorld
  have hreact : pairWorld.react (.compile "a.js" .default) = w := by
    rw [World.react_compile, hok]
  have hh : History (fun _ _ ↦ True) [w, pairWorld] := by
    rw [← hreact]
    exact .step (.start fresh_pairWorld) (pairWorld.admits_compile "a.js" .default) trivial
  obtain ⟨m, hm⟩ := @exists_of_mem_contents w "/a.js" (by rw [hpair]; decide)
  obtain ⟨m', hm'⟩ := @exists_of_mem_contents w "/b.js" (by rw [hpair]; decide)
  refine ⟨w, m, m', hreact, hm, hm', shares_of_history hh List.mem_cons_self hm hm', ?_⟩
  rw [Module.stem, Module.stem, hm.id_eq, hm'.id_eq]
  decide

section Twins

def FromEmpty (m : Module) : Prop :=
  m.hash = contentHash "" ∧ m.slots = []

theorem compile_empty {l : Linkage} {dialect : Dialect} {c : Compiled}
    (h : Compiled.compile l dialect "" false = .ok c) : c = ⟨"", none, [], []⟩ := by
  cases dialect <;> exact (Except.ok.inj h).symm

theorem standard_fromEmpty {w : World} {B : String → Prop} (hw : ∀ id, B id → w.Separate id)
    (hmap : w.graph.settings.sourceMap = false)
    (hB : ∀ id s, B id → w.source? id = some s → s.text = "") :
    Standard Options.Plain False w fun m ↦ B m.id → FromEmpty m := by
  refine ⟨⟨rfl, rfl⟩, fun {m m'} hr _ hm hB ↦ ?_, fun {u id o s previous m} hu _ ho hs ht hb ↦ ?_,
    fun {g m m' ds} _ hm _ hr hb ↦ ?_⟩
  · have hid : m'.id = m.id := congrArg ModuleMeta.sourceFile hr
    obtain ⟨hh, hslots⟩ := hm (hid ▸ hB)
    exact ⟨(congrArg ModuleMeta.hash hr).trans hh, (congrArg ModuleMeta.slots hr).trans hslots⟩
  · obtain ⟨c, changed, code, hc, hf, rfl⟩ := transpile_eq_ok ht
    have hsource := source?_of_obtain ho.1 hs
    rw [hu.source? (.inr (hw id hb))] at hsource
    rw [hB id s hb hsource, hu.settings, hmap] at hc
    obtain rfl := compile_empty hc
    obtain ⟨-, rfl⟩ := Prod.mk.inj (Option.some.inj hf)
    exact ⟨rfl, rfl⟩
  · obtain ⟨hh, hslots⟩ := hm ((relink_id hr).1 ▸ hb)
    obtain ⟨changed, code, hf, rfl⟩ := relink_eq_ok hr
    rw [hslots] at hf
    obtain ⟨rfl, rfl⟩ := Prod.mk.inj (Option.some.inj hf)
    exact ⟨hh, hslots⟩

/-- A module that imports two others whose ids differ in their extension only. -/
def twinWorld : World :=
  ⟨.new ⟨"s", 1000⟩ ⟨"c"⟩ ⟨⟨[]⟩, true, false⟩,
    ⟨[], [(["s"], .directory), (["s", "b.js"], .file "import\"./a.js\";import\"./a.ts\"".toUTF8),
      (["s", "a.js"], .file "".toUTF8), (["s", "a.ts"], .file "".toUTF8), (["c"], .directory)]⟩,
    ⟨[], .error .hostNotFound, []⟩⟩

theorem fresh_twinWorld : twinWorld.Fresh :=
  World.fresh_of_entries rfl rfl (by decide)

def IsTwin (id : String) : Prop :=
  id = "/a.js" ∨ id = "/a.ts"

theorem separate_twinWorld {id : String} (h : IsTwin id ∨ id = "/b.js") : twinWorld.Separate id := by
  have hroot : twinWorld.storePlace = ["c"] := by decide
  have hl : ∃ name, twinWorld.disk.locate (twinWorld.graph.folder.basePath id) = .ok ["s", name] ∧
      (Dialect.ofPath? id).isSome ∧ ∃ content, twinWorld.disk.entry? ["s", name] = some (.file content) := by
    rcases h with (rfl | rfl) | rfl
    · exact ⟨"a.js", rfl, rfl, _, rfl⟩
    · exact ⟨"a.ts", rfl, rfl, _, rfl⟩
    · exact ⟨"b.js", rfl, rfl, _, rfl⟩
  obtain ⟨name, hl, hid, content, he⟩ := hl
  exact separate_of_file hid hl he (by rw [hroot]; simp)

theorem source_twinWorld {id : String} {s : Source} (h : IsTwin id ∨ id = "/b.js")
    (hs : twinWorld.source? id = some s) :
    (s.dialect, s.text) ∈ [(Dialect.js, "import\"./a.js\";import\"./a.ts\""), (.js, ""), (.ts, "")] ∧
      (IsTwin id → s.text = "") := by
  rcases h with (rfl | rfl) | rfl <;> obtain rfl := Option.some.inj hs
  · exact ⟨.tail _ (.head _), fun _ ↦ rfl⟩
  · exact ⟨.tail _ (.tail _ (.head _)), fun _ ↦ rfl⟩
  · exact ⟨.head _, fun h ↦ by rcases h with h | h <;> exact absurd h (by decide)⟩

theorem dependencies_twinWorld :
    (Compiled.compile (twinWorld.graph.linkage twinWorld.disk "/b.js") .js
      "import\"./a.js\";import\"./a.ts\"" false).toOption.map (·.dependencies) =
        some ["/a.js", "/a.ts"] := by
  decide +kernel

theorem specifiers_twinWorld :
    ∀ p ∈ [(Dialect.js, "import\"./a.js\";import\"./a.ts\""), (.js, ""), (.ts, "")],
      (Script.template? p.1 p.2).all (fun template ↦ template.all fun
        | .specifier value => value.toText = "./a.js" ∨ value.toText = "./a.ts"
        | .text _ => true) = true := by
  decide +kernel

theorem compiles_twinWorld {id : String} (h : IsTwin id ∨ id = "/b.js") : ∃ s c,
    twinWorld.Compiles id s c ∧ ∀ x, x ∈ c.dependencies ↔ id = "/b.js" ∧ IsTwin x := by
  have hnot : ∀ name, name ≠ "/b.js" → ∀ x, x ∈ [] ↔ name = "/b.js" ∧ IsTwin x :=
    fun name hn x ↦ iff_of_false List.not_mem_nil fun h ↦ hn h.1
  rcases h with (rfl | rfl) | rfl
  · exact ⟨_, _, ⟨rfl, rfl⟩, hnot _ (by decide)⟩
  · exact ⟨_, _, ⟨rfl, rfl⟩, hnot _ (by decide)⟩
  · have hdeps := dependencies_twinWorld
    cases hc : Compiled.compile (twinWorld.graph.linkage twinWorld.disk "/b.js") .js
        "import\"./a.js\";import\"./a.ts\"" false with
    | error cause =>
      rw [hc] at hdeps
      cases hdeps
    | ok c =>
      rw [hc] at hdeps
      refine ⟨_, c, ⟨rfl, hc⟩, fun x ↦ ?_⟩
      rw [show c.dependencies = ["/a.js", "/a.ts"] from Option.some.inj hdeps, IsTwin]
      simp

theorem closure_twinWorld {id : String} (h : twinWorld.Closure "/b.js" id) :
    IsTwin id ∨ id = "/b.js" := by
  induction h with
  | refl => exact .inr rfl
  | tail _ hd ih =>
    obtain ⟨s, c, hc, hx⟩ := hd
    obtain ⟨s', c', hc', hdeps⟩ := compiles_twinWorld ih
    obtain ⟨rfl, rfl⟩ := hc.unique hc'
    exact .inl ((hdeps _).1 hx).2

theorem explicit_twinWorld {id : String} {s : Source} (h : IsTwin id ∨ id = "/b.js")
    (hs : twinWorld.source? id = some s) :
    (twinWorld.graph.linkage twinWorld.disk id).Explicit s.dialect s.text := by
  intro template ht value hv
  have hall := specifiers_twinWorld _ (source_twinWorld h hs).1
  rw [ht] at hall
  have hvalue : value.toText = "./a.js" ∨ value.toText = "./a.ts" :=
    of_decide_eq_true (List.all_eq_true.1 hall _ hv)
  refine Linkage.isExplicit_of_path ?_ ?_
  · rfl
  · change (Dialect.ofPath? (ModuleId.resolveLocal id value.toText)).isSome = true
    rcases hvalue with hvalue | hvalue <;> rw [hvalue] <;> rcases h with (rfl | rfl) | rfl <;> rfl

/-- Two modules share the place of their records and their output name. -/
theorem exists_shared_output : ∃ w m m', twinWorld.Fresh ∧
    twinWorld.react (.compile "b.js" .default) = w ∧ w.Has "/a.js" m ∧ w.Has "/a.ts" m' ∧
    w.recordPlace m = w.recordPlace m' ∧ m.outputName = m'.outputName := by
  have hid : twinWorld.entryId "b.js" = .ok "/b.js" := entryId_eq_ok rfl (.inr ⟨rfl, "b.js", rfl⟩)
  have hsteady : twinWorld.SteadyOn (twinWorld.Closure "/b.js") := fun x hx _ ↦
    .of_explicit (separate_twinWorld (closure_twinWorld hx))
      fun s ↦ explicit_twinWorld (closure_twinWorld hx)
  have hlisted : twinWorld.Listed := fun _ h ↦ by cases h
  have hsound := sound_of_fresh (F := False) (T := fun _ ↦ True) fresh_twinWorld
  obtain ⟨_, r, hy, hc⟩ := exists_compile (feasible_descends fresh_twinWorld hsteady
    (fun _ _ h hd ↦ h.tail hd)
    (fun x hx ↦ (compiles_twinWorld (closure_twinWorld hx)).imp fun _ h ↦ h.imp fun _ h ↦ h.1)
    fun x hx hs ↦ World.mem_knownIds_of_closure hid hlisted hx hs) hid
    (.start fresh_twinWorld (proper_entryId hid) .refl)
  have hreact : twinWorld.react (.compile "b.js" .default) = r.world.persistAliases r.visited := by
    rw [World.react_compile, hc]
  have hrecorded := (hy.recorded False.elim
    (standard_fromEmpty (B := IsTwin) (fun id h ↦ separate_twinWorld (.inl h)) rfl
      fun id s h hs ↦ (source_twinWorld (.inl h) hs).2 h)
    (recorded_start hsound (recorded_of_fresh fresh_twinWorld)) (proper_entryId hid) ⟨rfl, rfl⟩
    fun _ _ _ ↦ trivial).1
  have hfound := (hy.sound False.elim hsound.run (proper_entryId hid) fun _ _ _ ↦ trivial).1
  have himports : ∀ id, IsTwin id → twinWorld.Closure "/b.js" id := by
    intro id h
    obtain ⟨s, c, hc, hdeps⟩ := compiles_twinWorld (.inr rfl)
    exact .single ⟨s, c, hc, (hdeps id).2 ⟨rfl, h⟩⟩
  have hhas : ∀ id, IsTwin id → ∃ m, r.world.Has id m ∧ m.hash = contentHash "" := by
    intro id h
    obtain ⟨-, m, hm, -⟩ := hy.visits_closure (proper_entryId hid) fresh_twinWorld hsteady (himports id h)
    exact ⟨m, hm, (hrecorded.registered id m hm (hm.id_eq ▸ h)).1⟩
  obtain ⟨m, hm, hhash⟩ := hhas "/a.js" (.inl rfl)
  obtain ⟨m', hm', hhash'⟩ := hhas "/a.ts" (.inr rfl)
  have hstem : m.stem = m'.stem := by
    rw [Module.stem, Module.stem, hm.id_eq, hm'.id_eq]
    decide
  have hremote : m.isRemote = m'.isRemote := by
    rw [(hfound.known hm).isRemote, (hfound.known hm').isRemote, hm.id_eq, hm'.id_eq]
    decide
  have hsame := World.sameGraph_persistAliases r.world r.visited
  refine ⟨_, m, m', fresh_twinWorld, hreact, hsame.has.2 hm, hsame.has.2 hm', ?_, ?_⟩
  · rw [World.recordPlace, World.recordPlace, hstem]
  · rw [Module.outputName, Module.outputName, Module.nameHash, Module.nameHash, hstem, hremote,
      hhash, hhash']

end Twins

end Graph
end SiteCompiler
