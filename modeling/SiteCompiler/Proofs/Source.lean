import SiteCompiler.Graph.Run
import SiteCompiler.Proofs.Compilation
import SiteCompiler.Proofs.ModuleId

namespace SiteCompiler

namespace FilePath

def componentsOf : List String → List Component
  | "" :: rest => .root :: rest.filterMap component?
  | "." :: rest => .current :: rest.filterMap component?
  | rest => rest.filterMap component?

theorem components_eq {path : String} (h : path ≠ "") :
    components path = componentsOf (Text.pieces '/' path) := by
  rw [components]
  split
  · next hp => rw [if_neg h, hp]; rfl
  · next hp => rw [hp]; rfl
  · next hr hc => rw [componentsOf.eq_def]; split <;> simp_all

theorem componentsOf_append {front rest : List String} (h : front ≠ []) :
    componentsOf (front ++ rest) = componentsOf front ++ rest.filterMap component? := by
  obtain ⟨first, front, rfl⟩ := List.exists_cons_of_ne_nil h
  by_cases hr : first = ""
  · subst hr
    simp only [List.cons_append, componentsOf, List.filterMap_append]
  · by_cases hc : first = "."
    · subst hc
      simp only [List.cons_append, componentsOf, List.filterMap_append]
    · rw [List.cons_append, componentsOf, componentsOf, ← List.cons_append, List.filterMap_append]
      all_goals
        intro rest he
        first | exact hr (List.cons.inj he).1 | exact hc (List.cons.inj he).1

def IsStep (c : Component) : Prop :=
  ".." ∉ Text.pieces '/' (Source.Folder.componentText c)

theorem isStep_of_component? {piece : String} (hd : piece ≠ "..") (hs : '/' ∉ piece.toList)
    {c : Component} (h : component? piece = some c) : IsStep c := by
  rw [component?] at h
  split at h
  · cases h
  · simp only [Option.some_inj] at h
    rw [← h, IsStep, Source.Folder.componentText, Text.pieces_of_not_mem hs, List.mem_singleton]
    exact hd.symm

theorem isStep_of_mem_filterMap {pieces : List String}
    (h : ∀ p ∈ pieces, p ≠ ".." ∧ '/' ∉ p.toList) {c : Component}
    (hc : c ∈ pieces.filterMap component?) : IsStep c := by
  obtain ⟨p, hp, hc⟩ := List.mem_filterMap.1 hc
  exact isStep_of_component? (h p hp).1 (h p hp).2 hc

theorem isStep_of_mem_componentsOf {pieces : List String}
    (h : ∀ p ∈ pieces, p ≠ ".." ∧ '/' ∉ p.toList) {c : Component}
    (hc : c ∈ componentsOf pieces) : IsStep c := by
  rw [componentsOf.eq_def] at hc
  split at hc
  · rcases List.mem_cons.1 hc with rfl | hc
    · exact (by decide : ".." ∉ Text.pieces '/' "/")
    · exact isStep_of_mem_filterMap (fun p hp ↦ h p (List.mem_cons_of_mem _ hp)) hc
  · rcases List.mem_cons.1 hc with rfl | hc
    · exact (by decide : ".." ∉ Text.pieces '/' ".")
    · exact isStep_of_mem_filterMap (fun p hp ↦ h p (List.mem_cons_of_mem _ hp)) hc
  · exact isStep_of_mem_filterMap h hc

theorem pieces_of_endsWith {base : String} (h : Text.endsWith base "/" = true) :
    ∃ start, base = start ++ String.singleton '/' := by
  obtain ⟨r, hr⟩ := List.isSuffixOf_iff_suffix.1 h
  exact ⟨.ofList r, by rw [← String.ofList_toList (s := base), ← hr, String.ofList_append]; rfl⟩

def Extends (directory path : String) : Prop :=
  ∃ front pieces, Text.pieces '/' path = front ++ pieces ∧ pieces ≠ [] ∧
    (∀ p ∈ pieces, p ≠ "..") ∧
    (front = [] ∧ components directory = [] ∨
      front ≠ [] ∧ components directory = componentsOf front)

theorem Extends.isStep {directory path : String} (h : Extends directory path)
    {below : List Component} (hb : below? directory path = some below) :
    ∀ c ∈ below, IsStep c := by
  obtain ⟨front, pieces, hp, -, hd, hf⟩ := h
  have hsteps : ∀ p ∈ pieces, p ≠ ".." ∧ '/' ∉ p.toList := fun p hm ↦
    ⟨hd p hm, Text.not_mem_of_mem_pieces (s := path) (by rw [hp]; exact List.mem_append_right _ hm)⟩
  have ha : components directory ++ below = components path :=
    List.append_eq_of_isPrefixOf?_eq_some hb
  intro c hc
  by_cases hpath : path = ""
  · subst hpath
    rw [show components "" = [] from rfl, List.append_eq_nil_iff] at ha
    rw [ha.2] at hc
    cases hc
  · rw [components_eq hpath, hp] at ha
    rcases hf with ⟨rfl, hn⟩ | ⟨hne, hc'⟩
    · rw [hn] at ha
      exact isStep_of_mem_componentsOf hsteps (ha ▸ hc)
    · rw [componentsOf_append hne, hc'] at ha
      exact isStep_of_mem_filterMap hsteps (List.append_cancel_left ha ▸ hc)

/-- The pieces of a path below a directory: the directory's, but for an empty one at their end, and
then those of the name. -/
theorem pieces_join {base : String} (hb : base ≠ "") : ∃ front, front ≠ [] ∧
    components base = componentsOf front ∧
    (Text.pieces '/' base = front ∨ Text.pieces '/' base = front ++ [""]) ∧
    ∀ name, isAbsolute name = false →
      Text.pieces '/' (join base name) = front ++ Text.pieces '/' name := by
  by_cases he : Text.endsWith base "/" = true
  · obtain ⟨start, hs⟩ := pieces_of_endsWith he
    have hp := Text.pieces_append_sep '/' start ""
    rw [String.append_empty, ← hs, Text.pieces_empty] at hp
    refine ⟨Text.pieces '/' start, Text.pieces_ne_nil '/' start, ?_, .inr hp, ?_⟩
    · rw [components_eq hb, hp, componentsOf_append (Text.pieces_ne_nil '/' start)]
      exact List.append_nil _
    · intro name hn
      rw [join, hn, decide_eq_false hb, Bool.false_or, if_neg Bool.false_ne_true, if_pos he, hs,
        Text.pieces_append_sep]
  · refine ⟨Text.pieces '/' base, Text.pieces_ne_nil '/' base, components_eq hb, .inl rfl, ?_⟩
    intro name hn
    rw [join, hn, decide_eq_false hb, Bool.false_or, if_neg Bool.false_ne_true, if_neg he]
    exact Text.pieces_append_sep '/' base name

theorem extends_join {directory name : String} (hn : isAbsolute name = false)
    (hd : ".." ∉ Text.pieces '/' name) : Extends directory (join directory name) := by
  have hsteps : ∀ p ∈ Text.pieces '/' name, p ≠ ".." := fun p hp he ↦ hd (he ▸ hp)
  by_cases hdir : directory = ""
  · subst hdir
    refine ⟨[], _, ?_, Text.pieces_ne_nil '/' name, hsteps, .inl ⟨rfl, rfl⟩⟩
    rw [join, hn]
    rfl
  · obtain ⟨front, hf, hc, -, hp⟩ := pieces_join hdir
    exact ⟨front, _, hp name hn, Text.pieces_ne_nil '/' name, hsteps, .inr ⟨hf, hc⟩⟩

theorem Extends.append {directory path ending : String} (h : Extends directory path)
    (hs : '/' ∉ ending.toList) (hl : 3 ≤ ending.length) : Extends directory (path ++ ending) := by
  obtain ⟨front, pieces, hp, hne, hd, hf⟩ := h
  obtain ⟨init, last, rfl⟩ : ∃ init last, pieces = init ++ [last] :=
    ⟨_, _, (List.dropLast_concat_getLast hne).symm⟩
  rw [← List.append_assoc] at hp
  refine ⟨front, init ++ [last ++ ending], ?_, by simp, ?_, hf⟩
  · rw [Text.pieces_append hs hp, List.append_assoc]
  · intro p hm
    rcases List.mem_append.1 hm with hm | hm
    · exact hd p (List.mem_append_left _ hm)
    · rw [List.mem_singleton.1 hm]
      intro he
      have hn := congrArg String.length he
      rw [String.length_append, show "..".length = 2 from rfl] at hn
      omega

theorem Extends.join {directory path name : String} (h : Extends directory path)
    (hn : Text.pieces '/' name = [name]) (ha : isAbsolute name = false) (hd : name ≠ "..") :
    Extends directory (FilePath.join path name) := by
  obtain ⟨front, pieces, hp, hne, hsteps, hf⟩ := h
  obtain ⟨init, last, rfl⟩ : ∃ init last, pieces = init ++ [last] :=
    ⟨_, _, (List.dropLast_concat_getLast hne).symm⟩
  have hsteps' : ∀ ps : List String, (∀ p ∈ ps, p ≠ "..") → ∀ p ∈ ps ++ [name], p ≠ ".." := by
    intro ps hps p hm
    rcases List.mem_append.1 hm with hm | hm
    · exact hps p hm
    · rwa [List.mem_singleton.1 hm]
  by_cases hpath : path = ""
  · subst hpath
    rw [Text.pieces_empty, ← List.append_assoc] at hp
    have hfi : front ++ init = [] := by
      have hl := congrArg List.length hp
      simp only [List.length_append, List.length_cons, List.length_nil] at hl
      exact List.length_eq_zero_iff.1 (by rw [List.length_append]; omega)
    obtain ⟨rfl, rfl⟩ := List.append_eq_nil_iff.1 hfi
    refine ⟨[], [name], ?_, by simp, hsteps' [] (by simp), hf⟩
    rw [FilePath.join, ha]
    exact hn
  · obtain ⟨front', -, -, hb, hj⟩ := pieces_join hpath
    rw [hp] at hb
    rcases hb with hb | hb
    · refine ⟨front, init ++ [last] ++ [name], ?_, by simp, hsteps' _ hsteps, hf⟩
      rw [hj name ha, hn, ← hb]
      simp only [List.append_assoc]
    · rw [← List.append_assoc] at hb
      obtain ⟨rfl, -⟩ := List.append_inj' hb rfl
      refine ⟨front, init ++ [name], ?_, by simp,
        hsteps' _ fun p hm ↦ hsteps p (List.mem_append_left _ hm), hf⟩
      rw [hj name ha, hn, List.append_assoc]

end FilePath

namespace Source.Folder

theorem extends_basePath (f : Folder) {id : String} (h : ".." ∉ Text.pieces '/' id) :
    FilePath.Extends f.directory (f.basePath id) := by
  have ha := ArtifactStore.isAbsolute_trimStart_append (n := id) (e := "") (fun c hc ↦ by cases hc)
  rw [String.append_empty] at ha
  refine FilePath.extends_join ha fun hm ↦ h ?_
  have hlist : ∀ cs : List Char, ∀ l ∈ (cs.dropWhile fun c ↦ decide (c = '/')).splitOn '/',
      l ∈ cs.splitOn '/' := by
    intro cs
    induction cs with
    | nil => exact fun _ h ↦ h
    | cons c cs ih =>
      intro l hl
      by_cases hc : c = '/'
      · subst hc
        rw [List.dropWhile_cons_of_pos (by simp)] at hl
        rw [List.splitOn_cons_eq_if_modifyHead, if_pos (beq_self_eq_true '/')]
        exact List.mem_cons_of_mem _ (ih l hl)
      · rwa [List.dropWhile_cons_of_neg (by simpa using hc)] at hl
  obtain ⟨l, hl, he⟩ := List.mem_map.1 hm
  rw [Text.trimStart, String.toList_ofList] at hl
  exact List.mem_map.2 ⟨l, hlist _ l hl, he⟩

theorem extends_of_path? {f : Folder} {disk : Disk} {id path : String}
    (h : f.path? disk id = some path) (hd : ".." ∉ Text.pieces '/' id) :
    FilePath.Extends f.directory path := by
  have hb := f.extends_basePath hd
  rw [path?] at h
  split at h
  · split at h
    · cases h
      exact hb
    · cases h
  · have hm := List.mem_of_find?_eq_some h
    rcases List.mem_append.1 hm with hm | hm
    · obtain ⟨d, -, rfl⟩ := List.mem_map.1 hm
      rw [String.append_assoc]
      cases d
      all_goals exact hb.append (by decide) (by decide)
    · obtain ⟨d, -, rfl⟩ := List.mem_map.1 hm
      cases d
      all_goals exact hb.join rfl rfl (by decide)

theorem dots_not_mem_rooted {names : List String} (h : ∀ n ∈ names, ".." ∉ Text.pieces '/' n) :
    ".." ∉ Text.pieces '/' ("/" ++ "/".intercalate names) := by
  change ".." ∉ Text.pieces '/' ("" ++ String.singleton '/' ++ (String.singleton '/').intercalate _)
  rw [Text.pieces_append_sep]
  by_cases hn : names = []
  · rw [hn, show (String.singleton '/').intercalate [] = "" from rfl]
    exact (by decide : ".." ∉ [""] ++ [""])
  · rw [Text.pieces_intercalate_flatMap hn]
    intro hm
    rcases List.mem_append.1 hm with hm | hm
    · exact absurd hm (by decide)
    · obtain ⟨n, hn, hm⟩ := List.mem_flatMap.1 hm
      exact h n hn hm

theorem dots_not_mem_canonicalId? {f : Folder} {disk : Disk} {id id' : String}
    (h : f.canonicalId? disk id = some id') (hd : ".." ∉ Text.pieces '/' id) :
    ".." ∉ Text.pieces '/' id' := by
  simp only [canonicalId?, Option.bind_eq_bind, Option.bind_eq_some_iff] at h
  obtain ⟨path, hp, below, hb, h⟩ := h
  have hsteps := (extends_of_path? hp hd).isStep hb
  obtain rfl : "/" ++ "/".intercalate (below.map componentText) = id' := Option.some_inj.1 h
  refine dots_not_mem_rooted fun n hn ↦ ?_
  obtain ⟨c, hc, rfl⟩ := List.mem_map.1 hn
  exact hsteps c hc

end Source.Folder

namespace ModuleId

theorem dots_not_mem_normalizeLocal (path : String) :
    ".." ∉ Text.pieces '/' (normalizeLocal path) := by
  apply Source.Folder.dots_not_mem_rooted
  intro name hname
  obtain ⟨-, -, hup, hslash⟩ := isSegment_of_mem_cleanSegments hname
  rw [Text.pieces_of_not_mem hslash, List.mem_singleton]
  exact hup.symm

theorem isRemote_of_normalizeRemote {text id : String} (hr : isRemote text)
    (h : normalizeRemote text = .ok id) : isRemote id := by
  rw [normalizeRemote] at h
  cases hu : Url.parse text with
  | error cause => rw [hu] at h; cases h
  | ok u =>
    rw [hu] at h
    cases h
    exact (Url.isWeb_of_parse hr hu).1.isRemote_text

theorem toList_of_isPath {text : String}
    (h : (Text.startsWith text "/" || isRelative text) = true) :
    ∃ c cs, text.toList = c :: cs ∧ (c = '/' ∨ c = '.') := by
  have hstart : ∀ {start : String}, Text.startsWith text start = true →
      ∀ c cs, start.toList = c :: cs → (c = '/' ∨ c = '.') →
      ∃ c cs, text.toList = c :: cs ∧ (c = '/' ∨ c = '.') := by
    intro start hs c cs hc hd
    obtain ⟨rest, hr⟩ := List.isPrefixOf_iff_prefix.1 hs
    exact ⟨c, cs ++ rest, by rw [← hr, hc]; rfl, hd⟩
  simp only [isRelative, Bool.or_eq_true, decide_eq_true_eq] at h
  rcases h with h | (((rfl | rfl) | h) | h)
  · exact hstart h '/' _ rfl (.inl rfl)
  · exact ⟨'.', [], rfl, .inr rfl⟩
  · exact ⟨'.', ['.'], rfl, .inr rfl⟩
  · exact hstart h '.' _ rfl (.inr rfl)
  · exact hstart h '.' _ rfl (.inr rfl)

theorem isRemote_of_joinRemote {base text id : String} (hr : isRemote base)
    (ht : (Text.startsWith text "/" || isRelative text) = true)
    (h : joinRemote base text = .ok id) : isRemote id := by
  obtain ⟨c, cs, hc, hd⟩ := toList_of_isPath ht
  rw [joinRemote] at h
  cases hb : Url.parse base with
  | error cause => rw [hb] at h; cases h
  | ok b =>
    rw [hb] at h
    change (b.join text).map Url.text = .ok id at h
    cases hu : b.join text with
    | error cause => rw [hu] at h; cases h
    | ok u =>
      rw [hu] at h
      cases h
      exact ((Url.isWeb_of_parse hr hb).1.join hc hd hu).isRemote_text

end ModuleId

namespace Graph

open ModuleId (Proper)

theorem proper_normalizeId {text id : String} (h : normalizeId text = .ok id) : Proper id := by
  rw [normalizeId] at h
  split at h
  · next hr =>
    cases hn : ModuleId.normalizeRemote text with
    | error cause => rw [hn] at h; cases h
    | ok url =>
      rw [hn] at h
      cases h
      exact .inl (ModuleId.isRemote_of_normalizeRemote hr hn)
  · rw [← Except.ok.inj h]
    exact .inr (ModuleId.dots_not_mem_normalizeLocal text)

theorem proper_canonicalId? (f : Source.Folder) (disk : Disk) {id : String} (h : Proper id) :
    Proper (if (ModuleId.isRemote id || (Dialect.ofPath? id).isSome) = true then id
      else (f.canonicalId? disk id).getD id) := by
  split
  · exact h
  · next hn =>
    have hr : ¬ModuleId.isRemote id = true := fun hr ↦ hn (by rw [hr, Bool.true_or])
    have hd := h.resolve_left hr
    cases hc : f.canonicalId? disk id with
    | none => exact h
    | some id' => exact .inr (Source.Folder.dots_not_mem_canonicalId? hc hd)

theorem proper_entryId {w : World} {text id : String} (h : w.entryId text = .ok id) :
    Proper id := by
  rw [World.entryId] at h
  cases hn : normalizeId text with
  | error cause => rw [hn] at h; cases h
  | ok id' =>
    rw [hn] at h
    have hp := proper_canonicalId? w.graph.folder w.disk (proper_normalizeId hn)
    change (if (ModuleId.isRemote id' || (Dialect.ofPath? id').isSome) = true then Except.ok id'
      else .ok ((w.graph.folder.canonicalId? w.disk id').getD id')) = Except.ok id at h
    split at h
    · next hc =>
      rwa [if_pos hc, Except.ok.inj h] at hp
    · next hc =>
      rwa [if_neg hc, Except.ok.inj h] at hp

theorem remoteTarget_eq {l : Linkage} {url id : String}
    (h : l.remoteTarget url = .localModule id ∨ l.remoteTarget url = .remoteModule id) :
    url = id := by
  rw [Linkage.remoteTarget] at h
  split at h
  · rcases h with h | h <;> cases h
  · rcases h with h | h
    · cases h
    · cases h
      rfl

theorem proper_localTarget {g : Graph} {disk : Disk} {importer specifier path id : String}
    (h : (g.linkage disk importer).localTarget specifier (ModuleId.normalizeLocal path) =
      .localModule id) : Proper id := by
  have hd := ModuleId.dots_not_mem_normalizeLocal path
  rw [Linkage.localTarget] at h
  split at h
  · cases h
  · split at h
    · rw [← Linkage.Target.localModule.inj h]
      change Proper ((g.folder.canonicalId? disk _).getD _)
      cases hc : g.folder.canonicalId? disk (ModuleId.normalizeLocal path) with
      | none => exact .inr hd
      | some id' => exact .inr (Source.Folder.dots_not_mem_canonicalId? hc hd)
    · rw [← Linkage.Target.localModule.inj h]
      exact .inr hd

theorem localTarget_ne_remoteModule {l : Linkage} {specifier id id' : String} :
    l.localTarget specifier id ≠ .remoteModule id' := by
  intro h
  rw [Linkage.localTarget] at h
  split at h
  · cases h
  · split at h <;> cases h

/-- Specifiers of remote modules lead to remote modules; all lead to modules with proper ids. -/
theorem proper_of_leads {g : Graph} {disk : Disk} {importer id : String}
    (h : (g.linkage disk importer).Leads id) :
    Proper id ∧ (ModuleId.isRemote importer → ModuleId.isRemote id) := by
  obtain ⟨specifier, h⟩ := h
  have hl : ∀ {path : String} {l : Linkage}, l = g.linkage disk importer →
      ((.ok (l.localTarget specifier (ModuleId.normalizeLocal path)) : Except Linkage.Error _) =
          .ok (.localModule id) ∨
        (.ok (l.localTarget specifier (ModuleId.normalizeLocal path)) : Except Linkage.Error _) =
          .ok (.remoteModule id)) → Proper id := by
    rintro path l rfl (h | h)
    · exact proper_localTarget (Except.ok.inj h)
    · exact absurd (Except.ok.inj h) localTarget_ne_remoteModule
  have hremote : ModuleId.isRemote id → Proper id ∧ (ModuleId.isRemote importer → ModuleId.isRemote id) :=
    fun h ↦ ⟨.inl h, fun _ ↦ h⟩
  have htarget : ∀ {url : String},
      ((.ok ((g.linkage disk importer).remoteTarget url) : Except Linkage.Error _) =
          .ok (.localModule id) ∨
        (.ok ((g.linkage disk importer).remoteTarget url) : Except Linkage.Error _) =
          .ok (.remoteModule id)) → url = id := fun h ↦
    remoteTarget_eq (h.imp Except.ok.inj Except.ok.inj)
  simp only [Linkage.target] at h
  generalize (g.linkage disk importer).importMap.resolve? specifier = mapped at h
  generalize mapped.getD specifier = text at h
  split at h
  · next hr =>
    cases hn : ModuleId.normalizeRemote text with
    | error cause => rw [hn] at h; rcases h with h | h <;> cases h
    | ok url =>
      rw [hn] at h
      exact hremote (htarget h ▸ ModuleId.isRemote_of_normalizeRemote hr hn)
  · split at h
    · next hi =>
      split at h
      · next hp =>
        cases hj : ModuleId.joinRemote importer text with
        | error cause =>
          rw [show ModuleId.joinRemote (g.linkage disk importer).importer text = _ from hj] at h
          rcases h with h | h <;> cases h
        | ok url =>
          rw [show ModuleId.joinRemote (g.linkage disk importer).importer text = _ from hj] at h
          exact hremote (htarget h ▸ ModuleId.isRemote_of_joinRemote hi hp hj)
      · rcases h with h | h <;> cases h
    · next hi =>
      refine ⟨?_, fun h ↦ absurd h hi⟩
      split at h
      · exact hl rfl h
      · split at h
        · rw [ModuleId.resolveLocal] at h
          split at h
          · exact hl rfl h
          · exact hl rfl h
        · rcases h with h | h <;> cases h

end Graph
end SiteCompiler
