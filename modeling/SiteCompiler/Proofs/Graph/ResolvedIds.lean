import SiteCompiler.Proofs.Graph.KnownIds

namespace SiteCompiler

open Disk (Place placeOf lexicalStep)

namespace Text

theorem endsWith_slash_append {s last : String} (hn : last ≠ "") (hl : '/' ∉ last.toList) :
    endsWith (s ++ last) "/" = false := by
  refine Bool.eq_false_iff.2 fun he ↦ ?_
  obtain ⟨front, hf⟩ := List.isSuffixOf_iff_suffix.1 he
  have hlist : last.toList ≠ [] := fun h ↦ hn (by rw [← String.ofList_toList (s := last), h])
  rw [String.toList_append, ← List.dropLast_concat_getLast hlist, ← List.append_assoc] at hf
  have hc := (List.append_inj' hf rfl).2
  have hc : '/' = last.toList.getLast hlist := List.singleton_inj.1 hc
  exact hl (hc ▸ List.getLast_mem hlist)

theorem intercalate_concat (sep : String) {names : List String} (h : names ≠ []) (name : String) :
    sep.intercalate (names ++ [name]) = sep.intercalate names ++ sep ++ name := by
  induction names with
  | nil => exact absurd rfl h
  | cons first names ih =>
    cases names with
    | nil => exact String.intercalate_cons_cons
    | cons second names =>
      rw [List.cons_append, List.cons_append, String.intercalate_cons_cons,
        String.intercalate_cons_cons, ← List.cons_append, ih (List.cons_ne_nil _ _)]
      simp only [String.append_assoc]

end Text

namespace FilePath

theorem filterMap_component? {names : List String} (h : ∀ s ∈ names, ModuleId.IsSegment s) :
    names.filterMap component? = names.map .named := by
  induction names with
  | nil => rfl
  | cons name names ih =>
    obtain ⟨hempty, hdot, hup, -⟩ := h name List.mem_cons_self
    have hc : component? name = some (.named name) := by
      rw [component?, if_neg (not_or.2 ⟨hempty, hdot⟩), if_neg hup]
    rw [List.filterMap_cons_some hc, ih fun s hs ↦ h s (List.mem_cons_of_mem name hs),
      List.map_cons]

theorem componentsOf_segments {names : List String} (h : ∀ s ∈ names, ModuleId.IsSegment s) :
    componentsOf names = names.map .named := by
  rw [← filterMap_component? h]
  cases names with
  | nil => rfl
  | cons name names =>
    obtain ⟨hempty, hdot, -, -⟩ := h name List.mem_cons_self
    exact componentsOf.eq_3 _ (fun _ he ↦ hempty (List.cons.inj he).1)
      fun _ he ↦ hdot (List.cons.inj he).1

end FilePath

namespace Source.Folder

variable {f : Folder} {disk : Disk} {names : List String} {id : String}

theorem basePath_append (f : Folder) {id ending : String} (h : ∀ c ∈ ending.toList.head?, c ≠ '/') :
    f.basePath (id ++ ending) = f.basePath id ++ ending :=
  ArtifactStore.path_append ⟨f.directory⟩ h

theorem trimStart_rooted (h : ∀ s ∈ names, ModuleId.IsSegment s) :
    Text.trimStart (· = '/') (ModuleId.rooted names) = "/".intercalate names := by
  have hhead : ∀ c ∈ ("/".intercalate names).toList.head?, c ≠ '/' := by
    cases names with
    | nil => exact fun c hc ↦ by cases hc
    | cons name names =>
      obtain ⟨hne, -, -, hs⟩ := h name List.mem_cons_self
      have hlist : name.toList ≠ [] := fun he ↦
        hne (by rw [← String.ofList_toList (s := name), he])
      obtain ⟨c, cs, hc⟩ := List.exists_cons_of_ne_nil hlist
      have hstart : ∃ rest, "/".intercalate (name :: names) = name ++ rest := by
        cases names with
        | nil => exact ⟨"", (String.append_empty).symm⟩
        | cons second names =>
          rw [String.intercalate_cons_cons, String.append_assoc]
          exact ⟨_, rfl⟩
      obtain ⟨rest, hr⟩ := hstart
      rw [hr, String.toList_append, hc]
      rintro x hx rfl
      obtain rfl := Option.some_inj.1 hx
      exact hs (hc ▸ List.mem_cons_self)
  rw [ModuleId.rooted, ArtifactStore.toList_trimStart_append hhead]
  exact String.empty_append

/-- What is joined to a base stands behind a text that ends in a slash, unless there is none. -/
theorem exists_join (base : String) : ∃ front, (front = "" ∨ Text.endsWith front "/" = true) ∧
    ∀ name, FilePath.isAbsolute name = false → FilePath.join base name = front ++ name := by
  by_cases hb : base = ""
  · subst hb
    refine ⟨"", .inl rfl, fun name hn ↦ ?_⟩
    rw [FilePath.join, hn, String.empty_append]
    rfl
  · by_cases he : Text.endsWith base "/" = true
    · refine ⟨base, .inr he, fun name hn ↦ ?_⟩
      rw [FilePath.join, hn, decide_eq_false hb, Bool.or_false, if_neg Bool.false_ne_true, if_pos he]
    · refine ⟨base ++ "/", .inr ?_, fun name hn ↦ ?_⟩
      · rw [Text.endsWith, String.toList_append, List.isSuffixOf_iff_suffix]
        exact List.suffix_append _ _
      · rw [FilePath.join, hn, decide_eq_false hb, Bool.or_false, if_neg Bool.false_ne_true,
          if_neg he]

theorem isAbsolute_of_not_mem {name : String} (h : '/' ∉ name.toList) :
    FilePath.isAbsolute name = false := by
  refine Bool.eq_false_iff.2 fun ha ↦ h ?_
  obtain ⟨rest, hr⟩ := List.isPrefixOf_iff_prefix.1 ha
  rw [← hr]
  exact List.mem_cons_self

theorem isAbsolute_intercalate (h : ∀ s ∈ names, ModuleId.IsSegment s) :
    FilePath.isAbsolute ("/".intercalate names) = false := by
  have ha := ArtifactStore.isAbsolute_trimStart_append (n := ModuleId.rooted names) (e := "")
    fun c hc ↦ by cases hc
  rwa [String.append_empty, trimStart_rooted h] at ha

theorem join_basePath (f : Folder) (h : ∀ s ∈ names, ModuleId.IsSegment s) {name : String}
    (hn : ModuleId.IsSegment name) :
    FilePath.join (f.basePath (ModuleId.rooted names)) name =
      f.basePath (ModuleId.rooted (names ++ [name])) := by
  have hall : ∀ s ∈ names ++ [name], ModuleId.IsSegment s := by
    intro s hs
    rcases List.mem_append.1 hs with hs | hs
    · exact h s hs
    · rwa [List.mem_singleton.1 hs]
  have hname := isAbsolute_of_not_mem hn.2.2.2
  obtain ⟨front, hfront, hjoin⟩ := exists_join f.directory
  rw [basePath, basePath, trimStart_rooted h, trimStart_rooted hall, hjoin _ (isAbsolute_intercalate h),
    hjoin _ (isAbsolute_intercalate hall)]
  by_cases hnames : names = []
  · subst hnames
    change FilePath.join (front ++ "") name = front ++ name
    rw [String.append_empty, FilePath.join, hname]
    rcases hfront with rfl | he
    · rw [String.empty_append]
      rfl
    · have hne : front ≠ "" := by
        rintro rfl
        exact absurd he (by decide)
      rw [decide_eq_false hne, Bool.or_false, if_neg Bool.false_ne_true, if_pos he]
  · obtain ⟨init, last, rfl⟩ : ∃ init last, names = init ++ [last] :=
      ⟨_, _, (List.dropLast_concat_getLast hnames).symm⟩
    obtain ⟨hlast, -, -, hs⟩ := h last (List.mem_append_right _ List.mem_cons_self)
    have hend : ∃ start, front ++ "/".intercalate (init ++ [last]) = start ++ last := by
      by_cases hi : init = []
      · exact ⟨front, by rw [hi]; rfl⟩
      · rw [Text.intercalate_concat "/" hi, ← String.append_assoc]
        exact ⟨_, rfl⟩
    obtain ⟨start, hstart⟩ := hend
    have hne : start ++ last ≠ "" := fun he ↦ hlast (String.append_eq_empty_iff.1 he).2
    rw [hstart, FilePath.join, hname, decide_eq_false hne, Bool.or_false, if_neg Bool.false_ne_true,
      Text.endsWith_slash_append hlast hs, if_neg Bool.false_ne_true, ← hstart,
      Text.intercalate_concat "/" hnames]
    simp only [String.append_assoc]

theorem components_basePath (f : Folder) (h : ∀ s ∈ names, ModuleId.IsSegment s) (hn : names ≠ []) :
    FilePath.components (f.basePath (ModuleId.rooted names)) =
      FilePath.components f.directory ++ names.map .named := by
  have ha := isAbsolute_intercalate h
  have hp : Text.pieces '/' ("/".intercalate names) = names :=
    Text.pieces_intercalate hn fun s hs ↦ (h s hs).2.2.2
  rw [basePath, trimStart_rooted h]
  by_cases hd : f.directory = ""
  · have hne : "/".intercalate names ≠ "" := by
      intro he
      rw [he, Text.pieces_empty] at hp
      exact (h "" (hp ▸ List.mem_cons_self)).1 rfl
    rw [hd, FilePath.join, ha]
    change FilePath.components ("/".intercalate names) = [] ++ _
    rw [FilePath.components_eq hne, hp, FilePath.componentsOf_segments h, List.nil_append]
  · obtain ⟨front, hf, hc, -, hj⟩ := FilePath.pieces_join hd
    have hpieces := hj _ ha
    rw [hp] at hpieces
    have hne : FilePath.join f.directory ("/".intercalate names) ≠ "" := by
      intro he
      rw [he, Text.pieces_empty] at hpieces
      have hl := congrArg List.length hpieces
      rw [List.length_append, List.length_singleton] at hl
      have h₁ := List.length_pos_of_ne_nil hf
      have h₂ := List.length_pos_of_ne_nil hn
      omega
    rw [FilePath.components_eq hne, hpieces, FilePath.componentsOf_append hf, hc,
      FilePath.filterMap_component? h]

def extended (names : List String) (ending : String) : List String :=
  names.dropLast ++ [names.getLast?.getD "" ++ ending]

theorem rooted_extended (names : List String) (ending : String) :
    ModuleId.rooted (extended names ending) = ModuleId.rooted names ++ ending := by
  by_cases hn : names = []
  · subst hn
    rfl
  · obtain ⟨init, last, rfl⟩ : ∃ init last, names = init ++ [last] :=
      ⟨_, _, (List.dropLast_concat_getLast hn).symm⟩
    rw [extended, List.dropLast_concat, List.getLast?_concat, Option.getD_some, ModuleId.rooted,
      ModuleId.rooted, String.append_assoc, ModuleId.intercalate_concat_append]

def candidateNames (names : List String) : List (List String) :=
  Dialect.all.map (fun d ↦ extended names ("." ++ d.extension)) ++
    Dialect.all.map fun d ↦ names ++ ["index." ++ d.extension]

theorem isSegment_of_mem_candidateNames (h : ∀ s ∈ names, ModuleId.IsSegment s)
    {names' : List String} (hn : names' ∈ candidateNames names) :
    names' ≠ [] ∧ ∀ s ∈ names', ModuleId.IsSegment s := by
  have hlonger : ∀ (front : List String) (last ending : String),
      (∀ s ∈ front, ModuleId.IsSegment s) → '/' ∉ last.toList → '/' ∉ ending.toList →
        3 ≤ ending.length → front ++ [last ++ ending] ≠ [] ∧
          ∀ s ∈ front ++ [last ++ ending], ModuleId.IsSegment s := by
    intro front last ending hf hl he hlen
    refine ⟨by simp, fun s hs ↦ ?_⟩
    rcases List.mem_append.1 hs with hs | hs
    · exact hf s hs
    · rw [List.mem_singleton.1 hs]
      exact ModuleId.isSegment_append hl he hlen
  rcases List.mem_append.1 hn with hn | hn
  · obtain ⟨d, -, rfl⟩ := List.mem_map.1 hn
    have hlast : '/' ∉ (names.getLast?.getD "").toList := by
      cases hl : names.getLast? with
      | none => exact List.not_mem_nil
      | some last => exact (h last (List.mem_of_getLast? hl)).2.2.2
    exact hlonger _ _ _ (fun s hs ↦ h s (List.mem_of_mem_dropLast hs)) hlast
      (by cases d <;> decide) (by cases d <;> decide)
  · obtain ⟨d, -, rfl⟩ := List.mem_map.1 hn
    exact hlonger names "index" ("." ++ d.extension) h (by decide)
      (by cases d <;> decide) (by cases d <;> decide)

theorem candidates_basePath (f : Folder) (h : ∀ s ∈ names, ModuleId.IsSegment s) :
    candidates (f.basePath (ModuleId.rooted names)) =
      (candidateNames names).map fun ns ↦ f.basePath (ModuleId.rooted ns) := by
  have hextended : ∀ d : Dialect, f.basePath (ModuleId.rooted names) ++ "." ++ d.extension =
      f.basePath (ModuleId.rooted (extended names ("." ++ d.extension))) := by
    intro d
    have hslash : ∀ c ∈ ("." ++ d.extension).toList.head?, c ≠ '/' := by
      rw [String.toList_append]
      rintro c hc rfl
      exact absurd (Option.some_inj.1 hc) (by decide)
    rw [rooted_extended, f.basePath_append hslash, String.append_assoc]
  have hindex : ∀ d : Dialect,
      FilePath.join (f.basePath (ModuleId.rooted names)) ("index." ++ d.extension) =
        f.basePath (ModuleId.rooted (names ++ ["index." ++ d.extension])) := by
    intro d
    refine f.join_basePath h ?_
    cases d <;> exact ⟨by decide, by decide, by decide, by decide⟩
  simp only [candidates, candidateNames, List.map_append, List.map_map, Function.comp_def, hextended,
    hindex]

theorem exists_of_mem_candidates (h : ∀ s ∈ names, ModuleId.IsSegment s) {path : String}
    (hp : path ∈ candidates (f.basePath (ModuleId.rooted names))) :
    ∃ names', names' ≠ [] ∧ (∀ s ∈ names', ModuleId.IsSegment s) ∧
      path = f.basePath (ModuleId.rooted names') := by
  rw [f.candidates_basePath h] at hp
  obtain ⟨names', hn, rfl⟩ := List.mem_map.1 hp
  obtain ⟨hne, hs⟩ := isSegment_of_mem_candidateNames h hn
  exact ⟨names', hne, hs, rfl⟩

/-- An id without extension stands for an id that consists of names, whose file is there. -/
theorem canonicalId?_eq_some {id' : String} (h : ∀ s ∈ names, ModuleId.IsSegment s)
    (hx : (Dialect.ofPath? (ModuleId.rooted names)).isSome = false)
    (hc : f.canonicalId? disk (ModuleId.rooted names) = some id') :
    ∃ names', names' ≠ [] ∧ (∀ s ∈ names', ModuleId.IsSegment s) ∧ id' = ModuleId.rooted names' ∧
      disk.isFile (f.basePath id') = true := by
  rw [canonicalId?] at hc
  obtain ⟨path, hp, hc⟩ := Option.bind_eq_some_iff.1 hc
  obtain ⟨below, hb, hc⟩ := Option.bind_eq_some_iff.1 hc
  rw [path?, if_neg (by rw [hx]; exact Bool.false_ne_true)] at hp
  have hfile := List.find?_some hp
  obtain ⟨names', hn, hs, rfl⟩ := exists_of_mem_candidates h (List.mem_of_find?_eq_some hp)
  have happ := List.append_eq_of_isPrefixOf?_eq_some hb
  rw [f.components_basePath hs hn] at happ
  obtain rfl := List.append_cancel_left happ
  have htext : (names'.map FilePath.Component.named).map componentText = names' := by
    rw [List.map_map]
    exact List.map_id names'
  rw [htext] at hc
  obtain rfl := Option.some_inj.1 hc
  exact ⟨names', hn, hs, rfl, hfile⟩

theorem path?_eq_none (h : ∀ s ∈ names, ModuleId.IsSegment s)
    (hx : (Dialect.ofPath? (ModuleId.rooted names)).isSome = false)
    (hc : f.canonicalId? disk (ModuleId.rooted names) = none) :
    f.path? disk (ModuleId.rooted names) = none := by
  cases hp : f.path? disk (ModuleId.rooted names) with
  | none => rfl
  | some path =>
    rw [path?, if_neg (by rw [hx]; exact Bool.false_ne_true)] at hp
    obtain ⟨names', hn, hs, rfl⟩ := exists_of_mem_candidates h (List.mem_of_find?_eq_some hp)
    rw [canonicalId?, path?, if_neg (by rw [hx]; exact Bool.false_ne_true), hp] at hc
    have hb : FilePath.below? f.directory (f.basePath (ModuleId.rooted names')) =
        some (names'.map .named) := by
      rw [FilePath.below?, f.components_basePath hs hn]
      exact List.isPrefixOf?_eq_some_iff_append_eq.2 rfl
    change ((FilePath.below? _ _).bind _) = none at hc
    rw [hb] at hc
    cases hc

def resolve (f : Source.Folder) (disk : Disk) (path : String) : String :=
  if (Dialect.ofPath? (ModuleId.normalizeLocal path)).isSome then ModuleId.normalizeLocal path
  else (f.canonicalId? disk (ModuleId.normalizeLocal path)).getD (ModuleId.normalizeLocal path)

end Source.Folder

namespace Graph.World

def Resolved (w : World) (id : String) : Prop :=
  ModuleId.isRemote id ∨
    (∃ names, names ≠ [] ∧ (∀ s ∈ names, ModuleId.IsSegment s) ∧ id = ModuleId.rooted names ∧
      w.disk.isFile (w.graph.folder.basePath id) = true) ∨
    w.graph.folder.path? w.disk id = none

variable {w : World} {id : String} {s : Source}

theorem entryId_eq_resolve {text : String} (hr : ModuleId.isRemote text = false) :
    w.entryId text = .ok (w.graph.folder.resolve w.disk text) := by
  have hlocal : ModuleId.isRemote (ModuleId.normalizeLocal text) = false :=
    ModuleId.isRemote_slash _
  rw [entryId, normalizeId, if_neg (by rw [hr]; exact Bool.false_ne_true), Source.Folder.resolve]
  simp only [bind, Except.bind, hlocal, Bool.false_or]
  split
  · rfl
  · rfl

/-- A module that is asked for is named by a URL, or by a path that stands for its id. -/
theorem url_or_resolve_of_entryId {text : String} (h : w.entryId text = .ok id) :
    (ModuleId.isRemote text = true ∧ ModuleId.normalizeRemote text = .ok id) ∨
      ∃ path, id = w.graph.folder.resolve w.disk path := by
  cases hr : ModuleId.isRemote text with
  | false =>
    rw [entryId_eq_resolve hr] at h
    exact .inr ⟨text, (Except.ok.inj h).symm⟩
  | true =>
    rw [entryId, normalizeId, if_pos hr] at h
    cases hn : ModuleId.normalizeRemote text with
    | error cause => rw [hn] at h; cases h
    | ok url =>
      have hremote := ModuleId.isRemote_of_normalizeRemote hr hn
      rw [hn] at h
      change (if (ModuleId.isRemote url || _) = true then _ else _) = _ at h
      rw [if_pos (by rw [hremote, Bool.true_or])] at h
      exact .inl ⟨rfl, congrArg Except.ok (Except.ok.inj h)⟩

theorem isRemote_or_resolve_of_entryId {text : String} (h : w.entryId text = .ok id) :
    ModuleId.isRemote id = true ∨ ∃ path, id = w.graph.folder.resolve w.disk path :=
  (url_or_resolve_of_entryId h).imp_left fun hu ↦ ModuleId.isRemote_of_normalizeRemote hu.1 hu.2

end Graph.World

theorem Linkage.remote_or_resolve_of_leads {g : Graph} {disk : Disk} {importer id : String}
    (h : (g.linkage disk importer).Leads id) :
    (∃ specifier, (g.linkage disk importer).target specifier = .ok (.remoteModule id)) ∨
      ∃ path, id = g.folder.resolve disk path := by
  obtain ⟨specifier, h | h⟩ := h
  · obtain ⟨path, hp⟩ := Linkage.localTarget_of_target h
    refine .inr ⟨path, ?_⟩
    rw [Linkage.localTarget] at hp
    split at hp
    · cases hp
    · split at hp
      · next hx =>
        rw [Source.Folder.resolve,
          if_neg (by rw [Option.isSome_eq_false_iff.2 hx]; exact Bool.false_ne_true)]
        exact (Linkage.Target.localModule.inj hp).symm
      · next hx =>
        rw [Bool.not_eq_true, Option.isNone_eq_false_iff] at hx
        rw [Source.Folder.resolve, if_pos hx]
        exact (Linkage.Target.localModule.inj hp).symm
  · exact .inl ⟨specifier, h⟩

theorem Linkage.isRemote_or_resolve_of_leads {g : Graph} {disk : Disk} {importer id : String}
    (h : (g.linkage disk importer).Leads id) :
    ModuleId.isRemote id = true ∨ ∃ path, id = g.folder.resolve disk path :=
  (Linkage.remote_or_resolve_of_leads h).imp_left fun h ↦ h.elim fun _ ht ↦ Linkage.isRemote_of_target ht

namespace Graph.World

variable {w : World} {id : String} {s : Source}

theorem resolved_resolve (w : World) (path : String) :
    w.Resolved (w.graph.folder.resolve w.disk path) := by
  have hs : ∀ s ∈ ModuleId.cleanSegments path, ModuleId.IsSegment s :=
    fun _ ↦ ModuleId.isSegment_of_mem_cleanSegments
  rw [Source.Folder.resolve, ModuleId.normalizeLocal]
  cases hx : (Dialect.ofPath? (ModuleId.rooted (ModuleId.cleanSegments path))).isSome with
  | true =>
    rw [if_pos rfl]
    by_cases hf : w.disk.isFile
        (w.graph.folder.basePath (ModuleId.rooted (ModuleId.cleanSegments path))) = true
    · refine .inr (.inl ⟨_, fun hn ↦ ?_, hs, rfl, hf⟩)
      rw [hn] at hx
      exact absurd hx (by decide)
    · exact .inr (.inr (by rw [Source.Folder.path?, if_pos hx, if_neg hf]))
  | false =>
    rw [if_neg Bool.false_ne_true]
    cases hc : w.graph.folder.canonicalId? w.disk
        (ModuleId.rooted (ModuleId.cleanSegments path)) with
    | none => exact .inr (.inr (Source.Folder.path?_eq_none hs hx hc))
    | some id' =>
      obtain ⟨names, hn, hs', he, hf⟩ := Source.Folder.canonicalId?_eq_some hs hx hc
      exact .inr (.inl ⟨names, hn, hs', he, hf⟩)

theorem resolved_entryId {text : String} (h : w.entryId text = .ok id) : w.Resolved id := by
  rcases isRemote_or_resolve_of_entryId h with hr | ⟨path, hid⟩
  · exact .inl hr
  · rw [hid]
    exact w.resolved_resolve path

theorem resolved_of_leads {importer : String} (h : (w.graph.linkage w.disk importer).Leads id) :
    w.Resolved id := by
  rcases Linkage.isRemote_or_resolve_of_leads h with hr | ⟨path, hid⟩
  · exact .inl hr
  · rw [hid]
    exact w.resolved_resolve path

theorem Resolved.mem_knownIds (hid : w.Resolved id) (hl : w.Listed) (hs : w.source? id = some s) :
    id ∈ w.knownIds := by
  rcases hid with hr | ⟨names, hn, hsegments, rfl, hf⟩ | hp
  · exact World.mem_knownIds hl (.inl hr) hs
  · exact mem_knownIds_of_isFile hn hsegments hf
  · have hload := load_eq_ok hs
    by_cases hr : ModuleId.isRemote id
    · exact World.mem_knownIds hl (.inl hr) hs
    · rw [Source.load, if_neg hr] at hload
      dsimp only at hload
      unfold Source.Folder.read at hload
      rw [hp] at hload
      dsimp only at hload
      cases hload

end Graph.World
end SiteCompiler
