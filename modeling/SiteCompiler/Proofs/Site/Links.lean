import SiteCompiler.Proofs.Linking
import SiteCompiler.Site.Basic

namespace SiteCompiler

open ModuleId (IsSegment spelled normalizeLocal)
open Digest (contentHash hashPrefix IsHash not_mem_hashPrefix)

namespace Config

def Normal (c : Config) : Prop :=
  normalizeLocal c.baseUrl = c.baseUrl

theorem Normal.applyKey {c : Config} (h : c.Normal) (key : String) (value : Json) :
    (c.applyKey key value).Normal := by
  unfold Config.applyKey
  split
  · exact h
  · exact h
  · exact ModuleId.normalizeLocal_normalizeLocal _
  · exact h
  · exact h
  · split <;> exact h
  · exact h

theorem Normal.applyDocument {c : Config} (h : c.Normal) (members : List (String × Json)) :
    (c.applyDocument members).Normal := by
  have hfold : (members.foldl (fun c member ↦ c.applyKey member.1 member.2) c).Normal := by
    induction members generalizing c with
    | nil => exact h
    | cons member members ih => exact ih (h.applyKey member.1 member.2)
  exact hfold

theorem normal_readFile {disk : Disk} {root : String} {c : Config} (h : readFile disk root = .ok c) :
    c.Normal := by
  have hdefault : (default root).Normal := by
    change normalizeLocal "/" = "/"
    rfl
  simp only [readFile] at h
  split at h
  · cases ht : disk.readText (FilePath.join root fileName) with
    | error cause =>
      rw [ht] at h
      cases h
    | ok text =>
      rw [ht] at h
      simp only [Except.mapError, bind, Except.bind] at h
      split at h
      · cases h
      · cases h
        exact hdefault.applyDocument _
      · cases h
        exact hdefault
  · cases h
    exact hdefault

theorem normal_load {disk : Disk} {root : String} {o : Overrides} {c : Config}
    (h : load disk root o = .ok c) : c.Normal := by
  rw [load] at h
  cases hc : readFile disk root with
  | error cause =>
    rw [hc] at h
    cases h
  | ok c' =>
    rw [hc] at h
    cases h
    exact (normal_readFile hc : c'.Normal)

end Config

namespace Module

theorem nameOf_eq_append (stem : String) (hash : Option String) :
    nameOf stem hash = stem ++ nameOf "" hash := by
  cases hash with
  | none => rw [nameOf, nameOf, String.empty_append]
  | some hash =>
    rw [nameOf, nameOf]
    simp only [String.append_assoc, String.empty_append]

theorem slash_not_mem_nameOf {hash : Option String} (h : ∀ x ∈ hash, ∃ text, x = contentHash text) :
    '/' ∉ (nameOf "" hash).toList := by
  cases hash with
  | none => decide
  | some hash =>
    obtain ⟨text, rfl⟩ := h hash rfl
    intro hm
    simp only [nameOf, String.toList_append, List.mem_append] at hm
    rcases hm with (hm | hm) | hm
    · exact absurd hm (by decide)
    · exact not_mem_hashPrefix (by decide) hm
    · exact absurd hm (by decide)

theorem three_le_length_nameOf (hash : Option String) : 3 ≤ (nameOf "" hash).length := by
  cases hash <;> simp only [nameOf, String.length_append] <;> exact Nat.le_add_left _ _

/-- The specifier by which the code of a module imports another one: the path from the one to the
other, with the start of the recorded hash if both are local. -/
def specifier (m : Module) (d : Dependency) : String :=
  nameOf (ModuleId.relativeSpecifier m.stem (ModuleId.stem d.path))
    (if m.isRemote || ModuleId.isRemote d.path then none else some d.hash)

end Module

namespace Linkage

variable {g : Graph} {disk : Disk} {m : Module} {old new : List String} {specifier : String}

theorem locatesLocally_linkage (g : Graph) (disk : Disk) (importer : String) :
    (g.linkage disk importer).LocatesLocally := by
  intro path id h
  have hc : g.folder.canonicalId? disk path = some id := h
  simp only [Source.Folder.canonicalId?, Option.bind_eq_bind, Option.bind_eq_some_iff] at hc
  obtain ⟨_, -, below, -, hid⟩ := hc
  rw [← Option.some.inj hid]
  exact ModuleId.isRemote_slash _

end Linkage

namespace Site

theorem exists_requestPrefix {s : Site} (h : s.config.Normal) :
    ∃ names, s.requestPrefix = spelled names ∧ ∀ name ∈ names, IsSegment name := by
  have hall : ∀ name ∈ ModuleId.cleanSegments s.config.baseUrl, IsSegment name := fun name ↦
    ModuleId.isSegment_of_mem_cleanSegments
  rw [requestPrefix, ← h, normalizeLocal]
  generalize ModuleId.cleanSegments s.config.baseUrl = names at hall
  refine ⟨names, ?_, hall⟩
  by_cases hne : names = []
  · subst hne
    rfl
  · have hroot : ModuleId.rooted names ≠ "/" := by
      intro he
      have hsegments := ModuleId.segments_spelled hall
      rw [← ModuleId.rooted_eq_spelled hne, he] at hsegments
      exact hne hsegments.symm
    rw [BaseUrl.requestPrefix, if_neg hroot, ModuleId.rooted_eq_spelled hne]

theorem isHexDigit_hexDigit : ∀ n < 16, isHexDigit (Digest.hexDigit n) = true := by
  decide

theorem cutHash?_append (stem text : String) :
    cutHash? (stem ++ "." ++ hashPrefix (contentHash text)) =
      some (stem, hashPrefix (contentHash text)) := by
  have hsize : (hashPrefix (contentHash text)).utf8ByteSize = Digest.prefixLength := by
    rw [Digest.utf8ByteSize_eq_octets, Digest.octets_hashPrefix_contentHash]
  have hhex : (hashPrefix (contentHash text)).toList.all isHexDigit = true := by
    rw [List.all_eq_true, Digest.hashPrefix_contentHash]
    intro c hc
    obtain ⟨n, hn, rfl⟩ := Digest.exists_hexDigit_of_mem_contentHash (List.mem_of_mem_take hc)
    exact isHexDigit_hexDigit n hn
  rw [cutHash?, show ("." : String) = String.singleton '.' from rfl,
    Text.cutLast?_append (not_mem_hashPrefix (by decide))]
  simp only [Option.bind_eq_bind, Option.bind_some]
  rw [hsize, hhex]
  rfl

theorem startsWith_of_cutHash? {name stem hash : String} (h : cutHash? name = some (stem, hash))
    (hn : Text.startsWith name "/-/" = true) : Text.startsWith stem "/-/" = true := by
  simp only [cutHash?, Option.bind_eq_bind, Option.bind_eq_some_iff] at h
  obtain ⟨⟨before, after⟩, hcut, h⟩ := h
  split at h
  · obtain ⟨rfl, rfl⟩ := Prod.mk.inj (Option.some.inj h)
    obtain ⟨rfl, -⟩ := Text.cutLast?_eq_some.1 hcut
    exact ModuleId.startsWith_of_dot hn
  · cases h

end Site

namespace Graph

/-- The modules of a graph are told apart by their stems, which are paths in normal form and can stand
in URLs, and no local one is in the directory of remote ones. -/
structure WellNamed (g : Graph) : Prop where
  distinct : ((g.modules.modules ++ g.remote.modules).map Module.stem).Nodup
  normal : ∀ m ∈ g.modules.modules ++ g.remote.modules, normalizeLocal m.stem = m.stem
  plain : ∀ m ∈ g.modules.modules ++ g.remote.modules, ∀ c ∈ m.stem.toList, c ≠ '?' ∧ c ≠ '#'
  outside : ∀ m ∈ g.modules.modules, Text.startsWith m.id "/-/" = false

theorem find?_stem {ms : List Module} {m : Module} (h : (ms.map Module.stem).Nodup) (hm : m ∈ ms) :
    ms.find? (·.stem = m.stem) = some m := by
  have hsome : (ms.find? (·.stem = m.stem)).isSome = true :=
    List.find?_isSome.2 ⟨m, hm, decide_eq_true rfl⟩
  obtain ⟨m', hm'⟩ := Option.isSome_iff_exists.1 hsome
  have hp := List.find?_some hm'
  have hstem : m'.stem = m.stem := of_decide_eq_true hp
  rw [hm', List.inj_on_of_nodup_map h (List.mem_of_find?_eq_some hm') hm hstem]

variable {g : Graph} {m : Module}

theorem WellNamed.byOutput?_eq (h : g.WellNamed) (hm : m ∈ g.modules.modules) {hash : String}
    (hh : hashPrefix m.hash = hash ∨ g.isImportedAs m.id hash = true) :
    g.byOutput? m.stem hash = some m := by
  have hlocal := h.distinct
  rw [List.map_append] at hlocal
  rw [byOutput?, find?_stem (List.Nodup.of_append_left hlocal) hm]
  simp only [Option.bind_eq_bind, Option.bind_some]
  rw [if_pos]
  simpa using hh

theorem WellNamed.byStem?_eq (h : g.WellNamed) (hm : m ∈ g.modules.modules ++ g.remote.modules) :
    g.byStem? m.stem = some m :=
  find?_stem h.distinct hm

theorem WellNamed.byOutput?_eq_none (h : g.WellNamed)
    (hlocal : ∀ m ∈ g.modules.modules, ModuleId.isRemote m.id = false) {stem : String}
    (hs : Text.startsWith stem "/-/" = true) (hash : String) : g.byOutput? stem hash = none := by
  have hfind : g.modules.modules.find? (·.stem = stem) = none := by
    refine List.find?_eq_none.2 fun m hm he ↦ ?_
    have he := of_decide_eq_true he
    have houtside := h.outside m hm
    rw [Module.stem, ModuleId.stem, hlocal m hm, if_neg Bool.false_ne_true] at he
    obtain ⟨rest, hrest⟩ := ModuleId.exists_stripExtension m.id
    rw [he] at hrest
    rw [hrest, ModuleId.startsWith_append hs] at houtside
    cases houtside
  rw [byOutput?, hfind]
  rfl

end Graph

namespace Site

variable {s : Site} {m : Module} {name : String}

theorem served?_append (hb : ∀ c ∈ s.requestPrefix.toList, c ≠ '?' ∧ c ≠ '#')
    (hn : ∀ c ∈ name.toList, c ≠ '?' ∧ c ≠ '#') :
    s.served? (s.requestPrefix ++ modulePart ++ (name ++ ".js")) =
      (s.named? name).map (⟨·, false⟩) := by
  have hbefore : Text.before (fun c ↦ c = '?' || c = '#')
      (s.requestPrefix ++ modulePart ++ (name ++ ".js")) =
        s.requestPrefix ++ modulePart ++ (name ++ ".js") := by
    refine Text.before_eq_self fun c hc ↦ ?_
    simp only [String.toList_append, List.mem_append] at hc
    have hc : c ≠ '?' ∧ c ≠ '#' := by
      rcases hc with (hc | hc) | hc | hc
      · exact hb c hc
      · constructor <;> rintro rfl <;> exact absurd hc (by decide)
      · exact hn c hc
      · constructor <;> rintro rfl <;> exact absurd hc (by decide)
    simp [hc.1, hc.2]
  have hmap : Text.dropEnd? ".map" (name ++ ".js") = none := by
    refine Text.dropEnd?_eq_none (by decide) ?_
    rw [String.toList_append, List.getLast?_append_of_ne_nil _ (by decide)]
    decide
  rw [served?, hbefore, String.append_assoc, Text.dropStart?_append]
  simp only [Option.bind_eq_bind, Option.bind_some]
  rw [Text.dropStart?_append]
  simp only [Option.bind_some]
  rw [hmap]
  dsimp only
  rw [Text.dropEnd?_append]
  simp only [Option.bind_some]
  cases s.named? name <;> rfl

theorem named?_local (hw : s.graph.WellNamed) (hm : m ∈ s.graph.modules.modules) {text : String}
    (hh : hashPrefix m.hash = hashPrefix (contentHash text) ∨
      s.graph.isImportedAs m.id (hashPrefix (contentHash text)) = true) :
    s.named? (m.stem ++ "." ++ hashPrefix (contentHash text)) = some m := by
  rw [named?, cutHash?_append, Option.bind_some]
  dsimp only
  rw [hw.byOutput?_eq hm hh, Option.some_or]

theorem named?_remote (hw : s.graph.WellNamed)
    (hlocal : ∀ m ∈ s.graph.modules.modules, ModuleId.isRemote m.id = false)
    (hm : m ∈ s.graph.remote.modules) (hr : ModuleId.isRemote m.id = true) :
    s.named? m.stem = some m := by
  have hstem : Text.startsWith m.stem "/-/" = true := by
    rw [Module.stem, ModuleId.stem, if_pos hr]
    exact ModuleId.startsWith_remoteStem m.id
  have hbyStem := hw.byStem?_eq (List.mem_append_right _ hm)
  rw [named?]
  cases hcut : cutHash? m.stem with
  | none => rw [Option.bind_none, Option.none_or, hbyStem]
  | some cut =>
    rw [Option.bind_some]
    dsimp only
    rw [hw.byOutput?_eq_none hlocal (startsWith_of_cutHash? hcut hstem), Option.none_or, hbyStem]

section Histories

variable {ws : List Graph.World} {allowed : Graph.World → Graph.Event → Prop}
  {disk : Disk} {root : String} {o : Config.Overrides}

theorem plain_requestPrefix (h : ∀ c ∈ s.config.baseUrl.toList, c ≠ '?' ∧ c ≠ '#') :
    ∀ c ∈ s.requestPrefix.toList, c ≠ '?' ∧ c ≠ '#' := by
  rw [requestPrefix, BaseUrl.requestPrefix]
  split
  · exact fun _ hc ↦ (List.not_mem_nil hc).elim
  · exact h

/-- The path of a module with a hash that it has or that it is imported under leads to the module. -/
theorem served?_nameOf (hb : ∀ c ∈ s.config.baseUrl.toList, c ≠ '?' ∧ c ≠ '#')
    (hw : s.graph.WellNamed) (hs : Graph.Sound False (fun _ ↦ True) s.world) {id : String}
    (hm : s.world.Has id m) {hash : String} (hh : IsHash hash) (hne : hash ≠ "")
    (himport : ModuleId.isRemote id = false →
      hashPrefix m.hash = hashPrefix hash ∨ s.graph.isImportedAs id (hashPrefix hash) = true) :
    s.served? (s.requestPrefix ++ modulePart ++
      Module.nameOf m.stem (if ModuleId.isRemote id then none else some hash)) = some ⟨m, false⟩ := by
  obtain ⟨text, rfl⟩ := hh.resolve_left hne
  have hid := hm.id_eq
  have hlocal : ∀ m ∈ s.graph.modules.modules, ModuleId.isRemote m.id = false := fun m hm ↦
    Bool.eq_false_iff.2 (hs.modules m.id m (hs.sorted.find?_of_mem hm)).2.2
  rcases hm with hm | hm
  · have hr : ModuleId.isRemote id = false := Bool.eq_false_iff.2 (hs.modules id m hm).2.2
    have hmem := ModuleTable.mem_of_find? hm
    rw [hr, if_neg Bool.false_ne_true, Module.nameOf, served?_append (plain_requestPrefix hb),
      named?_local hw hmem (hid.symm ▸ himport hr)]
    · rfl
    · intro c hc
      simp only [String.toList_append, List.mem_append] at hc
      rcases hc with (hc | hc) | hc
      · exact hw.plain m (List.mem_append_left _ hmem) c hc
      · constructor <;> rintro rfl <;> exact absurd hc (by decide)
      · constructor <;> rintro rfl <;> exact not_mem_hashPrefix (by decide) hc
  · have hr : ModuleId.isRemote id = true := (hs.remote id m hm).2.2
    have hmem := ModuleTable.mem_of_find? hm
    rw [hr, if_pos rfl, Module.nameOf, served?_append (plain_requestPrefix hb)
      (hw.plain m (List.mem_append_right _ hmem)), named?_remote hw hlocal hmem (hid.symm ▸ hr)]
    rfl

theorem isImportedAs_of_mem {i : Module} {d : Dependency} (hi : i ∈ s.graph.modules.modules)
    (hd : d ∈ i.dependencies) (hne : d.hash ≠ "") :
    s.graph.isImportedAs d.path (hashPrefix d.hash) = true := by
  rw [Graph.isImportedAs, List.any_eq_true]
  refine ⟨i, hi, List.any_eq_true.2 ⟨d, hd, ?_⟩⟩
  simp [hne]

/-- In every state that the graph of a site can be in, as long as its modules are told apart by their
stems, the request path of a module leads to the module, and from the request path of a module the
specifiers in its code lead to the modules that it imports, under whatever hash. Only a module that
lies at the top and is called nothing is out of reach from below. -/
theorem links_of_history (h : Graph.History allowed ws) (hs : s.world ∈ ws)
    (hl : Config.load disk root o = .ok s.config)
    (hb : ∀ c ∈ s.config.baseUrl.toList, c ≠ '?' ∧ c ≠ '#') (hw : s.graph.WellNamed) :
    (∀ id m, s.world.Has id m → s.served? (s.moduleUrl m) = some ⟨m, false⟩) ∧
    ∀ id i d p, s.world.Has id i → d ∈ i.dependencies → d.hash ≠ "" → s.world.Has d.path p →
      p.stem ≠ "/" ∨ ModuleId.parentDirectory i.stem = "" →
        s.served? (ModuleId.resolveLocal (s.moduleUrl i) (i.specifier d)) = some ⟨p, false⟩ := by
  have hsound : Graph.Sound False (fun _ ↦ True) s.world :=
    Graph.sound_of_history h (fun hF ↦ hF.elim) (fun _ _ _ _ _ ↦ trivial) s.world hs
  have hmem : ∀ {id m}, s.world.Has id m → m ∈ s.graph.modules.modules ++ s.graph.remote.modules := by
    rintro id m (hm | hm)
    · exact List.mem_append_left _ (ModuleTable.mem_of_find? hm)
    · exact List.mem_append_right _ (ModuleTable.mem_of_find? hm)
  have hnameHash : ∀ {id m}, s.world.Has id m →
      m.nameHash = if ModuleId.isRemote id then none else some m.hash := by
    intro id m hm
    rw [Module.nameHash, (hsound.known hm).isRemote, hm.id_eq]
  constructor
  · intro id m hm
    have hf := hsound.known hm
    rw [moduleUrl, Module.outputName, hnameHash hm]
    exact served?_nameOf hb hw hsound hm (.inr ⟨_, hf.hash⟩)
      (hf.hash ▸ Digest.contentHash_ne_empty _) fun _ ↦ .inl rfl
  · intro id i d p hi hd hne hp htop
    obtain ⟨names, hprefix, hnames⟩ := exists_requestPrefix (Config.normal_load hl)
    have hf := hsound.known hi
    obtain ⟨hhash, -, hremote⟩ := hf.dependencies d hd
    obtain ⟨text, htext⟩ := hhash.resolve_left hne
    have hid := hi.id_eq
    have hp' := hp.id_eq
    have hbase : s.requestPrefix ++ modulePart = spelled (names ++ ["_post"]) := by
      rw [ModuleId.spelled_append, ← hprefix]
      rfl
    have hsegments : ∀ name ∈ names ++ ["_post"], IsSegment name := by
      intro name hm
      rcases List.mem_append.1 hm with hm | hm
      · exact hnames name hm
      · rw [List.mem_singleton.1 hm]
        exact ⟨by decide, by decide, by decide, by decide⟩
    have hspecifier : i.specifier d = ModuleId.relativeSpecifier i.stem p.stem ++
        Module.nameOf "" (if ModuleId.isRemote d.path then none else some d.hash) := by
      rw [Module.specifier, Module.nameOf_eq_append, Module.stem, Module.stem, hf.isRemote, hp']
      cases hr : ModuleId.isRemote i.id with
      | false => rw [Bool.false_or]
      | true => rw [Bool.true_or, hremote hr]
    have hending : ∀ x ∈ i.nameHash, ∃ text, x = contentHash text := by
      rw [hnameHash hi]
      split
      · exact fun _ hx ↦ by cases hx
      · rintro _ ⟨⟩
        exact ⟨_, hf.hash⟩
    have hending' : ∀ x ∈ if ModuleId.isRemote d.path then none else some d.hash,
        ∃ text, x = contentHash text := by
      split
      · exact fun _ hx ↦ by cases hx
      · rintro _ ⟨⟩
        exact hhash.resolve_left hne
    rw [hspecifier, moduleUrl, Module.outputName, Module.nameOf_eq_append, ← String.append_assoc,
      hbase, ModuleId.resolveLocal_relativeSpecifier hsegments (hw.normal i (hmem hi))
        (hw.normal p (hmem hp)) htop (Module.slash_not_mem_nameOf hending)
        (ModuleId.isSegment_append (Text.not_mem_afterLast '/' _) (Module.slash_not_mem_nameOf hending')
          (Module.three_le_length_nameOf _)), String.append_assoc, ← Module.nameOf_eq_append, ← hbase]
    refine served?_nameOf hb hw hsound hp hhash hne fun hr ↦ .inr ?_
    refine isImportedAs_of_mem (ModuleTable.mem_of_find? (hi.resolve_right fun hi ↦ ?_)) hd hne
    rw [hremote (hid.symm ▸ (hsound.remote id i hi).2.2)] at hr
    cases hr

def ofWorld (world : Graph.World) : Site where
  config := .default "p"
  isProduction := false
  world := world
  pages := .empty
  appModule? := none
  dictionaries := []
  executor := .idle
  renderPage := fun page ↦ .ok (Shell.page page)

theorem wellNamed_of_contents {g : Graph} (h : Graph.contents g = Graph.pair) : g.WellNamed := by
  have hids : (g.modules.modules ++ g.remote.modules).map Module.id = ["/a.js", "/b.js"] := by
    have hids := congrArg (List.map Prod.fst) h
    rw [Graph.contents, List.map_map] at hids
    exact hids
  have hall : ∀ m ∈ g.modules.modules ++ g.remote.modules,
      (m.id = "/a.js" ∨ m.id = "/b.js") ∧ (m.stem = "/a" ∨ m.stem = "/b") := by
    intro m hm
    have hid := List.mem_map_of_mem (f := Module.id) hm
    rw [hids] at hid
    have hid := (List.mem_cons.1 hid).imp_right List.mem_singleton.1
    refine ⟨hid, ?_⟩
    rw [Module.stem]
    exact hid.imp (fun he ↦ by rw [he]; decide) fun he ↦ by rw [he]; decide
  refine ⟨?_, ?_, ?_, ?_⟩
  · have hstems : (g.modules.modules ++ g.remote.modules).map Module.stem =
        ["/a.js", "/b.js"].map ModuleId.stem := by
      rw [← hids, List.map_map]
      rfl
    rw [hstems]
    decide
  · intro m hm
    rcases (hall m hm).2 with he | he <;> rw [he] <;> decide
  · intro m hm
    rcases (hall m hm).2 with he | he <;> simp [he]
  · intro m hm
    rcases (hall m (List.mem_append_left _ hm)).1 with he | he <;> rw [he] <;> decide

theorem links_pairWorld : ∃ w a b,
    Graph.pairWorld.react (.compile "a.js" .default) = w ∧ (ofWorld w).graph.WellNamed ∧
    Config.load Graph.pairWorld.disk "p" .none = .ok (ofWorld w).config ∧
    w.Has "/a.js" a ∧ w.Has "/b.js" b ∧
    (ofWorld w).served? ((ofWorld w).moduleUrl a) = some ⟨a, false⟩ ∧
    (ofWorld w).served? (ModuleId.resolveLocal ((ofWorld w).moduleUrl a) "./b.da39a3ee5.js") =
      some ⟨b, false⟩ := by
  obtain ⟨_, w, hok, -, hpair⟩ := Graph.exists_compile_pairWorld
  have hreact : Graph.pairWorld.react (.compile "a.js" .default) = w := by
    rw [Graph.World.react_compile, hok]
  have hh : Graph.History (fun _ _ ↦ True) [w, Graph.pairWorld] := by
    rw [← hreact]
    exact .step (.start Graph.fresh_pairWorld)
      (Graph.pairWorld.admits_compile "a.js" .default) trivial
  have hw := wellNamed_of_contents hpair
  have hload : Config.load Graph.pairWorld.disk "p" .none = .ok (ofWorld w).config := rfl
  obtain ⟨a, ha⟩ := @Graph.exists_of_mem_contents w "/a.js" (by rw [hpair]; decide)
  obtain ⟨b, hb⟩ := @Graph.exists_of_mem_contents w "/b.js" (by rw [hpair]; decide)
  have hdeps : a.dependencies = [⟨"/b.js", "da39a3ee5e6b4b0d3255bfef95601890afd80709"⟩] := by
    have hmem := Graph.mem_contents ha
    rw [hpair, Graph.pair] at hmem
    rcases List.mem_cons.1 hmem with he | hmem
    · exact (Prod.mk.inj (Prod.mk.inj he).2).2
    · have he : "/a.js" = "/b.js" := congrArg Prod.fst (List.mem_singleton.1 hmem)
      exact absurd he (by decide)
  have hbase : ∀ c ∈ (Config.default "p").baseUrl.toList, c ≠ '?' ∧ c ≠ '#' := by
    simp [Config.default]
  obtain ⟨hserved, hlinks⟩ := links_of_history (s := ofWorld w) hh List.mem_cons_self hload hbase hw
  have hlink := hlinks "/a.js" a ⟨"/b.js", "da39a3ee5e6b4b0d3255bfef95601890afd80709"⟩ b ha
    (by rw [hdeps]; exact List.mem_cons_self) (by decide) hb
    (.inl (by rw [Module.stem, hb.id_eq]; decide))
  refine ⟨w, a, b, hreact, hw, hload, ha, hb, hserved "/a.js" a ha, ?_⟩
  have hremote : a.isRemote = false := by
    have hs := Graph.sound_of_history (F := False) (T := fun _ ↦ True) hh (fun hF ↦ hF.elim)
      (fun _ _ _ _ _ ↦ trivial) w List.mem_cons_self
    rw [(hs.known ha).isRemote, ha.id_eq]
    rfl
  rw [← hlink, Module.specifier, hremote, Module.stem, ha.id_eq]
  rfl

end Histories

end Site
end SiteCompiler
