import SiteCompiler.Proofs.Graph.World
import SiteCompiler.Proofs.Interruption

namespace SiteCompiler.Graph

open ArtifactStore (recordEnding codeEnding mapEnding recordText readText? sourceMapPath)
open Digest (contentHash)
open Disk

variable {g : Graph} {d₀ d d' : Disk} {m found : Module} {id : String}

theorem exists_codePath_eq (s : ArtifactStore) (stem : String) {hash : Option String}
    (hh : ∀ x ∈ hash, ∃ text, x = contentHash text) : ∃ ending,
      s.codePath stem hash = s.path stem ++ ending ∧ '/' ∉ ending.toList ∧ ending ≠ "" := by
  obtain ⟨ending, he, hl, hs⟩ := ArtifactStore.exists_nameOf stem hh
  have hhead : ∀ c ∈ ending.toList.head?, c ≠ '/' := by
    rintro c hc rfl
    exact hs (List.mem_of_mem_head? hc)
  refine ⟨ending, by rw [ArtifactStore.codePath, he, s.path_append hhead], hs, ?_⟩
  rintro rfl
  exact absurd hl (by decide)

theorem readRecord?_eq_some_iff {s : ArtifactStore} {stem : String} {r : ModuleMeta} :
    s.readRecord? d stem = some r ↔ ∃ p content, d.locate (s.recordPath stem) = .ok p ∧
      d.entry? p = some (.file content) ∧ ModuleMeta.read? (recordText content) = some r := by
  rw [ArtifactStore.readRecord?, Option.bind_eq_some_iff]
  constructor
  · rintro ⟨content, hb, hr⟩
    cases hread : d.readBytes (s.recordPath stem) with
    | error cause => rw [hread] at hb; cases hb
    | ok content' =>
      rw [hread] at hb
      obtain rfl : content' = content := Option.some_inj.1 hb
      obtain ⟨p, hl, hc⟩ := readBytes_eq_ok hread
      exact ⟨p, content', hl, hc, hr⟩
  · rintro ⟨p, content, hl, hc, hr⟩
    exact ⟨content, by rw [readBytes_of_file hl hc]; rfl, hr⟩

theorem readRecord?_of_made {s : ArtifactStore} {stem : String} {r : ModuleMeta} {p : Place}
    (made : Grows (fun _ _ ↦ False) d d') (hl : d.locate (s.recordPath stem) = .ok p)
    (h : s.readRecord? d' stem = some r) : s.readRecord? d stem = some r := by
  obtain ⟨q, content, hq, hc, hr⟩ := readRecord?_eq_some_iff.1 h
  rw [made.locate hl] at hq
  obtain rfl := Except.ok.inj hq
  exact readRecord?_eq_some_iff.2 ⟨p, content, hl, (made.origin p content hc).resolve_right not_false, hr⟩

theorem loadPersisted?_of_made (made : Grows (fun _ _ ↦ False) d d') {p : Place}
    (hl : d.locate (g.store.recordPath (ModuleId.stem id)) = .ok p)
    (h : g.loadPersisted? d' id = some found) : g.loadPersisted? d id = some found := by
  simp only [loadPersisted?, Option.bind_eq_bind, Option.bind_eq_some_iff] at h ⊢
  obtain ⟨r, hr, _, hs, code, hc, _, hv, h⟩ := h
  have hvalid := of_guard hv
  rw [Bool.and_eq_true, decide_eq_true_eq] at hvalid
  have hhash : ∀ x ∈ if r.isRemote then none else some r.hash, ∃ text, x = contentHash text := by
    intro x hx
    split at hx
    · cases hx
    · exact ⟨code, by rw [hvalid.1]; exact (Option.some_inj.1 hx).symm⟩
  obtain ⟨ending, hpath, hslash, hne⟩ := exists_codePath_eq g.store (ModuleId.stem id) hhash
  have hbeside : ∀ e, '/' ∉ e.toList → e ≠ "" →
      readText? d' (g.store.path (ModuleId.stem id) ++ e) =
        readText? d (g.store.path (ModuleId.stem id) ++ e) := by
    intro e he hne
    rw [ArtifactStore.recordPath_eq] at hl
    exact readText?_beside made ⟨by decide, by decide⟩ ⟨he, hne⟩ hl
  have hmap : readText? d' (sourceMapPath (g.store.path (ModuleId.stem id) ++ ending)) =
      readText? d (sourceMapPath (g.store.path (ModuleId.stem id) ++ ending)) := by
    rw [sourceMapPath, String.append_assoc]
    apply hbeside
    · rw [String.toList_append]
      exact fun hm ↦ (List.mem_append.1 hm).elim hslash (by decide)
    · intro he
      have hlen := congrArg String.length he
      rw [String.length_append] at hlen
      exact absurd (Nat.eq_zero_of_add_eq_zero_left hlen) (by decide)
  rw [hpath] at hc h
  rw [hmap] at h
  rw [hbeside ending hslash hne] at hc
  refine ⟨r, readRecord?_of_made made hl hr, (), hs, code, ?_, (), hv, ?_⟩
  · rw [hpath]
    exact hc
  · rw [hpath]
    exact h

/-- What lies at the place of code after an interruption was there before or is a beginning of the
code that was being written. -/
theorem code_of_interrupted {s : ArtifactStore} {stem : String} {hash : Option String}
    (file : m.file = s.codePath stem hash) (left : Interrupted (s.filesOf m) d d') {code : String}
    (h : readText? d' m.file = some code) :
    d.entry? (placeOf d.workingDirectory m.file) = some (.file code.toUTF8) ∨
      code.toList <+: m.code.toList := by
  obtain ⟨p, hl, hc⟩ := readBytes_eq_ok (ArtifactStore.readText?_eq_some h)
  have hp := locate_eq_ok hl
  have hend : EndsIn p codeEnding := by
    rw [hp, file]
    exact s.endsIn_codePath _ stem hash
  rw [left.grows.workingDirectory] at hp
  rcases left.grows.origin p _ hc with hc | ⟨path, text, n, hm, hl', hc⟩
  · rw [← hp]
    exact .inl hc
  · have hp' := locate_eq_ok hl'
    rcases List.mem_cons.1 hm with he | hm
    · rw [hp', (Prod.mk.inj he).1] at hend
      exact absurd (s.endsIn_recordPath _ _) (ArtifactStore.not_endsIn_of_ne hend (by decide))
    · rcases List.mem_cons.1 hm with he | hm
      · rw [(Prod.mk.inj he).2] at hc
        exact .inr (Text.Utf8.prefix_of_extract hc)
      · obtain ⟨map, -, he⟩ := Option.map_eq_some_iff.1 (Option.mem_toList.1 hm)
        rw [hp', ← (Prod.mk.inj he).1] at hend
        exact absurd (ArtifactStore.endsIn_sourceMapPath _ _)
          (ArtifactStore.not_endsIn_of_ne hend (by decide))

/-- Once the record has been touched, what reads as a record in its place is that of the module. -/
theorem record_of_interrupted {s : ArtifactStore} {stem path : String} {hash : Option String} {n : Nat}
    {r : ModuleMeta} {code : String} {sourceMap : Option String}
    (written : d₀.writeBytes (s.recordPath stem) (m.record.text.toUTF8.extract 0 n) = .ok d)
    (left : Interrupted (ArtifactStore.codeFiles (s.codePath path hash) code sourceMap) d d')
    (h : s.readRecord? d' stem = some r) : r = m.record := by
  obtain ⟨q, content, hq, hc, hr⟩ := readRecord?_eq_some_iff.1 h
  obtain ⟨p, hl, hp⟩ := readBytes_eq_ok (writeBytes_eq_ok written).2
  rw [left.grows.locate hl] at hq
  obtain rfl := Except.ok.inj hq
  rcases left.grows.origin p content hc with hold | ⟨other, text, k, hm, hl', -⟩
  · rw [hp] at hold
    obtain rfl := Entry.file.inj (Option.some_inj.1 hold)
    exact ModuleMeta.eq_of_read?_extract hr
  · refine absurd ?_ (ArtifactStore.not_endsIn_codeFiles hm d'.workingDirectory)
    rw [← locate_eq_ok hl', locate_eq_ok (left.grows.locate hl)]
    exact s.endsIn_recordPath _ _

/-- However the writing of a module breaks off, and whatever the program had left in the store, a new
graph loads the module, or what it would have loaded before if no file had been touched, or nothing. -/
theorem recovers_of_interrupted (hash : m.hash = contentHash m.code)
    (file : m.file = g.store.codePath m.stem m.nameHash) (reachable : g.store.Reachable m.id d₀)
    (evolves : g.store.Evolves d₀ d)
    (distinct : ∀ text, d.entry? (placeOf d.workingDirectory m.file) = some (.file text.toUTF8) ∨
      text.toList <+: m.code.toList → contentHash text = contentHash m.code → text = m.code)
    (left : Interrupted (g.store.filesOf m) d d') (h : g.loadPersisted? d' m.id = some found) :
    found = { m with sourceMap := found.sourceMap } ∨
      Grows (fun _ _ ↦ False) d d' ∧ g.loadPersisted? d m.id = some found := by
  obtain ⟨r, code, map, hr, hs, hc, hh, hfound⟩ := loadPersisted?_eq_some h
  rcases left.head with made | ⟨n, d₁, d₂, made, written, rest⟩
  · obtain ⟨q, content, hq, hcontent, hr⟩ := readRecord?_eq_some_iff.1 hr
    have hplace := locate_eq_ok hq
    rw [made.workingDirectory] at hplace
    have hold := (made.origin q content hcontent).resolve_right not_false
    rw [hplace] at hold
    obtain ⟨p, hp⟩ := reachable.evolves evolves content r hold hr hs
    exact .inr ⟨made, loadPersisted?_of_made made hp h⟩
  · rw [file] at rest
    obtain rfl := record_of_interrupted written rest hr
    have hfile : g.store.codePath (ModuleId.stem m.id)
        (if m.record.isRemote then none else some m.record.hash) = m.file := file.symm
    rw [hfile] at hc hfound
    have hcode := distinct code (code_of_interrupted file left hc) (hh.trans hash)
    rw [hcode] at hfound
    rw [hfound]
    exact .inl rfl

theorem readRecord?_of_written {s : ArtifactStore} {stem : String} {hash : Option String}
    (file : m.file = s.codePath stem hash)
    (h : (d.perform (s.write m.stem m.record.text m.file m.code m.sourceMap)).1 = .ok ()) :
    s.readRecord? (d.perform (s.write m.stem m.record.text m.file m.code m.sourceMap)).2 m.stem =
      some m.record := by
  rw [file] at h ⊢
  obtain ⟨p, hl, hc⟩ := readBytes_eq_ok
    (ArtifactStore.readText?_eq_some (ArtifactStore.readText?_recordPath h))
  refine readRecord?_eq_some_iff.2 ⟨p, _, hl, hc, ?_⟩
  rw [recordText, Text.Utf8.decode?_toUTF8, Option.getD_some]
  exact m.record.read?_text

/-- A module is loaded from its record and its code, with the source map that is there. -/
theorem loadPersisted?_of_texts (hash : m.hash = contentHash m.code)
    (file : m.file = g.store.codePath m.stem m.nameHash)
    (valid : HashSlot.valid m.code m.slots = true)
    (hrecord : g.store.readRecord? d m.stem = some m.record)
    (hcode : readText? d m.file = some m.code) :
    g.loadPersisted? d m.id = some { m with
      sourceMap := if g.settings.sourceMap then readText? d (sourceMapPath m.file) else none } := by
  have hstem : ModuleId.stem m.id = m.stem := rfl
  have hfile : g.store.codePath m.stem (if m.record.isRemote then none else some m.record.hash) =
      m.file := file.symm
  have hguard : (decide (contentHash m.code = m.record.hash) &&
      HashSlot.valid m.code m.record.slots) = true := by
    rw [Bool.and_eq_true, decide_eq_true_eq]
    exact ⟨hash.symm, valid⟩
  have hsource : m.record.sourceFile = m.id := rfl
  simp only [loadPersisted?, hstem, hrecord, Option.bind_eq_bind, Option.bind_some, hfile, hcode,
    guard, if_pos hguard, if_pos hsource]
  rfl

theorem loadPersisted?_of_written (hash : m.hash = contentHash m.code)
    (file : m.file = g.store.codePath m.stem m.nameHash)
    (valid : HashSlot.valid m.code m.slots = true)
    (h : (d.perform (g.store.write m.stem m.record.text m.file m.code m.sourceMap)).1 = .ok ()) :
    ∃ map, g.loadPersisted?
      (d.perform (g.store.write m.stem m.record.text m.file m.code m.sourceMap)).2 m.id =
        some { m with sourceMap := map } := by
  have hend : EndsIn (placeOf d.workingDirectory m.file) codeEnding := by
    rw [file]
    exact g.store.endsIn_codePath _ _ _
  exact ⟨_, loadPersisted?_of_texts hash file valid (readRecord?_of_written file h)
    (ArtifactStore.readText?_write hend h)⟩

def renewedGraph : Graph :=
  .new ⟨"s", 1000⟩ ⟨"c"⟩ ⟨⟨[]⟩, true, true⟩

def fullModule : Module :=
  ⟨"/a.js", .js, "", false, "1dcd8fc1a0be55707e0a434392312f2a5e1c3700", "1;", none,
    "c/a.1dcd8fc1a.js", [], []⟩

def fullDisk : Disk :=
  ⟨[], [(["c"], .directory), (["c", "a.meta.json"], .file fullModule.record.text.toUTF8),
    (["c", "a.1dcd8fc1a.js"], .file "1;".toUTF8)]⟩

def changedModule : Module :=
  ⟨"/a.js", .js, "", false, "da4b9237bacccdf19c0760cab7aec4a8359010b0", "2", some "map",
    "c/a.da4b9237b.js", [], []⟩

def tornDisk : Disk :=
  ((fullDisk.put ["c", "a.meta.json"] (.file changedModule.record.text.toUTF8)).put
    ["c", "a.da4b9237b.js"] (.file "2".toUTF8)).put
      ["c", "a.da4b9237b.js.map"] (.file ("map".toUTF8.extract 0 2))

theorem filesOf_changedModule : renewedGraph.store.filesOf changedModule =
    [("c/a.meta.json", changedModule.record.text), ("c/a.da4b9237b.js", "2"),
      ("c/a.da4b9237b.js.map", "map")] := by
  have hrecord : renewedGraph.store.recordPath changedModule.stem = "c/a.meta.json" := by
    decide +kernel
  have hmap : sourceMapPath "c/a.da4b9237b.js" = "c/a.da4b9237b.js.map" := by
    decide +kernel
  rw [ArtifactStore.filesOf, hrecord, ArtifactStore.codeFiles, changedModule]
  dsimp only [Option.map_some, Option.toList_some]
  rw [hmap]

theorem interrupted_tornDisk :
    Interrupted (renewedGraph.store.filesOf changedModule) fullDisk tornDisk := by
  rw [filesOf_changedModule, tornDisk]
  generalize changedModule.record.text = text
  exact .next (.refl _ _) rfl (.next (.refl _ _) rfl (.torn 2 (.refl _ _) rfl))

theorem recovers_tornDisk : ∃ found,
    Interrupted (renewedGraph.store.filesOf changedModule) fullDisk tornDisk ∧
    renewedGraph.loadPersisted? tornDisk "/a.js" = some found ∧ found.sourceMap = some "ma" ∧
      (found = { changedModule with sourceMap := found.sourceMap } ∨
        Grows (fun _ _ ↦ False) fullDisk tornDisk ∧
          renewedGraph.loadPersisted? fullDisk "/a.js" = some found) := by
  have hash : changedModule.hash = contentHash changedModule.code := by
    decide +kernel
  have file : changedModule.file =
      renewedGraph.store.codePath changedModule.stem changedModule.nameHash := by
    decide +kernel
  have hrecordPath : renewedGraph.store.recordPath changedModule.stem = "c/a.meta.json" := by
    decide +kernel
  have hrecord : renewedGraph.store.readRecord? tornDisk changedModule.stem = some changedModule.record := by
    refine readRecord?_eq_some_iff.2 ⟨["c", "a.meta.json"], changedModule.record.text.toUTF8,
      by rw [hrecordPath]; rfl, rfl, ?_⟩
    rw [recordText, Text.Utf8.decode?_toUTF8, Option.getD_some]
    exact changedModule.record.read?_text
  have hcode : readText? tornDisk changedModule.file = some changedModule.code :=
    ArtifactStore.readText?_of_readBytes rfl
  have hcut : "map".toUTF8.extract 0 2 = "ma".toUTF8 := by
    decide +kernel
  have hmapPath : sourceMapPath changedModule.file = "c/a.da4b9237b.js.map" := by
    decide +kernel
  have hmap : readText? tornDisk (sourceMapPath changedModule.file) = some "ma" := by
    rw [hmapPath]
    refine ArtifactStore.readText?_of_readBytes ?_
    rw [← hcut]
    rfl
  have hreach : renewedGraph.store.Reachable changedModule.id fullDisk :=
    fun _ _ _ _ _ ↦ ⟨["c", "a.meta.json"], by decide +kernel⟩
  have hempty : contentHash "" ≠ changedModule.hash := by
    decide +kernel
  have hfree : (fullDisk.entry? (placeOf fullDisk.workingDirectory changedModule.file)).isNone = true := by
    decide +kernel
  have h := loadPersisted?_of_texts hash file rfl hrecord hcode
  refine ⟨_, interrupted_tornDisk, h, hmap,
    recovers_of_interrupted hash file hreach .refl ?_ interrupted_tornDisk h⟩
  rintro text (hold | hp) he
  · rw [hold] at hfree
    cases hfree
  · have hm : text ∈ ["", "2"] := by
      have hinits := List.mem_map_of_mem (f := String.ofList) ((List.mem_inits _ _).2 hp)
      rwa [String.ofList_toList] at hinits
    rcases List.mem_pair.1 hm with rfl | rfl
    · rw [← hash] at he
      exact absurd he hempty
    · rfl

end SiteCompiler.Graph
