import SiteCompiler.Proofs.Graph.OutputNames
import SiteCompiler.Proofs.Site.Building

namespace SiteCompiler

open ArtifactStore (StaysBelow sourceMapPath)
open Disk (Place placeOf placeOf_join placeOf_names)
open ModuleId (IsSegment Normal Proper rooted)

/-- The path leads to a place below the directory, wherever relative paths start. -/
def Disk.Contains (directory path : String) : Prop :=
  ∀ start : Place, ∃ names, names ≠ [] ∧ placeOf start path = placeOf start directory ++ names

open Disk (Contains)

def Digest.IsHex (hash : String) : Prop :=
  hash.length = 40 ∧ ∀ c ∈ hash.toList, c ∈ "0123456789abcdefABCDEF".toList

theorem Digest.IsHex.slash_not_mem {hash : String} (h : Digest.IsHex hash) : '/' ∉ hash.toList :=
  fun hm ↦ absurd (h.2 '/' hm) (by decide)

theorem Digest.isHex_contentHash (text : String) : Digest.IsHex (Digest.contentHash text) := by
  have hdigits : ∀ n < 16, Digest.hexDigit n ∈ "0123456789abcdefABCDEF".toList := by decide
  refine ⟨String.length_toList ▸ Digest.length_contentHash text, fun c hc ↦ ?_⟩
  obtain ⟨n, hn, rfl⟩ := Digest.exists_hexDigit_of_mem_contentHash hc
  exact hdigits n hn

variable {id hash name ending : String} {names : List String}

namespace ArtifactStore

/-- With an ending a name is no step to a directory above, so that its path leads on from the root. -/
theorem contains_path (s : ArtifactStore) (h : StaysBelow (Text.pieces '/' name).dropLast)
    (hl : 3 ≤ ending.length) (hs : '/' ∉ ending.toList) :
    Contains s.root (s.path (name ++ ending)) := by
  intro start
  refine ⟨_, ?_, (s.placeOf_path start _).trans ((h.append hl hs).foldl_lexicalStep _)⟩
  obtain ⟨front, last, hp⟩ := Text.exists_pieces '/' name
  have hlast : '/' ∉ last.toList := Text.not_mem_of_mem_pieces (s := name) (by simp [hp])
  have hsegment : ∀ x ∈ [last ++ ending], IsSegment x := fun x hx ↦
    List.mem_singleton.1 hx ▸ ModuleId.isSegment_append hlast hs hl
  rw [Text.pieces_append hs hp, ModuleId.climb_append, ModuleId.climb_segments hsegment]
  simp

variable (s : ArtifactStore) (hid : Proper id) {hash : Option String}
  (hh : ∀ x ∈ hash, '/' ∉ x.toList)

include hid

theorem contains_recordPath : Contains s.root (s.recordPath (ModuleId.stem id)) :=
  s.contains_path (ModuleId.staysBelow_stem hid) (by decide) (by decide)

include hh

theorem contains_codePath : Contains s.root (s.codePath (ModuleId.stem id) hash) ∧
    Contains s.root (sourceMapPath (s.codePath (ModuleId.stem id) hash)) := by
  obtain ⟨ending, hname, hl, hs⟩ := exists_nameOf_of_not_mem (ModuleId.stem id) hh
  have hstem := ModuleId.staysBelow_stem hid
  have hmap : sourceMapPath (s.codePath (ModuleId.stem id) hash) =
      s.path (ModuleId.stem id ++ (ending ++ mapEnding)) := by
    rw [codePath, hname, ← String.append_assoc]
    exact (s.path_append (by rintro c ⟨⟩; decide)).symm
  have hslash : '/' ∉ (ending ++ mapEnding).toList := by
    rw [String.toList_append]
    exact fun hm ↦ (List.mem_append.1 hm).elim hs (by decide)
  have hlength : 3 ≤ (ending ++ mapEnding).length := by
    rw [String.length_append]
    omega
  rw [hmap, codePath, hname]
  exact ⟨s.contains_path hstem hl hs, s.contains_path hstem hlength hslash⟩

end ArtifactStore

namespace Site

theorem contains_moduleFiles (s : Site) (hid : Proper id) {hash : Option String}
    (hh : ∀ x ∈ hash, '/' ∉ x.toList) (m : Module) :
    ∀ file ∈ s.moduleFiles (Module.nameOf (ModuleId.stem id) hash) m,
      Contains s.moduleDirectory file.1 := by
  obtain ⟨hcode, hmap⟩ := ArtifactStore.contains_codePath ⟨s.moduleDirectory⟩ hid hh
  simp only [ArtifactStore.codePath, ArtifactStore.path] at hcode hmap
  unfold moduleFiles
  simp only [List.forall_mem_cons, List.forall_mem_map]
  exact ⟨hcode, fun _ _ ↦ hmap⟩

theorem exists_pageFile (h : ∀ s ∈ names, IsSegment s) : ∃ file, file ≠ [] ∧
    FilePath.isAbsolute (pageFile (rooted names)) = false ∧
      ∀ start, placeOf start (pageFile (rooted names)) = start ++ file := by
  have hindex : ∀ s ∈ ["index.html"], IsSegment s := by
    simp only [List.mem_singleton, forall_eq]
    exact ⟨by decide, by decide, by decide, by decide⟩
  have hnotFound : ∀ s ∈ ["404.html"], IsSegment s := by
    simp only [List.mem_singleton, forall_eq]
    exact ⟨by decide, by decide, by decide, by decide⟩
  rw [pageFile]
  split
  · exact ⟨_, List.cons_ne_nil _ _, rfl, fun start ↦ (placeOf_names hindex (by simp) start).1⟩
  · next hroot =>
    split
    · exact ⟨_, List.cons_ne_nil _ _, rfl, fun start ↦ (placeOf_names hnotFound (by simp) start).1⟩
    · have hne : names ≠ [] := by
        rintro rfl
        exact hroot rfl
      have hrelative := (placeOf_names h hne []).2
      have htrim : Text.trimStart (· = '/') (rooted names) = "/".intercalate names := by
        refine Eq.trans ?_ (Disk.trimStart_of_relative hrelative)
        rw [rooted, Text.trimStart, Text.trimStart, String.toList_append]
        rfl
      have hempty : "/".intercalate names ≠ "" := by
        intro he
        have hplace := (placeOf_names h hne []).1
        rw [he] at hplace
        exact hne hplace.symm
      rw [htrim]
      refine ⟨names ++ ["index.html"], by simp, ?_, fun start ↦ ?_⟩
      · rw [Disk.isAbsolute_join hempty rfl, hrelative]
      · rw [placeOf_join rfl, (placeOf_names h hne start).1, ← List.append_assoc]
        exact (placeOf_names hindex (by simp) (start ++ names)).1

theorem contains_pagePath (s : Site) {ids : List String} {route : String}
    (hids : ∀ id ∈ ids, PageTable.IsPublic id) (hr : route ∈ (PageTable.ofIds ids).routes) :
    Contains s.config.outputDirectory (s.pagePath route) := by
  obtain ⟨id, hid, hroute⟩ := PageTable.mem_routes.1 hr
  obtain ⟨names, hnames, rfl⟩ := PageTable.exists_names (hids id hid) hroute
  obtain ⟨file, hne, hrelative, hplace⟩ := exists_pageFile hnames
  intro start
  exact ⟨file, hne, (placeOf_join hrelative start _).trans (hplace _)⟩

/-- The record, the code, the aliases and the source maps of a module lie below the root of the store,
and what is built of it below the directory of modules. The pages of a source directory lie below the
output directory. -/
theorem contains_files (s : Site) (store : ArtifactStore) (hid : Normal id)
    (hh : Digest.IsHex hash) {disk : Disk} (hd : disk.Tidy) (source : String) :
    Contains store.root (store.recordPath (ModuleId.stem id)) ∧
      (∀ part ∈ [none, some hash, some (Digest.hashPrefix hash)],
        Contains store.root (store.codePath (ModuleId.stem id) part) ∧
        Contains store.root (sourceMapPath (store.codePath (ModuleId.stem id) part)) ∧
        ∀ m, ∀ file ∈ s.moduleFiles (Module.nameOf (ModuleId.stem id) part) m,
          Contains (FilePath.join s.config.outputDirectory "_post") file.1) ∧
      ∀ route ∈ (PageTable.ofIds (Discovery.modules disk source)).routes,
        Contains s.config.outputDirectory (s.pagePath route) := by
  have hparts : ∀ part ∈ [none, some hash, some (Digest.hashPrefix hash)],
      ∀ x ∈ part, '/' ∉ x.toList := by
    have hslash := hh.slash_not_mem
    simp only [List.forall_mem_cons, Option.mem_def, Option.some.injEq, forall_eq', reduceCtorEq,
      false_imp_iff, implies_true, List.not_mem_nil, true_and, and_true]
    exact ⟨hslash, fun hm ↦ hslash (Digest.mem_of_mem_hashPrefix hm)⟩
  refine ⟨store.contains_recordPath hid.proper, fun part hp ↦ ?_, fun route hr ↦ ?_⟩
  · obtain ⟨hcode, hmap⟩ := store.contains_codePath hid.proper (hparts part hp)
    exact ⟨hcode, hmap, s.contains_moduleFiles hid.proper (hparts part hp)⟩
  · exact s.contains_pagePath (fun id hid ↦ Discovery.isPublic_of_mem hd hid) hr

theorem contains_files_aboutSite :
    Contains "/.cache" (ArtifactStore.recordPath ⟨"/.cache"⟩
      (ModuleId.stem "https://a.test/..;/..%2f/.js?to=../../b")) ∧
    Contains aboutSite.config.outputDirectory (aboutSite.pagePath "/about") := by
  have hid : Normal "https://a.test/..;/..%2f/.js?to=../../b" := .inl (by decide)
  obtain ⟨hrecord, -, hpages⟩ := contains_files aboutSite ⟨"/.cache"⟩ hid
    (Digest.isHex_contentHash "") tidy_aboutDisk "/"
  refine ⟨hrecord, hpages "/about" ?_⟩
  rw [modules_aboutDisk, PageTable.ofIds_singleton (by decide : _ = some "/about")]
  exact List.mem_cons_self

end Site
end SiteCompiler
