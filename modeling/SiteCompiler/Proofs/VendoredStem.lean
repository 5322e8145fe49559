import SiteCompiler.Module
import SiteCompiler.Proofs.LocalPath
import SiteCompiler.Proofs.ModuleId

namespace SiteCompiler.ModuleId

/-- The last segment of a URL's path, where a directory stands for its index. -/
def fileName (url : Url) : String :=
  let name := Text.afterLast '/' url.path
  if name = "" then "index" else name

/-- A stem that names a file below a directory: links and requests are about the same path. -/
structure NamesBelow (directory stem : String) : Prop where
  normal : normalizeLocal stem = stem
  below : Text.startsWith stem (directory ++ "/") = true
  named : Text.afterLast '/' stem ≠ ""
  reached : ∀ source ending, normalizeLocal source = source → '/' ∉ ending.toList →
    resolveLocal (source ++ ending) (relativeSpecifier source stem ++ ".js") = Module.nameOf stem none

theorem slash_not_mem_fileName (url : Url) : '/' ∉ (fileName url).toList := by
  rw [fileName]
  split
  · decide
  · exact Text.not_mem_afterLast '/' url.path

section Spelling

variable {names front : List String} {name path : String}

theorem normalizeLocal_spelled_iff (hl : 2 ≤ names.length) (hs : ∀ s ∈ names, '/' ∉ s.toList) :
    normalizeLocal (spelled names) = spelled names ↔ ∀ s ∈ names, IsSegment s := by
  have hne : names ≠ [] := List.ne_nil_of_length_pos (Nat.lt_of_lt_of_le Nat.zero_lt_two hl)
  constructor
  · intro h
    rcases (normalizeLocal_eq_self_iff.1 h).named with htop | hnames
    · -- a single empty name would be the top
      have hpieces := congrArg (Text.pieces '/') htop
      rw [pieces_spelled hs] at hpieces
      have hempty : names = [""] := (List.cons.inj hpieces).2
      rw [hempty] at hl
      exact absurd hl (by decide)
    · rwa [pieces_spelled hs, List.tail_cons] at hnames
  · intro h
    rw [normalizeLocal_spelled h, rooted_eq_spelled hne]

theorem stripExtension_spelled (hf : ∀ c ∈ (spelled front).toList, c ≠ '?' ∧ c ≠ '#')
    (hn : ∀ c ∈ name.toList, c ≠ '?' ∧ c ≠ '#') (hs : '/' ∉ name.toList) :
    stripExtension (spelled front ++ "/" ++ name) = spelled front ++ "/" ++ stripExtension name := by
  unfold stripExtension
  rw [Dialect.ofPath?_append hf]
  cases hc : Text.cutLast? (· = '.') name with
  | none =>
    have hname : Dialect.ofPath? name = none := by
      rw [Dialect.ofPath?, Text.before_eq_self fun c hc ↦ by simp [hn c hc],
        Text.afterLast_of_not_mem hs]
      simp only [hc]
      rfl
    rw [hname]
  | some parts =>
    obtain ⟨start, extension⟩ := parts
    obtain ⟨rfl, hdot⟩ := Text.cutLast?_eq_some.1 hc
    have hpath : Text.cutLast? (· = '.') (spelled front ++ "/" ++
        (start ++ String.singleton '.' ++ extension)) = some (spelled front ++ "/" ++ start, extension) := by
      rw [← Text.cutLast?_append hdot]
      simp only [String.append_assoc]
    rw [hpath]
    cases Dialect.ofPath? (start ++ String.singleton '.' ++ extension) with
    | none => rfl
    | some d => rfl

end Spelling

section Paths

variable {url : Url}

theorem exists_path_segments (h : Url.Path.IsRooted url.path.toList) :
    ∃ inner last, url.path = spelled inner ++ "/" ++ last ∧
      Text.pieces '/' url.path = "" :: (inner ++ [last]) ∧
      ∀ s ∈ inner ++ [last], s ≠ "." ∧ s ≠ ".." ∧ '/' ∉ s.toList := by
  obtain ⟨rest, hrest⟩ := h.top
  have hpath : url.path = "" ++ String.singleton '/' ++ .ofList rest := by
    rw [← String.toList_inj, hrest]
    simp
  obtain ⟨inner, last, hp⟩ := Text.exists_pieces '/' (.ofList rest)
  have hpieces : Text.pieces '/' url.path = "" :: (inner ++ [last]) := by
    rw [hpath, Text.pieces_append_sep, hp]
    rfl
  have hmem : ∀ s ∈ inner ++ [last], s ∈ Text.pieces '/' url.path := fun s hs ↦
    hpieces ▸ List.mem_cons_of_mem _ hs
  have hslash : ∀ s ∈ inner ++ [last], '/' ∉ s.toList := fun s hs ↦
    Text.not_mem_of_mem_pieces (hmem s hs)
  refine ⟨inner, last, ?_, hpieces, fun s hs ↦ ?_⟩
  · have hspelled : url.path = spelled (inner ++ [last]) := by
      refine Text.pieces_inj.1 (?_ : Text.pieces '/' _ = _)
      rw [hpieces, pieces_spelled hslash]
    rw [hspelled, spelled_concat]
  · obtain ⟨hdot, hdots⟩ := ne_dots_of_isRooted h (hmem s hs)
    exact ⟨hdot, hdots, hslash s hs⟩

theorem hostDirectory_ne_empty (h : url.IsWeb) : hostDirectory url ≠ "" := by
  obtain ⟨host, hh, hne⟩ := h.host
  rw [hostDirectory, hh]
  intro he
  have hs : sanitize host.text = "" := (String.append_eq_empty_iff.1 he).1
  rw [sanitize, String.ofList_eq_empty_iff, List.map_eq_nil_iff, String.toList_eq_nil_iff] at hs
  exact hne hs

theorem isSegment_hostDirectory_iff (h : url.IsWeb) :
    IsSegment (hostDirectory url) ↔ hostDirectory url ≠ "." ∧ hostDirectory url ≠ ".." := by
  refine ⟨fun hs ↦ ⟨hs.2.1, hs.2.2.1⟩, fun hs ↦ ?_⟩
  exact ⟨hostDirectory_ne_empty h, hs.1, hs.2, slash_not_mem_hostDirectory url⟩

theorem isSegment_append_queryEnding {name : String} (hn : '/' ∉ name.toList)
    (hq : queryEnding url ≠ "") : IsSegment (name ++ queryEnding url) := by
  have hat : '@' ∈ (name ++ queryEnding url).toList := by
    rw [String.toList_append]
    refine List.mem_append_right _ ?_
    rw [queryEnding] at hq ⊢
    cases hu : url.query.filter (· ≠ "") with
    | none => rw [hu] at hq; exact absurd rfl hq
    | some query =>
      rw [Option.elim, String.toList_append]
      exact List.mem_append_left _ (by decide)
  have hne : ∀ s : String, '@' ∉ s.toList → name ++ queryEnding url ≠ s := by
    rintro s hs rfl
    exact hs hat
  refine ⟨hne _ (by decide), hne _ (by decide), hne _ (by decide), ?_⟩
  rw [String.toList_append]
  exact fun hm ↦ (List.mem_append.1 hm).elim hn (slash_not_mem_queryEnding url)

theorem slash_not_mem_stripExtension {name : String} (h : '/' ∉ name.toList) :
    '/' ∉ (stripExtension name).toList := by
  obtain ⟨rest, hrest⟩ := exists_stripExtension name
  rw [hrest, String.toList_append] at h
  exact fun hm ↦ h (List.mem_append_left _ hm)

/-- The stem of a web address leads through the directory of its host and the segments of its path. -/
theorem exists_urlStem_spelled (h : Url.Path.IsRooted url.path.toList) :
    ∃ inner, inner = (Text.pieces '/' url.path).tail.dropLast ∧
      (∀ s ∈ inner, s ≠ "." ∧ s ≠ ".." ∧ '/' ∉ s.toList) ∧
      urlStem url = spelled ("-" :: hostDirectory url :: inner ++
        [stripExtension (fileName url) ++ queryEnding url]) := by
  obtain ⟨inner, last, hpath, hpieces, hall⟩ := exists_path_segments h
  have hlast := (hall last (List.mem_append_right _ List.mem_cons_self)).2.2
  have hname : Text.afterLast '/' url.path = last := by
    rw [hpath, afterLast_spelled inner hlast]
  have hfile : (if Text.endsWith url.path "/" then url.path ++ "index" else url.path) =
      spelled inner ++ "/" ++ fileName url := by
    rw [fileName, hname, hpath]
    by_cases he : last = ""
    · subst he
      rw [String.append_empty, if_pos]
      · rfl
      · rw [Text.endsWith, List.isSuffixOf_iff_suffix, String.toList_append]
        exact List.suffix_append _ _
    · rw [if_neg, if_neg he]
      intro hends
      have hsuffix := List.isSuffixOf_iff_suffix.1 hends
      rw [String.toList_append] at hsuffix
      have hin := List.suffix_of_suffix_length_le hsuffix (List.suffix_append _ _)
        (List.length_pos_iff.2 fun hnil ↦ he (String.toList_eq_nil_iff.1 hnil))
      exact hlast (hin.subset List.mem_cons_self)
  have hmarks : ∀ c ∈ url.path.toList, c ≠ '?' ∧ c ≠ '#' := by
    rintro c hc
    refine ⟨?_, ?_⟩
    · rintro rfl
      exact h.unmarked.1 hc
    · rintro rfl
      exact h.unmarked.2 hc
  have hinner : ∀ c ∈ (spelled inner).toList, c ≠ '?' ∧ c ≠ '#' := by
    intro c hc
    refine hmarks c ?_
    rw [hpath, String.toList_append, String.toList_append, List.append_assoc]
    exact List.mem_append_left _ hc
  have hfileMarks : ∀ c ∈ (fileName url).toList, c ≠ '?' ∧ c ≠ '#' := by
    rw [fileName, hname]
    split
    · simp
    · refine fun c hc ↦ hmarks c ?_
      rw [hpath, String.toList_append]
      exact List.mem_append_right _ hc
  refine ⟨inner, ?_, fun s hs ↦ hall s (List.mem_append_left _ hs), ?_⟩
  · rw [hpieces, List.tail_cons, List.dropLast_concat]
  · rw [urlStem_eq, hfile, stripExtension_spelled hinner hfileMarks (slash_not_mem_fileName url),
      spelled_append]
    simp only [spelled, String.append_assoc, String.append_empty]
    rfl

end Paths

theorem reached_of_normal {source stem ending : String} (hs : normalizeLocal source = source)
    (ht : normalizeLocal stem = stem) (hn : Text.afterLast '/' stem ≠ "") (he : '/' ∉ ending.toList) :
    resolveLocal (source ++ ending) (relativeSpecifier source stem ++ ".js") =
      Module.nameOf stem none := by
  have hroot : stem ≠ "/" := by
    rintro rfl
    exact hn (by decide)
  have hlast : IsSegment (Text.afterLast '/' stem ++ ".js") :=
    isSegment_append (Text.not_mem_afterLast '/' stem) (by decide) (by decide)
  have hleads : resolveLocal (spelled [] ++ source ++ ending) (relativeSpecifier source stem ++ ".js") =
      spelled [] ++ stem ++ ".js" :=
    resolveLocal_relativeSpecifier (fun _ hm ↦ (List.not_mem_nil hm).elim) hs ht (.inl hroot) he hlast
  rwa [spelled, String.empty_append, String.empty_append] at hleads

/-- The stem of a remote module names a file below the directory of its host just if the host is not one
dot or two, the path has no empty segment before its last, and the file has a name: if it has no query,
that is not all extension and not only dots before it. -/
theorem namesBelow_stem_iff {id : String} {url : Url} (hr : isRemote id = true)
    (hu : Url.parse id = .ok url) :
    NamesBelow (vendorDirectory ++ "/" ++ hostDirectory url) (stem id) ↔
      (hostDirectory url ≠ "." ∧ hostDirectory url ≠ "..") ∧
      "" ∉ (Text.pieces '/' url.path).tail.dropLast ∧
      (queryEnding url = "" → stripExtension (fileName url) ∉ ["", ".", ".."]) := by
  obtain ⟨hweb, hrooted⟩ := Url.isWeb_of_parse hr hu
  obtain ⟨inner, hinner, hall, hspelled⟩ := exists_urlStem_spelled hrooted
  have hstem : stem id = urlStem url := by
    rw [stem, if_pos hr, remoteStem, hu]
  have hname : '/' ∉ (stripExtension (fileName url)).toList :=
    slash_not_mem_stripExtension (slash_not_mem_fileName url)
  have hlast : '/' ∉ (stripExtension (fileName url) ++ queryEnding url).toList := by
    rw [String.toList_append]
    exact fun hm ↦ (List.mem_append.1 hm).elim hname (slash_not_mem_queryEnding url)
  have hfile : IsSegment (stripExtension (fileName url) ++ queryEnding url) ↔
      (queryEnding url = "" → stripExtension (fileName url) ∉ ["", ".", ".."]) := by
    by_cases hq : queryEnding url = ""
    · rw [hq, String.append_empty]
      simp [IsSegment, hname]
    · exact iff_of_true (isSegment_append_queryEnding hname hq) fun he ↦ absurd he hq
  have hdown : (∀ s ∈ inner, IsSegment s) ↔ "" ∉ inner := by
    refine ⟨fun h hm ↦ (h _ hm).1 rfl, fun h s hs ↦ ?_⟩
    obtain ⟨hdot, hup, hslash⟩ := hall s hs
    exact ⟨fun he ↦ h (he ▸ hs), hdot, hup, hslash⟩
  have hnormal : normalizeLocal (stem id) = stem id ↔
      (hostDirectory url ≠ "." ∧ hostDirectory url ≠ "..") ∧ "" ∉ inner ∧
        (queryEnding url = "" → stripExtension (fileName url) ∉ ["", ".", ".."]) := by
    have hvendor : IsSegment "-" := ⟨by decide, by decide, by decide, by decide⟩
    rw [hstem, hspelled, normalizeLocal_spelled_iff (by simp), List.cons_append, List.cons_append,
      List.forall_mem_cons, List.forall_mem_cons, List.forall_mem_append, List.forall_mem_singleton,
      isSegment_hostDirectory_iff hweb, hdown, hfile]
    · exact and_iff_right hvendor
    · rw [List.cons_append, List.cons_append, List.forall_mem_cons, List.forall_mem_cons,
        List.forall_mem_append, List.forall_mem_singleton]
      exact ⟨hvendor.2.2.2, slash_not_mem_hostDirectory url, fun s hs ↦ (hall s hs).2.2, hlast⟩
  rw [← hinner, ← hnormal]
  refine ⟨fun h ↦ h.normal, fun h ↦ ?_⟩
  have hnamed : Text.afterLast '/' (stem id) ≠ "" := by
    have hends : stem id = spelled ("-" :: hostDirectory url :: inner) ++ "/" ++
        (stripExtension (fileName url) ++ queryEnding url) := by
      rw [hstem, hspelled, spelled_concat]
    rw [hends, afterLast_spelled _ hlast]
    exact (hfile.2 (hnormal.1 h).2.2).1
  refine ⟨h, ?_, hnamed, fun source ending hs he ↦ reached_of_normal hs h hnamed he⟩
  obtain ⟨after, hafter⟩ : ∃ after, spelled (inner ++
      [stripExtension (fileName url) ++ queryEnding url]) = "/" ++ after := by
    cases inner with
    | nil => exact ⟨_, String.append_assoc ..⟩
    | cons s inner => exact ⟨_, by rw [List.cons_append, spelled, String.append_assoc]⟩
  refine Text.startsWith_iff.2 ⟨after, ?_⟩
  rw [hstem, hspelled, List.cons_append, List.cons_append, spelled, spelled, hafter]
  simp only [String.append_assoc]
  rfl

/-- A path with an empty segment. -/
theorem not_namesBelow_stem_doubled : isRemote "http://[::1]/a//b.js" = true ∧
    ¬ NamesBelow "/-/___1_" (stem "http://[::1]/a//b.js") := by
  have hr : isRemote "http://[::1]/a//b.js" = true := by decide
  have hu : Url.parse "http://[::1]/a//b.js" = .ok ⟨"http",
      some ⟨"", some (.ipv6 [0, 0, 0, 0, 0, 0, 0, 1]), none⟩, "/a//b.js", none, none⟩ := by rfl
  exact ⟨hr, fun h ↦ absurd ((namesBelow_stem_iff hr hu).1 h).2.1 (by decide)⟩

end SiteCompiler.ModuleId
