import SiteCompiler.Linkage
import SiteCompiler.Proofs.ArtifactStore
import SiteCompiler.Proofs.Url.Parser
import SiteCompiler.Source

namespace SiteCompiler

namespace Text

theorem dropLast_pieces_prefix (sep : Char) (a b : String) :
    (pieces sep a).dropLast <+: pieces sep (a ++ b) := by
  have hlist : ∀ cs ds : List Char, ∃ x, (cs ++ ds).splitOn sep = (cs.splitOn sep).dropLast ++ x := by
    intro cs ds
    induction cs with
    | nil => exact ⟨ds.splitOn sep, rfl⟩
    | cons c cs ih =>
      obtain ⟨x, hx⟩ := ih
      obtain ⟨p, ps, hp⟩ := List.exists_cons_of_ne_nil (List.splitOn_ne_nil sep cs)
      rw [List.cons_append, List.splitOn_cons_eq_if_modifyHead, List.splitOn_cons_eq_if_modifyHead,
        hx, hp]
      by_cases hc : (c == sep) = true
      · rw [if_pos hc, if_pos hc]
        exact ⟨x, rfl⟩
      · rw [if_neg hc, if_neg hc]
        cases ps with
        | nil => exact ⟨_, rfl⟩
        | cons q qs => exact ⟨x, rfl⟩
  obtain ⟨x, hx⟩ := hlist a.toList b.toList
  exact ⟨x.map String.ofList, by
    rw [pieces, pieces, String.toList_append, hx, List.map_append, List.map_dropLast]⟩

end Text

theorem Dialect.ofPath?_append {a : String} (h : ∀ c ∈ a.toList, c ≠ '?' ∧ c ≠ '#') (b : String) :
    ofPath? (a ++ "/" ++ b) = ofPath? b := by
  have hplain : ∀ c ∈ (a ++ "/").toList, (decide (c = '?') || decide (c = '#')) = false := by
    intro c hc
    rw [String.toList_append] at hc
    rcases List.mem_append.1 hc with hc | hc
    · simp [h c hc]
    · obtain rfl := List.mem_singleton.1 hc
      decide
  rw [ofPath?, ofPath?, Text.before_append hplain]
  change (Text.cutLast? (· = '.') (Text.afterLast '/' (a ++ String.singleton '/' ++ _))).bind _ = _
  rw [Text.afterLast_append_sep]
  rfl

namespace ModuleId

open ArtifactStore (StaysBelow staysBelow_of_not_mem)

def Proper (id : String) : Prop :=
  isRemote id = true ∨ ".." ∉ Text.pieces '/' id

theorem exists_stripExtension (path : String) : ∃ rest, path = stripExtension path ++ rest := by
  unfold stripExtension
  split
  · next h =>
    obtain ⟨he, -⟩ := Text.cutLast?_eq_some.1 h
    exact ⟨_, he.trans (String.append_assoc ..)⟩
  · exact ⟨"", String.append_empty.symm⟩

theorem dots_not_mem_stripExtension {path : String} (h : ".." ∉ Text.pieces '/' path) :
    ".." ∉ (Text.pieces '/' (stripExtension path)).dropLast := by
  obtain ⟨rest, hr⟩ := exists_stripExtension path
  intro hm
  have hp := Text.dropLast_pieces_prefix '/' (stripExtension path) rest
  rw [← hr] at hp
  exact h (hp.subset hm)

theorem slash_not_mem_sanitize (s : String) : '/' ∉ (sanitize s).toList := by
  rw [sanitize, String.toList_ofList]
  intro hm
  obtain ⟨c, -, hc⟩ := List.mem_map.1 hm
  split at hc
  · next h =>
    subst hc
    exact absurd h (by decide)
  · exact absurd hc (by decide)

theorem ne_dots_of_isRooted {path s : String} (h : Url.Path.IsRooted path.toList)
    (hs : s ∈ Text.pieces '/' path) : s ≠ "." ∧ s ≠ ".." := by
  obtain ⟨l, hl, rfl⟩ := List.mem_map.1 hs
  obtain ⟨hdot, hdots⟩ := h.tidy l hl
  refine ⟨fun he ↦ hdot ?_, fun he ↦ hdots ?_⟩
  · rw [← String.toList_ofList (l := l), he]
    rfl
  · rw [← String.toList_ofList (l := l), he]
    rfl

theorem staysBelow_vendored {host : String} {rest : List String} (h : ".." ∉ rest) :
    StaysBelow ("" :: "-" :: host :: rest) := by
  intro base
  have hb : base <+: (["", "-", host].foldl Disk.lexicalStep base) := by
    simp only [List.foldl_cons, List.foldl_nil]
    have h1 : Disk.lexicalStep (Disk.lexicalStep base "") "-" = base ++ ["-"] := rfl
    rw [h1, Disk.lexicalStep]
    split
    · exact List.prefix_append _ _
    · split
      · simp only [List.dropLast_concat, List.prefix_refl]
      · rw [List.append_assoc]
        exact List.prefix_append _ _
  exact ArtifactStore.foldl_lexicalStep_prefix h hb

theorem staysBelow_vendoredStem {directory path ending : String} (hd : '/' ∉ directory.toList)
    (hp : ".." ∉ (Text.pieces '/' path).dropLast) (he : '/' ∉ ending.toList) :
    StaysBelow (Text.pieces '/'
      (vendorDirectory ++ "/" ++ directory ++ path ++ ending)).dropLast := by
  obtain ⟨front, last, hfront⟩ := Text.exists_pieces '/' path
  rw [hfront, List.dropLast_concat] at hp
  have hall : Text.pieces '/' (vendorDirectory ++ "/" ++ directory ++ path ++ ending) =
      "" :: "-" :: Text.pieces '/' (directory ++ (path ++ ending)) := by
    have hsplit : vendorDirectory ++ "/" ++ directory ++ path ++ ending =
        "/-" ++ String.singleton '/' ++ (directory ++ (path ++ ending)) := by
      simp only [String.append_assoc]
      rfl
    rw [hsplit, Text.pieces_append_sep]
    rfl
  have hpe := Text.pieces_append he hfront
  rw [hall]
  cases front with
  | nil =>
    rw [Text.pieces_prepend hd hpe]
    have hdots : ".." ∉ ["", "-"] := by decide
    exact staysBelow_of_not_mem hdots
  | cons first front =>
    rw [Text.pieces_prepend hd hpe]
    change StaysBelow (("" :: "-" :: (directory ++ first) :: front) ++ [last ++ ending]).dropLast
    rw [List.dropLast_concat]
    exact staysBelow_vendored fun hm ↦ hp (List.mem_cons_of_mem first hm)

theorem dots_not_mem_append {path ending : String} (h : ".." ∉ Text.pieces '/' path)
    (hs : '/' ∉ ending.toList) (hl : 3 ≤ ending.length) :
    ".." ∉ Text.pieces '/' (path ++ ending) := by
  obtain ⟨front, last, hp⟩ := Text.exists_pieces '/' path
  rw [hp] at h
  rw [Text.pieces_append hs hp]
  intro hm
  rcases List.mem_append.1 hm with hm | hm
  · exact h (List.mem_append_left _ hm)
  · have hn := congrArg String.length (List.mem_singleton.1 hm)
    rw [String.length_append, show "..".length = 2 from rfl] at hn
    omega

/-- The directory of the vendored modules of one host and port. -/
def hostDirectory (url : Url) : String :=
  sanitize ((url.host?.map Url.Host.text).getD "unknown") ++
    url.port?.elim "" fun n => "_" ++ .ofList (Nat.toDigits 10 n)

def queryEnding (url : Url) : String :=
  (url.query.filter (· ≠ "")).elim "" fun query => "@" ++ sanitize query

theorem urlStem_eq (url : Url) : urlStem url = vendorDirectory ++ "/" ++ hostDirectory url ++
    stripExtension (if Text.endsWith url.path "/" then url.path ++ "index" else url.path) ++
      queryEnding url := by
  have hquery : ∀ query : String, (if query = "" then "" else "@" ++ sanitize query) =
      ((some query).filter (· ≠ "")).elim "" fun query => "@" ++ sanitize query := by
    intro query
    by_cases hq : query = "" <;> simp [hq, Option.filter]
  rw [urlStem, hostDirectory, queryEnding]
  cases url.port? <;> cases url.query <;> simp only [String.append_assoc, Option.elim, hquery]
  all_goals rfl

theorem slash_not_mem_hostDirectory (url : Url) : '/' ∉ (hostDirectory url).toList := by
  rw [hostDirectory, String.toList_append]
  intro hm
  rcases List.mem_append.1 hm with hm | hm
  · exact slash_not_mem_sanitize _ hm
  · cases hp : url.port? with
    | none =>
      rw [hp] at hm
      exact absurd hm List.not_mem_nil
    | some n =>
      rw [hp, Option.elim, String.toList_append] at hm
      rcases List.mem_append.1 hm with hm | hm
      · exact absurd hm (by decide)
      · rw [String.toList_ofList] at hm
        have hd : Char.isDigit '/' :=
          Nat.isDigit_of_mem_toDigits (b := 10) (by decide) (by decide) hm
        exact absurd hd (by decide)

theorem slash_not_mem_queryEnding (url : Url) : '/' ∉ (queryEnding url).toList := by
  rw [queryEnding]
  cases url.query.filter (· ≠ "") with
  | none => exact List.not_mem_nil
  | some query =>
    rw [Option.elim, String.toList_append]
    intro hm
    rcases List.mem_append.1 hm with hm | hm
    · exact absurd hm (by decide)
    · exact slash_not_mem_sanitize query hm

theorem staysBelow_urlStem {url : Url} (h : Url.Path.IsRooted url.path.toList) :
    StaysBelow (Text.pieces '/' (urlStem url)).dropLast := by
  have hdots : ".." ∉ Text.pieces '/' url.path := fun hm ↦ (ne_dots_of_isRooted h hm).2 rfl
  rw [urlStem_eq]
  refine staysBelow_vendoredStem (slash_not_mem_hostDirectory url)
    (dots_not_mem_stripExtension ?_) (slash_not_mem_queryEnding url)
  split
  · exact dots_not_mem_append hdots (by decide) (by decide)
  · exact hdots

theorem staysBelow_stem {id : String} (h : Proper id) :
    StaysBelow (Text.pieces '/' (stem id)).dropLast := by
  rw [stem]
  split
  · next hr =>
    rw [remoteStem]
    cases hu : Url.parse id with
    | error cause =>
      have hempty : '/' ∉ "".toList := by decide
      have hdots : ".." ∉ (Text.pieces '/' "").dropLast := by decide
      have hs := staysBelow_vendoredStem (slash_not_mem_sanitize id) hdots hempty
      rwa [String.append_empty, String.append_empty] at hs
    | ok url => exact staysBelow_urlStem (Url.isWeb_of_parse hr hu).2
  · next hr =>
    rcases h with h | h
    · exact absurd h hr
    · exact staysBelow_of_not_mem (dots_not_mem_stripExtension h)

theorem startsWith_append {s start : String} (h : Text.startsWith s start = true) (rest : String) :
    Text.startsWith (s ++ rest) start = true := by
  rw [Text.startsWith, List.isPrefixOf_iff_prefix] at h ⊢
  rw [String.toList_append]
  exact h.trans (List.prefix_append _ _)

theorem startsWith_remoteStem (id : String) : Text.startsWith (remoteStem id) "/-/" = true := by
  rw [remoteStem]
  split
  · rw [urlStem_eq]
    have hstart : Text.startsWith (vendorDirectory ++ "/") "/-/" = true := rfl
    iterate 3 refine startsWith_append ?_ _
    exact hstart
  · exact startsWith_append rfl _

/-- What lies in the directory of remote modules lies there without what follows a dot. -/
theorem startsWith_of_dot {a b : String} (h : Text.startsWith (a ++ "." ++ b) "/-/" = true) :
    Text.startsWith a "/-/" = true := by
  rw [Text.startsWith, List.isPrefixOf_iff_prefix] at h ⊢
  have ha : a.toList ++ ['.'] <+: (a ++ "." ++ b).toList := by
    rw [String.toList_append, String.toList_append]
    exact List.prefix_append _ _
  rcases Nat.lt_or_ge a.toList.length 3 with hl | hl
  · have hdot := List.prefix_of_prefix_length_le ha h (by
      rw [List.length_append]
      exact hl)
    exact absurd (hdot.subset (List.mem_append_right _ List.mem_cons_self)) (by decide)
  · exact List.prefix_of_prefix_length_le h ((List.prefix_append _ _).trans ha) hl

end ModuleId
end SiteCompiler
