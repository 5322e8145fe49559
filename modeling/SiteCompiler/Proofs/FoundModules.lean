import SiteCompiler.Proofs.SourceTree

namespace SiteCompiler

/-- A name with a character before which extensions are looked for. -/
def Text.isMarked (s : String) : Bool :=
  s.toList.any fun c => c = '?' || c = '#'

namespace Dialect

open ModuleId (spelled)

variable {name : String}

theorem ofPath?_spelled_of_isMarked (hm : Text.isMarked name = true)
    (names : List String) : ofPath? (spelled (name :: names)) = ofPath? name := by
  have hstop : ∀ rest, Text.before (fun c ↦ c = '?' || c = '#') (name ++ rest) =
      Text.before (fun c ↦ c = '?' || c = '#') name := by
    intro rest
    rw [Text.before, Text.before, String.toList_append, List.takeWhile_append, if_neg]
    intro hlength
    have hall := List.takeWhile_eq_self_iff.1 ((List.takeWhile_sublist _).eq_of_length hlength)
    obtain ⟨c, hc, hmark⟩ := List.any_eq_true.1 hm
    have hplain := hall c hc
    rw [hmark] at hplain
    cases hplain
  have hslash : ∀ c ∈ "/".toList, (decide (c = '?') || decide (c = '#')) = false := by
    intro c hc
    obtain rfl := List.mem_singleton.1 hc
    decide
  have hbefore : Text.before (fun c ↦ c = '?' || c = '#') (spelled (name :: names)) =
      "" ++ String.singleton '/' ++ Text.before (fun c ↦ c = '?' || c = '#') name := by
    rw [spelled, String.append_assoc, Text.before_append hslash, hstop]
    rfl
  rw [ofPath?, hbefore, Text.afterLast_append_sep, ofPath?]

/-- The dialect of a path is told by the first of its names that has a mark, else by the last. -/
theorem ofPath?_spelled (names : List String) :
    ofPath? (spelled names) = ((names.find? Text.isMarked).or names.getLast?).bind ofPath? := by
  induction names with
  | nil => rfl
  | cons name names ih =>
    by_cases hm : Text.isMarked name = true
    · rw [ofPath?_spelled_of_isMarked hm, List.find?_cons_of_pos hm,
        Option.some_or, Option.bind_some]
    · have hplain : ∀ c ∈ ("/" ++ name).toList, c ≠ '?' ∧ c ≠ '#' := by
        intro c hc
        rw [String.toList_append] at hc
        rcases List.mem_append.1 hc with hc | hc
        · obtain rfl := List.mem_singleton.1 hc
          exact ⟨by decide, by decide⟩
        · rw [Text.isMarked, List.any_eq_true] at hm
          refine ⟨fun he ↦ hm ⟨c, hc, ?_⟩, fun he ↦ hm ⟨c, hc, ?_⟩⟩
          · simp [he]
          · simp [he]
      have hempty : ∀ c ∈ "".toList, c ≠ '?' ∧ c ≠ '#' := fun _ hc ↦ (List.not_mem_nil hc).elim
      rw [List.find?_cons_of_neg hm]
      cases names with
      | nil =>
        have hname := ofPath?_append hempty name
        rw [String.empty_append] at hname
        rw [spelled, spelled, String.append_empty, hname, List.find?_nil, Option.none_or,
          List.getLast?_singleton, Option.bind_some]
      | cons next names =>
        have hnext : spelled (next :: names) = "" ++ "/" ++ (next ++ spelled names) := by
          rw [spelled, String.empty_append, String.append_assoc]
        have hsplit : spelled (name :: next :: names) =
            "/" ++ name ++ "/" ++ (next ++ spelled names) := by
          rw [spelled, spelled]
          simp only [String.append_assoc]
        rw [hsplit, ofPath?_append hplain, ← ofPath?_append hempty, ← hnext, ih,
          List.getLast?_cons_cons]

end Dialect

namespace Discovery

open ModuleId (IsSegment rooted)
open Source (Folder)

variable {d : Disk} {f : Folder} {base : Disk.Place} {id : String} {names : List String}

/-- A module that is found is read from the file that was found, under the id that it was found under,
and routed if it is a page. -/
structure Agrees (f : Folder) (d : Disk) (base : Disk.Place) (id : String) : Prop where
  canonical : f.canonicalId? d id = some id
  loads : ∃ path content, f.path? d id = some path ∧
    d.entry? (base ++ Text.segments id) = some (.file content) ∧ d.readBytes path = .ok content
  routed : Text.startsWith id "/pages/" = true → (PageTable.pageRoute? id).isSome = true

/-- The path to the file of an id is not too long to be followed. -/
structure Follows (f : Folder) (id : String) : Prop where
  path : Disk.checkPath (f.basePath id) = .ok ()
  names : ∀ s ∈ Text.segments id, s.utf8ByteSize ≤ Disk.maxName

theorem not_mem_candidateNames (names : List String) : names ∉ Folder.candidateNames names := by
  intro hm
  rcases List.mem_append.1 hm with hm | hm
  · obtain ⟨dialect, -, he⟩ := List.mem_map.1 hm
    have hlength := congrArg String.length (congrArg rooted he)
    rw [Folder.rooted_extended, String.length_append, Nat.add_eq_left] at hlength
    cases dialect <;> exact absurd hlength (by decide)
  · obtain ⟨dialect, -, he⟩ := List.mem_map.1 hm
    have hlength := congrArg List.length he
    rw [List.length_append, List.length_singleton] at hlength
    omega

theorem isSome_of_canonicalId? (hs : ∀ s ∈ names, IsSegment s)
    (h : f.canonicalId? d (rooted names) = some (rooted names)) :
    (Dialect.ofPath? (rooted names)).isSome = true ∧ d.isFile (f.basePath (rooted names)) = true := by
  rw [f.canonicalId?_rooted d hs, Option.map_eq_some_iff] at h
  obtain ⟨found, hfound, he⟩ := h
  obtain ⟨-, hs', hfile⟩ := Folder.isFile_of_namesOf? hs hfound
  have hnames : found = names := by
    rw [← PageTable.segments_rooted hs', he, PageTable.segments_rooted hs]
  subst hnames
  refine ⟨?_, hfile⟩
  rw [Folder.namesOf?] at hfound
  split at hfound
  · next hx => exact hx
  · exact absurd (List.mem_of_find?_eq_some hfound) (not_mem_candidateNames found)

theorem isSome_pageRoute? (rest : String) :
    (PageTable.pageRoute? ("/pages/" ++ rest)).isSome = (Dialect.ofPath? ("/pages/" ++ rest)).isSome := by
  have hplain : ∀ c ∈ "/pages".toList, c ≠ '?' ∧ c ≠ '#' := by simp
  have hpath : Dialect.ofPath? ("/pages/" ++ rest) = Dialect.ofPath? rest :=
    Dialect.ofPath?_append hplain rest
  rw [hpath, PageTable.pageRoute?, Text.dropStart?_append]
  cases hd : Dialect.ofPath? rest with
  | none => simp only [Option.bind_eq_bind, Option.bind_some, hd, Option.bind_none, Option.isSome_none]
  | some dialect => simp only [Option.bind_eq_bind, Option.bind_some, hd, Option.pure_def, Option.isSome_some]

/-- A module that is found is read and routed as found just if its path can be followed and the first of
its names that has a question mark or a number sign, if there is one, has an extension before it. -/
theorem agrees_iff (ht : d.Tidy) (hs : d.Opens f.directory base) (hid : id ∈ modules d f.directory) :
    Agrees f d base id ↔ Follows f id ∧
      ∀ s, (Text.segments id).find? Text.isMarked = some s → (Dialect.ofPath? s).isSome = true := by
  obtain ⟨name, hname, -, names, hne, ⟨content, hentry⟩, hmodule, rfl⟩ := (mem_modules ht hs).1 hid
  have hdirectory := isName_directory hname
  have hall : ∀ s ∈ name :: names, IsSegment s := fun s hm ↦
    ht.isSegment hentry s (List.mem_append_right _ hm)
  have hsegments := PageTable.segments_rooted hall
  have hdialect : (Dialect.ofPath? (rooted (name :: names))).isSome = true ↔
      ∀ s, (Text.segments (rooted (name :: names))).find? Text.isMarked = some s →
        (Dialect.ofPath? s).isSome = true := by
    have hlast : (names.getLast?.bind Dialect.ofPath?).isSome = true := (Bool.and_eq_true _ _ ▸ hmodule).2
    rw [hsegments, ModuleId.rooted_eq_spelled (List.cons_ne_nil name names), Dialect.ofPath?_spelled]
    cases (name :: names).find? Text.isMarked with
    | none =>
      rw [Option.none_or, List.getLast?_cons_of_ne_nil hne]
      exact iff_of_true hlast fun s h ↦ by cases h
    | some s =>
      rw [Option.some_or, Option.bind_some]
      exact ⟨fun h s' he ↦ Option.some.inj he ▸ h, fun h ↦ h s rfl⟩
  have hfile : (∃ content, d.find? (f.basePath (rooted (name :: names))) = some (.file content)) ↔
      Follows f (rooted (name :: names)) := by
    have hiff := fun content' ↦
      @Folder.find?_basePath_eq_some f d (name :: names) base content' ht hs (List.cons_ne_nil _ _) hall
    refine ⟨fun ⟨content', hfind⟩ ↦ ?_, fun h ↦ ⟨content, (hiff content).2 ⟨h.path, ?_, hentry⟩⟩⟩
    · obtain ⟨hcheck, hsize, -⟩ := (hiff content').1 hfind
      exact ⟨hcheck, hsegments.symm ▸ hsize⟩
    · exact hsegments ▸ h.names
  rw [← hdialect, ← hfile]
  constructor
  · intro h
    obtain ⟨hx, hisFile⟩ := isSome_of_canonicalId? hall h.canonical
    exact ⟨Disk.isFile_iff.1 hisFile, hx⟩
  · rintro ⟨⟨content', hfind⟩, hx⟩
    have hnames : f.namesOf? d (name :: names) = some (name :: names) := by
      rw [Folder.namesOf?, if_pos hx, if_pos (Disk.isFile_iff.2 ⟨content', hfind⟩)]
    refine ⟨by rw [f.canonicalId?_rooted d hall, hnames]; rfl,
      ⟨f.basePath (rooted (name :: names)), content', ?_, ?_, ?_⟩, ?_⟩
    · rw [f.path?_rooted d hall, hnames]
      rfl
    · rw [hsegments]
      exact ((Folder.find?_basePath_eq_some ht hs (List.cons_ne_nil _ _) hall).1 hfind).2.2
    · exact Disk.readBytes_of_find? hfind
    · intro hpage
      obtain ⟨rest, hrest⟩ := Text.startsWith_iff.1 hpage
      rw [hrest] at hx ⊢
      rw [isSome_pageRoute?]
      exact hx

def markedDisk : Disk where
  workingDirectory := []
  entries := [(["s"], .directory), (["s", "pages"], .directory), (["s", "pages", "a#b"], .directory),
    (["s", "pages", "a#b", "x.js"], .file "".toUTF8)]

theorem not_agrees_markedDisk : markedDisk.Tidy ∧ markedDisk.Opens "/s" ["s"] ∧
    "/pages/a#b/x.js" ∈ modules markedDisk "/s" ∧
      ¬ Agrees ⟨"/s", 1000⟩ markedDisk ["s"] "/pages/a#b/x.js" := by
  have ht : markedDisk.Tidy :=
    ⟨by unfold IsSegment; decide +kernel, by decide +kernel, by decide +kernel⟩
  have hs : markedDisk.Opens "/s" ["s"] := ⟨rfl, rfl⟩
  have hid : "/pages/a#b/x.js" ∈ modules markedDisk "/s" := (mem_modules ht hs).2
    ⟨"pages", by decide, rfl, ["a#b", "x.js"], by decide, ⟨_, rfl⟩, by decide, rfl⟩
  have hfirst : (Text.segments "/pages/a#b/x.js").find? Text.isMarked = some "a#b" := by decide
  refine ⟨ht, hs, hid, fun h ↦ ?_⟩
  exact absurd (((agrees_iff (f := ⟨"/s", 1000⟩) ht hs hid).1 h).2 "a#b" hfirst) (by decide)

end Discovery
end SiteCompiler
