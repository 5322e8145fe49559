import SiteCompiler.Proofs.DiskTree
import SiteCompiler.Proofs.LocalPath
import SiteCompiler.Proofs.PageTable

namespace SiteCompiler

open ModuleId (IsSegment rooted)

namespace Disk

variable {d : Disk} {p : Place} {path name : String}

structure Opens (d : Disk) (path : String) (p : Place) : Prop where
  locate : d.locate path = .ok p
  directory : d.entry? p = some .directory

def HasFile (d : Disk) (p : Place) : Prop :=
  ∃ content, d.entry? p = some (.file content)

theorem start_append_sep (d : Disk) (base name : String) :
    d.start (base ++ "/" ++ name) = ((d.start base).1, (d.start base).2 ++ Text.pieces '/' name) := by
  have hpieces : Text.pieces '/' (base ++ "/" ++ name) = Text.pieces '/' base ++ Text.pieces '/' name :=
    Text.pieces_append_sep '/' base name
  obtain ⟨first, rest, hbase⟩ := List.exists_cons_of_ne_nil (Text.pieces_ne_nil '/' base)
  rw [start, start, hpieces, hbase, List.cons_append]
  by_cases hf : first = ""
  · subst hf
    rfl
  · split
    · next he => exact absurd (List.cons.inj he).1 hf
    · split
      · next he => exact absurd (List.cons.inj he).1 hf
      · rfl

section Joining

variable {base : String} {names : List String}

theorem trimStart_of_relative (h : FilePath.isAbsolute name = false) :
    Text.trimStart (· = '/') name = name := by
  rw [FilePath.isAbsolute, Text.startsWith, show "/".toList = ['/'] from rfl] at h
  rw [Text.trimStart]
  refine Eq.trans (congrArg String.ofList ?_) (String.ofList_toList (s := name))
  cases hc : name.toList with
  | nil => rfl
  | cons c cs =>
    rw [hc, List.isPrefixOf_cons_cons, List.isPrefixOf_nil_left, Bool.and_true] at h
    rw [List.dropWhile_cons_of_neg]
    exact fun he ↦ beq_eq_false_iff_ne.1 h (of_decide_eq_true he).symm

theorem placeOf_join (h : FilePath.isAbsolute name = false) (w : Place) (base : String) :
    placeOf w (FilePath.join base name) = placeOf (placeOf w base) name := by
  have hpath := ArtifactStore.placeOf_path ⟨base⟩ w name
  rw [ArtifactStore.path, trimStart_of_relative h] at hpath
  rw [hpath, placeOf, placeOf, ← FilePath.isAbsolute, ← FilePath.isAbsolute, h]
  rfl

theorem isAbsolute_join (hb : base ≠ "") (h : FilePath.isAbsolute name = false) :
    FilePath.isAbsolute (FilePath.join base name) = FilePath.isAbsolute base := by
  obtain ⟨c, cs, hc⟩ := List.exists_cons_of_ne_nil (l := base.toList) fun he ↦
    hb (by rw [← String.ofList_toList (s := base), he])
  have hstart : ∀ rest, FilePath.isAbsolute (base ++ rest) = FilePath.isAbsolute base := by
    intro rest
    rw [FilePath.isAbsolute, FilePath.isAbsolute, Text.startsWith, Text.startsWith,
      String.toList_append, hc, show "/".toList = ['/'] from rfl, List.cons_append,
      List.isPrefixOf_cons_cons, List.isPrefixOf_cons_cons, List.isPrefixOf_nil_left,
      List.isPrefixOf_nil_left]
  rw [FilePath.join, h, decide_eq_false hb, Bool.or_false, if_neg Bool.false_ne_true]
  split
  · exact hstart name
  · rw [String.append_assoc, hstart]

theorem placeOf_names (h : ∀ s ∈ names, IsSegment s) (hne : names ≠ []) (w : Place) :
    placeOf w ("/".intercalate names) = w ++ names ∧
      FilePath.isAbsolute ("/".intercalate names) = false := by
  have hpieces : Text.pieces '/' ("/".intercalate names) = names :=
    Text.pieces_intercalate hne fun s hs ↦ (h s hs).2.2.2
  obtain ⟨first, rest, rfl⟩ := List.exists_cons_of_ne_nil hne
  have hfirst := (h first List.mem_cons_self).1
  have hrelative : FilePath.isAbsolute ("/".intercalate (first :: rest)) = false := by
    rw [FilePath.isAbsolute, toList_pieces_head hpieces, decide_eq_false hfirst]
    intro he
    rw [he, Text.pieces_empty] at hpieces
    exact hfirst (List.cons.inj hpieces).1.symm
  refine ⟨?_, hrelative⟩
  rw [placeOf, ← FilePath.isAbsolute, hrelative, hpieces, if_neg Bool.false_ne_true,
    ModuleId.foldl_lexicalStep_segments h]

end Joining

theorem Opens.start_join (h : d.Opens path p) (hr : FilePath.isAbsolute name = false) :
    ∃ front, d.start (FilePath.join path name) =
      ((d.start path).1, front ++ Text.pieces '/' name) ∧
        front.foldlM d.step (d.start path).1 = .ok p := by
  obtain ⟨hl, hd⟩ := h
  rw [Disk.locate] at hl
  split at hl
  · cases hl
  · next hne =>
    rw [FilePath.join, hr, decide_eq_false hne, Bool.or_false, if_neg Bool.false_ne_true]
    cases hc : checkPath path with
    | error cause => rw [hc] at hl; cases hl
    | ok _ =>
      rw [hc] at hl
      change (d.start path).2.foldlM d.step (d.start path).1 = .ok p at hl
      split
      · next hend =>
        obtain ⟨front, hfront⟩ := List.isSuffixOf_iff_suffix.1 hend
        have hpath : path = String.ofList front ++ "/" ++ "" := by
          rw [String.append_empty, ← String.toList_inj, String.toList_append, String.toList_ofList,
            hfront]
        have hpath' : path ++ name = String.ofList front ++ "/" ++ name := by
          rw [hpath, String.append_empty]
        rw [hpath']
        rw [hpath, start_append_sep] at hl ⊢
        rw [start_append_sep]
        refine ⟨_, rfl, ?_⟩
        rw [Text.pieces_empty, List.foldlM_append] at hl
        cases hf : (d.start (String.ofList front)).2.foldlM d.step
          (d.start (String.ofList front)).1 with
        | error cause => rw [hf] at hl; cases hl
        | ok q =>
          rw [hf] at hl
          simp only [bind, Except.bind, List.foldlM_cons, List.foldlM_nil] at hl
          cases hs : d.step q "" with
          | error cause => rw [hs] at hl; cases hl
          | ok next =>
            rw [hs] at hl
            obtain rfl := Except.ok.inj hl
            rw [(step_eq_ok hs).2]
            rfl
      · exact ⟨_, by rw [start_append_sep], hl⟩

theorem Opens.locate_join (h : d.Opens path p) (hn : IsName name) :
    d.locate (FilePath.join path name) =
      (checkPath (FilePath.join path name)).map fun _ ↦ p ++ [name] := by
  have hrelative : FilePath.isAbsolute name = false := by
    refine Bool.eq_false_iff.2 fun ha ↦ hn.slash ?_
    obtain ⟨rest, hr⟩ := List.isPrefixOf_iff_prefix.1 ha
    exact hr ▸ List.mem_cons_self
  obtain ⟨front, hstart, hfold⟩ := h.start_join hrelative
  rw [Text.pieces_of_not_mem hn.slash] at hstart
  have hne : FilePath.join path name ≠ "" := by
    intro he
    have hpieces := congrArg Prod.snd hstart
    rw [he] at hpieces
    exact List.append_ne_nil_of_right_ne_nil front (List.cons_ne_nil name []) hpieces.symm
  rw [Disk.locate, if_neg hne, hstart]
  cases checkPath (FilePath.join path name) with
  | error cause => rfl
  | ok _ =>
    simp only [bind, Except.bind, Except.map, List.foldlM_append, hfold, List.foldlM_cons,
      List.foldlM_nil, hn.step h.directory]
    rfl

theorem Opens.isFile_join (h : d.Opens path p) (hn : IsName name) :
    d.isFile (FilePath.join path name) = true ↔
      checkPath (FilePath.join path name) = .ok () ∧ d.HasFile (p ++ [name]) := by
  rw [isFile, find?, h.locate_join hn]
  cases checkPath (FilePath.join path name) with
  | error cause => exact iff_of_false Bool.false_ne_true fun h ↦ by cases h.1
  | ok _ =>
    simp only [Except.map, HasFile, true_and]
    cases d.entry? (p ++ [name]) with
    | none => simp
    | some e => cases e <;> simp

theorem Tidy.mem_filesBelow (h : d.Tidy) {names : List String} {content : ByteArray} :
    (names, content) ∈ d.filesBelow p ↔
      names ≠ [] ∧ d.entry? (p ++ names) = some (.file content) := by
  rw [filesBelow, (List.mergeSort_perm _ _).mem_iff, List.mem_filterMap]
  constructor
  · rintro ⟨⟨place, e⟩, hm, he⟩
    dsimp only at he
    split at he
    · next name rest content' hp =>
      obtain ⟨rfl, rfl⟩ := Prod.mk.inj (Option.some_inj.1 he)
      obtain rfl := (List.isPrefixOf?_eq_some_iff_append_eq.1 hp).symm
      exact ⟨List.cons_ne_nil _ _, h.entry?_of_mem (by simp) hm⟩
    · cases he
  · rintro ⟨hne, he⟩
    refine ⟨_, mem_entries (by simp [hne]) he, ?_⟩
    obtain ⟨name, rest, rfl⟩ := List.exists_cons_of_ne_nil hne
    dsimp only
    rw [List.isPrefixOf?_eq_some_iff_append_eq.2 rfl]

end Disk

namespace ModuleId

theorem rooted_cons (name : String) {names : List String} (h : names ≠ []) :
    rooted (name :: names) = "/" ++ name ++ "/" ++ "/".intercalate names := by
  obtain ⟨second, rest, rfl⟩ := List.exists_cons_of_ne_nil h
  rw [rooted, String.intercalate_cons_cons]
  simp only [String.append_assoc]

end ModuleId

namespace Discovery

variable {d d' : Disk} {source name id : String} {base : Disk.Place} {names : List String}

theorem isName_directory (h : name ∈ moduleDirectories) : Disk.IsName name := by
  simp only [moduleDirectories, List.mem_cons, List.not_mem_nil, or_false] at h
  rcases h with rfl | rfl <;> exact ⟨by decide, by decide, by decide, by decide⟩

theorem isName_app (dialect : Dialect) : Disk.IsName ("app." ++ dialect.extension) := by
  cases dialect <;> exact ⟨by decide, by decide, by decide, by decide⟩

theorem mem_modulesIn (ht : d.Tidy) (hs : d.Opens source base) (hn : name ∈ moduleDirectories) :
    id ∈ modulesIn d source name ↔ Disk.checkPath (FilePath.join source name) = .ok () ∧
      ∃ names, names ≠ [] ∧ d.HasFile (base ++ name :: names) ∧ isModule names = true ∧
        id = rooted (name :: names) := by
  have hlocate := hs.locate_join (isName_directory hn)
  have hplace : ∀ names, base ++ [name] ++ names = base ++ name :: names := fun names ↦ by
    rw [List.append_assoc, List.singleton_append]
  rw [modulesIn]
  dsimp only
  rw [hlocate]
  cases hc : Disk.checkPath (FilePath.join source name) with
  | error cause => exact iff_of_false List.not_mem_nil fun h ↦ by cases h.1
  | ok _ =>
    rw [hc] at hlocate
    simp only [Except.map, true_and]
    constructor
    · intro h
      split at h
      · obtain ⟨⟨names, content⟩, hm, rfl⟩ := List.mem_map.1 h
        obtain ⟨hm, hmodule⟩ := List.mem_filter.1 hm
        obtain ⟨hne, he⟩ := ht.mem_filesBelow.1 hm
        exact ⟨names, hne, ⟨content, hplace names ▸ he⟩, hmodule, (ModuleId.rooted_cons name hne).symm⟩
      · exact (List.not_mem_nil h).elim
    · rintro ⟨names, hne, ⟨content, he⟩, hmodule, rfl⟩
      rw [← hplace] at he
      have hd : d.isDirectory (FilePath.join source name) = true := by
        rw [Disk.isDirectory, Disk.find?, hlocate]
        dsimp only [Except.map]
        rw [ht.directory hne he]
      rw [if_pos hd, ModuleId.rooted_cons name hne]
      exact List.mem_map.2 ⟨_, List.mem_filter.2 ⟨ht.mem_filesBelow.2 ⟨hne, he⟩, hmodule⟩, rfl⟩

/-- The modules of a source directory are its public files with the extension of a dialect. -/
theorem mem_modules (ht : d.Tidy) (hs : d.Opens source base) : id ∈ modules d source ↔
    ∃ name ∈ moduleDirectories, Disk.checkPath (FilePath.join source name) = .ok () ∧
      ∃ names, names ≠ [] ∧ d.HasFile (base ++ name :: names) ∧ isModule names = true ∧
        id = rooted (name :: names) := by
  rw [modules, (List.mergeSort_perm _ _).mem_iff, List.mem_flatMap]
  exact exists_congr fun name ↦ and_congr_right fun hn ↦ mem_modulesIn ht hs hn

theorem pairwise_modules (d : Disk) (source : String) :
    (modules d source).Pairwise fun a b ↦ a ≤ b := by
  have hsorted := @List.pairwise_mergeSort _ (fun a b : String ↦ decide (a ≤ b))
    (fun a b c hab hbc ↦ decide_eq_true ((of_decide_eq_true hab).trans (of_decide_eq_true hbc)))
    (fun a b ↦ by simpa using le_total a b)
    (moduleDirectories.flatMap (modulesIn d source))
  exact hsorted.imp of_decide_eq_true

theorem isPublic_of_mem (ht : d.Tidy) (hid : id ∈ modules d source) : PageTable.IsPublic id := by
  rw [modules, (List.mergeSort_perm _ _).mem_iff, List.mem_flatMap] at hid
  obtain ⟨name, hn, hid⟩ := hid
  have hsegment : IsSegment name ∧ isPrivate name = false := by
    simp only [moduleDirectories, List.mem_cons, List.not_mem_nil, or_false] at hn
    rcases hn with rfl | rfl <;> exact ⟨⟨by decide, by decide, by decide, by decide⟩, by decide⟩
  rw [modulesIn] at hid
  dsimp only at hid
  split at hid
  · exact (List.not_mem_nil hid).elim
  · split at hid
    · obtain ⟨⟨names, content⟩, hm, rfl⟩ := List.mem_map.1 hid
      obtain ⟨hm, hmodule⟩ := List.mem_filter.1 hm
      obtain ⟨hne, he⟩ := ht.mem_filesBelow.1 hm
      have hall : ∀ s ∈ name :: names, IsSegment s := List.forall_mem_cons.2
        ⟨hsegment.1, fun s hs ↦ ht.isSegment he s (List.mem_append_right _ hs)⟩
      dsimp only
      rw [← ModuleId.rooted_cons name hne]
      refine ⟨ModuleId.normalizeLocal_rooted hall, ?_⟩
      rw [PageTable.segments_rooted hall]
      refine List.forall_mem_cons.2 ⟨hsegment.2, fun s hs ↦ ?_⟩
      rw [isModule, Bool.and_eq_true, List.all_eq_true] at hmodule
      exact Bool.not_eq_true' _ ▸ hmodule.1 s hs
    · exact (List.not_mem_nil hid).elim

/-- The names that lead from a source directory to where a page or the application's module is looked
for. -/
def Scanned (names : List String) : Prop :=
  (∃ name ∈ moduleDirectories, ∃ rest, names = name :: rest ∧ rest ≠ [] ∧ isModule rest = true ∧
    (PageTable.pageRoute? (rooted names)).isSome) ∨
  ∃ dialect : Dialect, names = ["app." ++ dialect.extension]

/-- Where the same files are looked at, the same pages and the same module of the application are
found. -/
theorem scan_congr (ht : d.Tidy) (ht' : d'.Tidy) (hs : d.Opens source base)
    (hs' : d'.Opens source base)
    (h : ∀ names, Scanned names → (d'.HasFile (base ++ names) ↔ d.HasFile (base ++ names))) :
    PageTable.ofIds (modules d' source) = PageTable.ofIds (modules d source) ∧
      appModule? d' source = appModule? d source := by
  constructor
  · refine PageTable.ofIds_congr (pairwise_modules d' source) (pairwise_modules d source)
      fun id hid ↦ ?_
    rw [mem_modules ht' hs', mem_modules ht hs]
    refine exists_congr fun name ↦ and_congr_right fun hn ↦ and_congr_right fun _ ↦
      exists_congr fun names ↦ and_congr_right fun hne ↦ ?_
    have hscan : isModule names = true ∧ id = rooted (name :: names) →
        (d'.HasFile (base ++ name :: names) ↔ d.HasFile (base ++ name :: names)) := by
      rintro ⟨hmodule, rfl⟩
      exact h _ (.inl ⟨name, hn, names, rfl, hne, hmodule, hid⟩)
    exact and_congr_left hscan
  · have hfile : ∀ dialect : Dialect, d'.isFile (FilePath.join source ("app." ++ dialect.extension)) =
        d.isFile (FilePath.join source ("app." ++ dialect.extension)) := by
      intro dialect
      rw [Bool.eq_iff_iff, hs'.isFile_join (isName_app dialect), hs.isFile_join (isName_app dialect),
        h _ (.inr ⟨dialect, rfl⟩)]
    simp only [appModule?, List.findSome?_map, Function.comp_def, hfile]

end Discovery
end SiteCompiler
