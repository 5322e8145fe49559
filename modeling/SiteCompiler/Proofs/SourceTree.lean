import SiteCompiler.Proofs.Discovery
import SiteCompiler.Proofs.Graph.ResolvedIds

namespace SiteCompiler

namespace Disk

open ModuleId (IsSegment)

variable {d d' : Disk} {p q : Place} {names : List String} {e : Entry} {path : String}
  {content : ByteArray} {acts : Action Unit → Prop}

theorem isFile_iff : d.isFile path = true ↔ ∃ content, d.find? path = some (.file content) := by
  rw [isFile]
  split
  · next content he => exact iff_of_true rfl ⟨content, he⟩
  · next he => exact iff_of_false Bool.false_ne_true (not_exists.2 he)

theorem readBytes_of_find? (h : d.find? path = some (.file content)) :
    d.readBytes path = .ok content := by
  rw [find?] at h
  split at h
  · next hl => exact readBytes_of_file hl h
  · cases h

theorem Through.tidy (h : Through acts d d') (ha : ∀ a, acts a → Tidies a) (hd : d.Tidy) :
    d'.Tidy := by
  induction h with
  | refl => exact hd
  | step _ act ih => exact ha _ act _ ih

theorem size_of_foldlM_step (hs : ∀ s ∈ names, IsSegment s) (h : names.foldlM d.step p = .ok q) :
    q = p ++ names ∧ ∀ s ∈ names, s.utf8ByteSize ≤ maxName := by
  refine ⟨(foldlM_step_eq_ok h).trans (ModuleId.foldl_lexicalStep_segments hs p), ?_⟩
  induction names generalizing p with
  | nil => exact fun s hm ↦ (List.not_mem_nil hm).elim
  | cons name names ih =>
    obtain ⟨hempty, hdot, hup, -⟩ := hs name List.mem_cons_self
    rw [List.foldlM_cons] at h
    cases hstep : d.step p name with
    | error cause => rw [hstep] at h; cases h
    | ok next =>
      rw [hstep] at h
      refine List.forall_mem_cons.2 ⟨?_, ih (fun s hm ↦ hs s (List.mem_cons_of_mem name hm)) h⟩
      rw [step, (step_eq_ok hstep).1] at hstep
      dsimp only at hstep
      rw [if_neg (not_or.2 ⟨hempty, hdot⟩), if_neg hup] at hstep
      refine Nat.not_lt.1 fun hlong ↦ ?_
      rw [if_pos hlong] at hstep
      cases hstep

theorem Tidy.foldlM_step (h : d.Tidy) (hs : ∀ s ∈ names, IsSegment s)
    (he : d.entry? (p ++ names) = some e) (hsize : ∀ s ∈ names, s.utf8ByteSize ≤ maxName) :
    names.foldlM d.step p = .ok (p ++ names) := by
  induction names generalizing p with
  | nil => rw [List.append_nil]; rfl
  | cons name names ih =>
    obtain ⟨hempty, hdot, hup, -⟩ := hs name List.mem_cons_self
    have hstep : d.step p name = .ok (p ++ [name]) := by
      rw [Disk.step, h.directory (List.cons_ne_nil name names) he]
      dsimp only
      rw [if_neg (not_or.2 ⟨hempty, hdot⟩), if_neg hup,
        if_neg (Nat.not_lt.2 (hsize name List.mem_cons_self))]
    rw [List.append_cons] at he ⊢
    rw [List.foldlM_cons, hstep]
    exact ih (fun s hm ↦ hs s (List.mem_cons_of_mem name hm)) he
      fun s hm ↦ hsize s (List.mem_cons_of_mem name hm)

end Disk

theorem ModuleId.exists_segments {id : String} (h : normalizeLocal id = id) :
    ∃ names, (∀ s ∈ names, IsSegment s) ∧ id = rooted names :=
  ⟨cleanSegments id, fun _ ↦ isSegment_of_mem_cleanSegments, h.symm⟩

def SourceError.unplaced : SourceError → SourceError
  | .tooLarge _ size limit => .tooLarge "" size limit
  | .file _ cause => .file "" cause
  | e => e

namespace Source.Folder

open ModuleId (IsSegment rooted cleanSegments normalizeLocal)

variable {f f' : Folder} {disk disk' : Disk} {names : List String}

def namesOf? (f : Folder) (disk : Disk) (names : List String) : Option (List String) :=
  if (Dialect.ofPath? (rooted names)).isSome then
    if disk.isFile (f.basePath (rooted names)) then some names else none
  else (candidateNames names).find? fun ns ↦ disk.isFile (f.basePath (rooted ns))

theorem path?_rooted (f : Folder) (disk : Disk) (h : ∀ s ∈ names, IsSegment s) :
    f.path? disk (rooted names) =
      (f.namesOf? disk names).map fun ns ↦ f.basePath (rooted ns) := by
  rw [path?, namesOf?]
  split
  · split <;> rfl
  · rw [f.candidates_basePath h, List.find?_map, Function.comp_def]

theorem ne_nil_of_isSome (h : (Dialect.ofPath? (rooted names)).isSome = true) : names ≠ [] := by
  rintro rfl
  exact absurd h (by decide)

theorem isFile_of_namesOf? {found : List String} (h : ∀ s ∈ names, IsSegment s)
    (hf : f.namesOf? disk names = some found) : found ≠ [] ∧ (∀ s ∈ found, IsSegment s) ∧
      disk.isFile (f.basePath (rooted found)) = true := by
  rw [namesOf?] at hf
  split at hf
  · next hx =>
    split at hf
    · next hfile =>
      obtain rfl := Option.some.inj hf
      exact ⟨ne_nil_of_isSome hx, h, hfile⟩
    · cases hf
  · obtain ⟨hne, hs⟩ := isSegment_of_mem_candidateNames h (List.mem_of_find?_eq_some hf)
    have hfile := List.find?_some hf
    exact ⟨hne, hs, hfile⟩

theorem canonicalId?_rooted (f : Folder) (disk : Disk) (h : ∀ s ∈ names, IsSegment s) :
    f.canonicalId? disk (rooted names) = (f.namesOf? disk names).map rooted := by
  rw [canonicalId?, f.path?_rooted disk h]
  cases hf : f.namesOf? disk names with
  | none => rfl
  | some found =>
    obtain ⟨hne, hs, -⟩ := isFile_of_namesOf? h hf
    have hb : FilePath.below? f.directory (f.basePath (rooted found)) =
        some (found.map .named) := by
      rw [FilePath.below?, f.components_basePath hs hne]
      exact List.isPrefixOf?_eq_some_iff_append_eq.2 rfl
    have htext : (found.map FilePath.Component.named).map componentText = found := by
      rw [List.map_map]
      exact List.map_id found
    change (FilePath.below? f.directory (f.basePath (rooted found))).bind _ = _
    rw [hb, Option.bind_some, htext]
    rfl

/-- A file below the directory is found along its names, unless these are too long or the path is. -/
theorem find?_basePath_eq_some {place : Disk.Place} {content : ByteArray} (hd : disk.Tidy)
    (ho : disk.Opens f.directory place) (hne : names ≠ []) (hs : ∀ s ∈ names, IsSegment s) :
    disk.find? (f.basePath (rooted names)) = some (.file content) ↔
      Disk.checkPath (f.basePath (rooted names)) = .ok () ∧
        (∀ s ∈ names, s.utf8ByteSize ≤ Disk.maxName) ∧
          disk.entry? (place ++ names) = some (.file content) := by
  obtain ⟨front, hstart, hfold⟩ := ho.start_join (Disk.placeOf_names hs hne place).2
  have hpieces : Text.pieces '/' ("/".intercalate names) = names :=
    Text.pieces_intercalate hne fun s hm ↦ (hs s hm).2.2.2
  rw [hpieces, ← trimStart_rooted hs] at hstart
  have hpath : f.basePath (rooted names) ≠ "" := by
    intro he
    have hnames := congrArg Prod.snd hstart
    rw [← basePath, he] at hnames
    exact List.append_ne_nil_of_right_ne_nil front hne hnames.symm
  rw [Disk.find?, Disk.locate, if_neg hpath, basePath, hstart]
  cases hc : Disk.checkPath (FilePath.join f.directory (Text.trimStart (· = '/') (rooted names))) with
  | error cause => exact iff_of_false (fun h ↦ by cases h) fun h ↦ by cases h.1
  | ok _ =>
    simp only [bind, Except.bind, List.foldlM_append, hfold]
    constructor
    · intro h
      split at h
      · next q hq =>
        obtain ⟨rfl, hsize⟩ := Disk.size_of_foldlM_step hs hq
        exact ⟨trivial, hsize, h⟩
      · cases h
    · rintro ⟨-, hsize, he⟩
      rw [hd.foldlM_step hs he hsize]
      exact he

/-- The same files lie along the same names below two source directories. -/
structure SameTree (f : Folder) (disk : Disk) (f' : Folder) (disk' : Disk) : Prop where
  maxSize : f'.maxSize = f.maxSize
  file : ∀ names, names ≠ [] → (∀ s ∈ names, IsSegment s) → ∀ content,
    disk'.find? (f'.basePath (rooted names)) = some (.file content) ↔
      disk.find? (f.basePath (rooted names)) = some (.file content)

/-- Directories with the same entries hold the same files, unless the paths to some are too long. -/
theorem SameTree.of_entries {place place' : Disk.Place} (hmax : f'.maxSize = f.maxSize)
    (hd : disk.Tidy) (hd' : disk'.Tidy) (ho : disk.Opens f.directory place)
    (ho' : disk'.Opens f'.directory place')
    (he : ∀ names content, disk'.entry? (place' ++ names) = some (.file content) ↔
      disk.entry? (place ++ names) = some (.file content))
    (hp : ∀ names content, disk.entry? (place ++ names) = some (.file content) →
      Disk.checkPath (f'.basePath (rooted names)) = Disk.checkPath (f.basePath (rooted names))) :
    SameTree f disk f' disk' := by
  refine ⟨hmax, fun names hne hs content ↦ ?_⟩
  rw [find?_basePath_eq_some hd ho hne hs, find?_basePath_eq_some hd' ho' hne hs, he]
  constructor
  · rintro ⟨hcheck, hsize, hentry⟩
    exact ⟨hp names content hentry ▸ hcheck, hsize, hentry⟩
  · rintro ⟨hcheck, hsize, hentry⟩
    exact ⟨(hp names content hentry).trans hcheck, hsize, hentry⟩

/-- The path of the directory has none of the characters in front of which extensions are looked
for. -/
def Plain (f : Folder) : Prop :=
  ∀ c ∈ f.directory.toList, c ≠ '?' ∧ c ≠ '#'

theorem Plain.ofPath?_basePath (hf : f.Plain) (h : ∀ s ∈ names, IsSegment s) :
    Dialect.ofPath? (f.basePath (rooted names)) = Dialect.ofPath? (rooted names) := by
  have hid : Dialect.ofPath? (rooted names) = Dialect.ofPath? ("/".intercalate names) :=
    Dialect.ofPath?_append (a := "") (fun _ hc ↦ absurd hc List.not_mem_nil) _
  rw [hid, basePath, trimStart_rooted h, FilePath.join]
  split
  · rfl
  · split
    · next hend =>
      obtain ⟨front, hfront⟩ := FilePath.pieces_of_endsWith hend
      rw [hfront]
      refine Dialect.ofPath?_append (fun c hc ↦ hf c ?_) _
      rw [hfront, String.toList_append]
      exact List.mem_append_left _ hc
    · exact Dialect.ofPath?_append hf _

namespace SameTree

variable {f'' : Folder} {disk'' : Disk}

theorem refl (f : Folder) (disk : Disk) : SameTree f disk f disk :=
  ⟨rfl, fun _ _ _ _ ↦ Iff.rfl⟩

theorem symm (h : SameTree f disk f' disk') : SameTree f' disk' f disk :=
  ⟨h.maxSize.symm, fun names hne hs content ↦ (h.file names hne hs content).symm⟩

theorem trans (h : SameTree f disk f' disk') (h' : SameTree f' disk' f'' disk'') :
    SameTree f disk f'' disk'' :=
  ⟨h'.maxSize.trans h.maxSize, fun names hne hs content ↦
    (h'.file names hne hs content).trans (h.file names hne hs content)⟩

theorem isFile (h : SameTree f disk f' disk') (hne : names ≠ []) (hs : ∀ s ∈ names, IsSegment s) :
    disk'.isFile (f'.basePath (rooted names)) = disk.isFile (f.basePath (rooted names)) := by
  rw [Bool.eq_iff_iff, Disk.isFile_iff, Disk.isFile_iff]
  exact exists_congr (h.file names hne hs)

theorem namesOf? (h : SameTree f disk f' disk') (hs : ∀ s ∈ names, IsSegment s) :
    f'.namesOf? disk' names = f.namesOf? disk names := by
  rw [Folder.namesOf?, Folder.namesOf?]
  split
  · next hx => rw [h.isFile (ne_nil_of_isSome hx) hs]
  · refine List.find?_congr fun ns hn ↦ ?_
    obtain ⟨hne, hs'⟩ := isSegment_of_mem_candidateNames hs hn
    exact h.isFile hne hs'

theorem canonicalId? (h : SameTree f disk f' disk') (path : String) :
    f'.canonicalId? disk' (normalizeLocal path) = f.canonicalId? disk (normalizeLocal path) := by
  have hs : ∀ s ∈ cleanSegments path, IsSegment s := fun _ ↦ ModuleId.isSegment_of_mem_cleanSegments
  rw [normalizeLocal, canonicalId?_rooted f' disk' hs, canonicalId?_rooted f disk hs, h.namesOf? hs]

theorem read_eq (h : SameTree f disk f disk') (hs : ∀ s ∈ names, IsSegment s) :
    f.read disk' (rooted names) = f.read disk (rooted names) := by
  unfold Folder.read
  rw [path?_rooted f disk' hs, path?_rooted f disk hs, h.namesOf? hs]
  cases hfound : f.namesOf? disk names with
  | none => rfl
  | some found =>
    obtain ⟨hne, hs', hfile⟩ := isFile_of_namesOf? hs hfound
    obtain ⟨content, hcontent⟩ := Disk.isFile_iff.1 hfile
    have hc := Disk.readBytes_of_find? hcontent
    have hc' := Disk.readBytes_of_find? ((h.file found hne hs' content).2 hcontent)
    simp only [Option.map_some, hc, hc']

theorem read (h : SameTree f disk f' disk') (hf : f.Plain) (hf' : f'.Plain)
    (hs : ∀ s ∈ names, IsSegment s) :
    (f'.read disk' (rooted names)).mapError SourceError.unplaced =
      (f.read disk (rooted names)).mapError SourceError.unplaced := by
  unfold Folder.read
  rw [path?_rooted f' disk' hs, path?_rooted f disk hs, h.namesOf? hs, h.maxSize]
  cases hfound : f.namesOf? disk names with
  | none => rfl
  | some found =>
    obtain ⟨hne, hs', hfile⟩ := isFile_of_namesOf? hs hfound
    obtain ⟨content, hcontent⟩ := Disk.isFile_iff.1 hfile
    have hc := Disk.readBytes_of_find? hcontent
    have hc' := Disk.readBytes_of_find? ((h.file found hne hs' content).2 hcontent)
    simp only [Option.map_some, hc, hc', hf.ofPath?_basePath hs', hf'.ofPath?_basePath hs']
    split
    · simp only [Except.mapError, SourceError.unplaced]
    · split <;> simp only [Except.mapError, SourceError.unplaced]

end SameTree
end Source.Folder

namespace Linkage

theorem target_congr {l l' : Linkage} (hi : l'.importer = l.importer)
    (hm : l'.importMap = l.importMap) (hc : l'.cacheDependencies = l.cacheDependencies)
    (hl : ∀ path, l'.locate? (ModuleId.normalizeLocal path) =
      l.locate? (ModuleId.normalizeLocal path)) (specifier : String) :
    l'.target specifier = l.target specifier := by
  have hremote : ∀ url, l'.remoteTarget url = l.remoteTarget url := fun url ↦ by
    rw [remoteTarget, remoteTarget, hc]
  have hlocal : ∀ path, l'.localTarget specifier (ModuleId.normalizeLocal path) =
      l.localTarget specifier (ModuleId.normalizeLocal path) := fun path ↦ by
    rw [localTarget, localTarget, hl]
  have hresolve : ∀ text, l'.localTarget specifier (ModuleId.resolveLocal l.importer text) =
      l.localTarget specifier (ModuleId.resolveLocal l.importer text) := fun text ↦ by
    rw [ModuleId.resolveLocal]
    split <;> exact hlocal _
  simp only [target, hi, hm, hremote, hlocal, hresolve]

end Linkage
end SiteCompiler
