import SiteCompiler.Proofs.Graph.Sources
import SiteCompiler.Proofs.LocalPath

namespace SiteCompiler

open Disk (Place placeOf lexicalStep)

namespace ModuleId

def NamesFile (id : String) : Prop :=
  isRemote id ∨ (Dialect.ofPath? id).isSome ∧ ∃ path, id = normalizeLocal path

theorem isRemote_slash (s : String) : isRemote ("/" ++ s) = false := by
  have hhead : ("/" ++ s).toList.head? = some '/' := by
    simp
  exact Bool.or_eq_false_iff.2 ⟨Text.startsWith_of_head? hhead (by decide : 'h' ≠ '/'),
    Text.startsWith_of_head? hhead (by decide : 'h' ≠ '/')⟩

end ModuleId

namespace Linkage

variable {l : Linkage} {specifier id : String}

theorem localTarget_of_target (h : l.target specifier = .ok (.localModule id)) :
    ∃ path, l.localTarget specifier (ModuleId.normalizeLocal path) = .localModule id := by
  obtain ⟨path, hpath, htarget⟩ := exists_localPath?_of_target h
  obtain ⟨text, rfl⟩ := normalizeLocal_of_localPath? hpath
  exact ⟨text, htarget⟩

theorem url_of_target (h : l.target specifier = .ok (.remoteModule id)) : ∃ text,
    (ModuleId.isRemote text = true ∧ ModuleId.normalizeRemote text = .ok id) ∨
    (ModuleId.isRemote l.importer = true ∧
      (Text.startsWith text "/" || ModuleId.isRelative text) = true ∧
      ModuleId.joinRemote l.importer text = .ok id) := by
  have hremote : ∀ {url}, Except.ok (l.remoteTarget url) =
      (.ok (.remoteModule id) : Except Linkage.Error Target) → url = id := by
    intro url he
    have he := Except.ok.inj he
    rw [remoteTarget] at he
    split at he
    · cases he
    · exact Target.remoteModule.inj he
  have hlocal : ∀ {path}, Except.ok (l.localTarget specifier path) ≠
      (.ok (.remoteModule id) : Except Linkage.Error Target) := by
    intro path he
    have he := Except.ok.inj he
    rw [localTarget] at he
    split at he
    · cases he
    · split at he <;> cases he
  rw [target] at h
  generalize l.importMap.resolve? specifier = mapped at h
  generalize mapped.getD specifier = text at h
  refine ⟨text, ?_⟩
  split at h
  · next hr =>
    split at h
    · next hn => exact .inl ⟨hr, hremote h ▸ hn⟩
    · cases h
  · split at h
    · next hi =>
      split at h
      · next hp =>
        split at h
        · next hj => exact .inr ⟨hi, hp, hremote h ▸ hj⟩
        · cases h
      · cases h
    · split at h
      · exact absurd h hlocal
      · split at h
        · exact absurd h hlocal
        · cases h

theorem isRemote_of_target (h : l.target specifier = .ok (.remoteModule id)) :
    ModuleId.isRemote id := by
  obtain ⟨text, ⟨hr, hn⟩ | ⟨hi, hp, hj⟩⟩ := url_of_target h
  · exact ModuleId.isRemote_of_normalizeRemote hr hn
  · exact ModuleId.isRemote_of_joinRemote hi hp hj

theorem namesFile_of_leads (h : ∀ locate?, (l.among locate?).Leads id) :
    ModuleId.NamesFile id := by
  -- among these files no path without extension leads to the module
  obtain ⟨specifier, h | h⟩ := h fun _ ↦ some (id ++ "/")
  · obtain ⟨path, hp⟩ := localTarget_of_target h
    rw [localTarget] at hp
    split at hp
    · cases hp
    · split at hp
      · have he : id ++ "/" = id := Target.localModule.inj hp
        have hl := congrArg String.length he
        rw [String.length_append, show "/".length = 1 from rfl] at hl
        omega
      · next hn =>
        obtain rfl := Target.localModule.inj hp
        rw [Bool.not_eq_true, Option.isNone_eq_false_iff] at hn
        exact .inr ⟨hn, path, rfl⟩
  · exact .inl (isRemote_of_target h)

end Linkage

namespace Source.Folder

theorem placeOf_basePath (f : Folder) (w : Place) {names : List String} (hn : names ≠ [])
    (h : ∀ s ∈ names, ModuleId.IsSegment s) :
    placeOf w (f.basePath (ModuleId.rooted names)) = placeOf w f.directory ++ names := by
  have hp := ArtifactStore.placeOf_path ⟨f.directory⟩ w (ModuleId.rooted names)
  rw [ModuleId.pieces_rooted hn h, List.foldl_cons] at hp
  exact hp.trans (ModuleId.foldl_lexicalStep_segments h _)

theorem read_eq_ok {f : Folder} {disk : Disk} {id : String} {s : Source} (h : f.read disk id = .ok s)
    (hid : (Dialect.ofPath? id).isSome) : s = ofText s.text ((Dialect.ofPath? (f.basePath id)).getD .js) ∧
      disk.isFile (f.basePath id) = true := by
  unfold read at h
  rw [path?, if_pos hid] at h
  by_cases hf : disk.isFile (f.basePath id) = true
  · rw [if_pos hf] at h
    dsimp only at h
    split at h
    · cases h
    · split at h
      · cases h
      · split at h
        · cases h
        · cases h
          exact ⟨rfl, hf⟩
  · rw [if_neg hf] at h
    cases h

theorem read_of_text {f : Folder} {disk : Disk} {id text : String} {place : Place}
    (hid : (Dialect.ofPath? id).isSome) (hl : disk.locate (f.basePath id) = .ok place)
    (he : disk.entry? place = some (.file text.toUTF8)) (hsize : text.toUTF8.size ≤ f.maxSize) :
    f.read disk id = .ok (ofText text ((Dialect.ofPath? (f.basePath id)).getD .js)) := by
  have hf : disk.isFile (f.basePath id) = true := by
    rw [Disk.isFile, Disk.find?, hl]
    dsimp only
    rw [he]
  unfold read
  rw [path?, if_pos hid, if_pos hf]
  dsimp only
  rw [Disk.readBytes_of_file hl he]
  dsimp only
  rw [if_neg (Nat.not_lt.2 hsize), Text.Utf8.decode?_toUTF8]

end Source.Folder

namespace Graph
namespace World

theorem mem_idsOfPlace {names : List String} (hn : names ≠ []) (front : Place) :
    ModuleId.rooted names ∈ idsOfPlace (front ++ names) := by
  induction front with
  | nil =>
    obtain ⟨name, rest, rfl⟩ := List.exists_cons_of_ne_nil hn
    exact List.mem_cons_self
  | cons name front ih => exact List.mem_cons_of_mem _ ih

def Listed (w : World) : Prop :=
  ∀ response, w.network.otherwise = .ok response → response.isSuccess = false

variable {w : World} {id : String} {s : Source}

theorem mem_knownIds_of_isFile {names : List String} (hn : names ≠ [])
    (hs : ∀ s ∈ names, ModuleId.IsSegment s)
    (hf : w.disk.isFile (w.graph.folder.basePath (ModuleId.rooted names)) = true) :
    ModuleId.rooted names ∈ w.knownIds := by
  obtain ⟨place, content, hlocate, hentry⟩ := Disk.exists_of_isFile hf
  have hplace := w.graph.folder.placeOf_basePath w.disk.workingDirectory hn hs
  rw [← Disk.locate_eq_ok hlocate] at hplace
  have hids : ModuleId.rooted names ∈ idsOfPlace place := by
    rw [hplace]
    exact mem_idsOfPlace hn _
  rw [knownIds]
  refine List.mem_append_left _ (List.mem_append_right _ ?_)
  exact List.mem_flatMap.2 ⟨_, Disk.mem_entries_of_file hentry, List.mem_append_left _ hids⟩

theorem mem_knownIds (hl : w.Listed) (hid : ModuleId.NamesFile id) (hs : w.source? id = some s) :
    id ∈ w.knownIds := by
  have hload := load_eq_ok hs
  rw [Source.load] at hload
  by_cases hr : ModuleId.isRemote id
  · rw [if_pos hr] at hload
    change (Source.ofAnswer id (w.network.answer id)).mapError _ = _ at hload
    refine List.mem_append_right _ ?_
    cases ha : w.network.answers.lookup id with
    | some answer =>
      obtain ⟨front, rest, he, -⟩ := List.lookup_eq_some_iff.1 ha
      rw [he]
      exact List.mem_map_of_mem (List.mem_append_right front List.mem_cons_self)
    | none =>
      rw [Network.answer, ha, Option.getD_none] at hload
      cases ho : w.network.otherwise with
      | error cause => rw [ho] at hload; cases hload
      | ok response =>
        rw [ho, Source.ofAnswer, hl response ho] at hload
        cases hload
  · rw [if_neg hr] at hload
    dsimp only at hload
    obtain ⟨hext, path, rfl⟩ := hid.resolve_left hr
    refine mem_knownIds_of_isFile (fun he ↦ ?_)
      (fun _ ↦ ModuleId.isSegment_of_mem_cleanSegments) (Source.Folder.read_eq_ok hload hext).2
    rw [ModuleId.normalizeLocal, he] at hext
    exact absurd hext (by decide)

end World

theorem entryId_eq_ok {w : World} {text id : String} (hid : normalizeId text = .ok id)
    (h : ModuleId.NamesFile id) : w.entryId text = .ok id := by
  have hb : (ModuleId.isRemote id || (Dialect.ofPath? id).isSome) = true :=
    Bool.or_eq_true_iff.2 (h.imp_right And.left)
  rw [World.entryId, hid]
  exact if_pos hb

theorem entryId_self {w : World} {id : String} (hl : ¬ModuleId.isRemote id)
    (h : ModuleId.NamesFile id) : w.entryId id = .ok id := by
  obtain ⟨-, path, hpath⟩ := h.resolve_left hl
  refine entryId_eq_ok ?_ h
  rw [normalizeId, if_neg hl, hpath, ModuleId.normalizeLocal_normalizeLocal]

theorem entryId_a (w : World) : w.entryId "a.js" = .ok "/a.js" :=
  entryId_eq_ok rfl (.inr ⟨rfl, "a.js", rfl⟩)

end Graph
end SiteCompiler
