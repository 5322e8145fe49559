import SiteCompiler.Proofs.Graph.Yields

namespace SiteCompiler.Graph

open Disk (Place placeOf)

deriving instance DecidableEq for Disk.Entry

inductive Event where
  | compile (id : String) (o : Options)
  | remove (id : String)
  | edit (disk : Disk) (network : Network)
  /-- A new graph takes the place of the old one. -/
  | restart (folder : Source.Folder) (settings : Settings)

namespace World

def react (w : World) : Event → World
  | .compile id o => (w.compile id o).2
  | .remove id => { w with graph := (w.graph.remove id).2 }
  | .edit disk network => { w with disk, network }
  | .restart folder settings => { w with graph := .new folder w.graph.store settings }

def storePlace (w : World) : Place :=
  placeOf w.disk.workingDirectory w.graph.store.root

def Admits (w : World) : Event → Prop
  | .edit disk _ => placeOf disk.workingDirectory w.graph.store.root = w.storePlace ∧
      ∀ place, w.storePlace <+: place → disk.entry? place = w.disk.entry? place
  | _ => True

theorem react_compile (w : World) (id : String) (o : Options) :
    w.react (.compile id o) = (w.compile id o).2 :=
  rfl

theorem admits_compile (w : World) (id : String) (o : Options) : w.Admits (.compile id o) :=
  trivial

/-- Nothing is compiled, and the store holds no file but the mark of its version. -/
structure Fresh (w : World) : Prop where
  modules : w.graph.modules = .empty
  remote : w.graph.remote = .empty
  files : ∀ place content, w.storePlace <+: place →
    w.disk.entry? place = some (.file content) → place = w.storePlace ++ ["VERSION"]

/-- A graph without modules is fresh if the disk has no other file at the store's root or below it. -/
theorem fresh_of_entries {w : World} (hm : w.graph.modules = .empty) (hr : w.graph.remote = .empty)
    (he : ∀ e ∈ w.disk.entries, w.storePlace <+: e.1 →
      e.2 = .directory ∨ e.1 = w.storePlace ++ ["VERSION"]) : w.Fresh := by
  refine ⟨hm, hr, fun place content hbelow hentry ↦ ?_⟩
  exact (he _ (Disk.mem_entries_of_file hentry) hbelow).resolve_left nofun

theorem has_of_remove {w : World} {id x : String} {m : Module}
    (h : (w.react (.remove id)).Has x m) : w.Has x m := by
  refine h.imp_left fun hm ↦ ?_
  change (w.graph.modules.erase id).find? x = some m at hm
  rw [ModuleTable.find?_erase] at hm
  split at hm
  · cases hm
  · exact hm

def Holds (w : World) (text : String) : Prop :=
  ∃ id m, w.Has id m ∧ m.code = text

end World

/-- The worlds of a history, the latest first; `allowed` restricts what happens. -/
inductive History (allowed : World → Event → Prop) : List World → Prop
  | start {w : World} (fresh : w.Fresh) : History allowed [w]
  | step {w : World} {ws : List World} {e : Event} (before : History allowed (w :: ws))
      (admitted : w.Admits e) (allows : allowed w e) : History allowed (w.react e :: w :: ws)

theorem History.mono {p q : World → Event → Prop} {ws : List World} (h : History p ws)
    (hpq : ∀ w e, p w e → q w e) : History q ws := by
  induction h with
  | start hf => exact .start hf
  | step _ ha hp ih => exact .step ih ha (hpq _ _ hp)

theorem History.suffix {allowed : World → Event → Prop} {ws vs : List World} {w : World}
    (h : History allowed ws) (hs : w :: vs <:+ ws) : History allowed (w :: vs) := by
  induction h with
  | start hf =>
    rcases List.suffix_cons_iff.1 hs with he | hs
    · exact he ▸ .start hf
    · exact absurd (List.suffix_nil.1 hs) (List.cons_ne_nil _ _)
  | step hb ha hp ih =>
    rcases List.suffix_cons_iff.1 hs with he | hs
    · exact he ▸ .step hb ha hp
    · exact ih hs

/-- No two of the texts that were ever compiled have the same hash. -/
def NoCollision (ws : List World) : Prop :=
  ∀ w ∈ ws, ∀ w' ∈ ws, ∀ t t', w.Holds t → w'.Holds t' →
    Digest.contentHash t = Digest.contentHash t' → t = t'

theorem NoCollision.tail {w : World} {ws : List World} (h : NoCollision (w :: ws)) :
    NoCollision ws :=
  fun v hv v' hv' ↦ h v (List.mem_cons_of_mem w hv) v' (List.mem_cons_of_mem w hv')

theorem NoCollision.cons {w w' : World} {ws : List World} (h : NoCollision (w :: ws))
    (hk : ∀ x m, w'.Has x m → w.Has x m) : NoCollision (w' :: w :: ws) := by
  have hall : ∀ v ∈ w' :: w :: ws, ∀ t, v.Holds t → ∃ u ∈ w :: ws, u.Holds t := by
    rintro v hv t ⟨x, m, hm, ht⟩
    rcases List.mem_cons.1 hv with rfl | hv
    · exact ⟨w, List.mem_cons_self, x, m, hk x m hm, ht⟩
    · exact ⟨v, hv, x, m, hm, ht⟩
  intro v hv v' hv' t t' ht ht' he
  obtain ⟨u, hu, ht⟩ := hall v hv t ht
  obtain ⟨u', hu', ht'⟩ := hall v' hv' t' ht'
  exact h u hu u' hu' t t' ht ht' he

end SiteCompiler.Graph
