import SiteCompiler.Proofs.ArtifactStore
import SiteCompiler.Proofs.Specifier

namespace SiteCompiler

namespace Disk

open ModuleId (IsSegment)

/-- Every entry is the only one at its place, which is made of names, in a directory. -/
structure Tidy (d : Disk) : Prop where
  names : ∀ e ∈ d.entries, ∀ name ∈ e.1, IsSegment name
  distinct : (d.entries.map Prod.fst).Nodup
  above : ∀ e ∈ d.entries, d.entry? e.1.dropLast = some .directory

variable {d d' : Disk} {p q : Place} {e : Entry} {path piece : String}

theorem tidy_empty : Tidy ⟨p, []⟩ :=
  ⟨fun _ he ↦ (List.not_mem_nil he).elim, List.nodup_nil, fun _ he ↦ (List.not_mem_nil he).elim⟩

namespace Tidy

theorem entry?_of_mem (h : d.Tidy) (hp : p ≠ []) (hm : (p, e) ∈ d.entries) : d.entry? p = some e := by
  obtain ⟨before, after, hentries⟩ := List.append_of_mem hm
  have hdistinct := h.distinct
  rw [Disk.entry?, if_neg hp, List.lookup_eq_some_iff]
  refine ⟨before, after, hentries, fun x hx ↦ ?_⟩
  rw [hentries, List.map_append, List.map_cons, List.nodup_append] at hdistinct
  rw [bne_iff_ne, ne_comm]
  exact hdistinct.2.2 x.1 (List.mem_map_of_mem hx) p List.mem_cons_self

theorem isSegment (h : d.Tidy) (he : d.entry? p = some e) : ∀ name ∈ p, IsSegment name := by
  by_cases hp : p = []
  · rw [hp]
    exact fun _ hm ↦ (List.not_mem_nil hm).elim
  · exact h.names _ (mem_entries hp he)

theorem dropLast (h : d.Tidy) (he : d.entry? p = some e) : d.entry? p.dropLast = some .directory := by
  by_cases hp : p = []
  · rw [hp]
    exact entry?_nil d
  · exact h.above _ (mem_entries hp he)

theorem directory (h : d.Tidy) {names : List String} (hn : names ≠ [])
    (he : d.entry? (p ++ names) = some e) : d.entry? p = some .directory := by
  induction names using List.reverseRecOn generalizing e with
  | nil => exact absurd rfl hn
  | append_singleton names name ih =>
    have hparent := h.dropLast he
    rw [← List.append_assoc, List.dropLast_concat] at hparent
    by_cases hnames : names = []
    · rwa [hnames, List.append_nil] at hparent
    · exact ih hnames hparent

/-- An entry that replaces another one or is new leaves a tree, unless it is a file in the place of a
directory. -/
theorem put (h : d.Tidy) (hn : ∀ name ∈ p, IsSegment name)
    (ha : d.entry? p.dropLast = some .directory)
    (he : d.entry? p ≠ some .directory) : (d.put p e).Tidy := by
  have habove : ∀ {q : Place}, q ≠ p → d.entry? q = some .directory →
      entry? (d.put p e) q = some .directory := fun hq hd ↦ (entry?_put_of_ne hq).trans hd
  have hne : ∀ {q : Place}, d.entry? q = some .directory → q ≠ p := fun hd hq ↦ he (hq ▸ hd)
  refine ⟨fun x hx ↦ ?_, ?_, fun x hx ↦ ?_⟩
  · rcases List.mem_cons.1 hx with rfl | hx
    · exact hn
    · exact h.names x (List.mem_of_mem_filter hx)
  · change ((p, e) :: d.entries.filter (·.1 ≠ p)).map Prod.fst |>.Nodup
    rw [List.map_cons, List.nodup_cons]
    refine ⟨fun hm ↦ ?_, h.distinct.sublist (List.filter_sublist.map _)⟩
    obtain ⟨x, hx, hxp⟩ := List.mem_map.1 hm
    exact of_decide_eq_true (List.mem_filter.1 hx).2 hxp
  · rcases List.mem_cons.1 hx with rfl | hx
    · exact habove (hne ha) ha
    · have hd := h.above x (List.mem_of_mem_filter hx)
      exact habove (hne hd) hd

theorem removeAt (h : d.Tidy) (place : Place) : (d.removeAt place).Tidy := by
  refine ⟨fun x hx ↦ h.names x (List.mem_of_mem_filter hx),
    h.distinct.sublist (List.filter_sublist.map _), fun x hx ↦ ?_⟩
  obtain ⟨hm, hkept⟩ := List.mem_filter.1 hx
  have hd := h.above x hm
  by_cases hx' : x.1.dropLast = []
  · rw [hx']
    exact entry?_nil _
  · rw [Disk.entry?, if_neg hx'] at hd ⊢
    obtain ⟨before, after, hentries, hbefore⟩ := List.lookup_eq_some_iff.1 hd
    have hkeeps : (!place.isPrefixOf x.1.dropLast) = true := by
      rw [Bool.not_eq_true', Bool.eq_false_iff, Ne, List.isPrefixOf_iff_prefix] at hkept ⊢
      exact fun hp ↦ hkept (hp.trans (List.dropLast_prefix x.1))
    refine List.lookup_eq_some_iff.2 ⟨before.filter fun e ↦ !place.isPrefixOf e.1,
      after.filter fun e ↦ !place.isPrefixOf e.1, ?_,
      fun y hy ↦ hbefore y (List.mem_of_mem_filter hy)⟩
    rw [Disk.removeAt, hentries]
    dsimp only
    rw [List.filter_append, List.filter_cons_of_pos (by exact hkeeps)]

theorem step (h : d.Tidy) (hslash : '/' ∉ piece.toList) (hs : d.step p piece = .ok q) :
    d.entry? q.dropLast = some .directory ∧ ∀ name ∈ q, IsSegment name := by
  obtain ⟨hd, rfl⟩ := step_eq_ok hs
  have hp := h.isSegment hd
  rw [lexicalStep]
  split
  · exact ⟨h.dropLast hd, hp⟩
  · next hplain =>
    obtain ⟨hempty, hdot⟩ := not_or.1 hplain
    split
    · have hup := h.dropLast hd
      exact ⟨h.dropLast hup, h.isSegment hup⟩
    · next hup =>
      rw [List.dropLast_concat]
      refine ⟨hd, fun name hm ↦ ?_⟩
      rcases List.mem_append.1 hm with hm | hm
      · exact hp name hm
      · obtain rfl := List.mem_singleton.1 hm
        exact ⟨hempty, hdot, hup, hslash⟩

end Tidy

theorem not_mem_start (hm : piece ∈ (d.start path).2) : '/' ∉ piece.toList := by
  refine Text.not_mem_of_mem_pieces (s := path) ?_
  rw [start] at hm
  split at hm
  · next hp =>
    rw [hp]
    exact List.mem_cons_of_mem _ hm
  · exact hm

theorem start_ne_nil (hp : path ≠ "") : (d.start path).2 ≠ [] := by
  rw [start]
  split
  · next rest hpieces =>
    rintro rfl
    rw [← Text.pieces_empty '/', Text.pieces_inj] at hpieces
    exact hp hpieces
  · exact Text.pieces_ne_nil '/' path

namespace Tidy

theorem locate (h : d.Tidy) (hl : d.locate path = .ok p) :
    d.entry? p.dropLast = some .directory ∧ ∀ name ∈ p, IsSegment name := by
  rw [Disk.locate] at hl
  split at hl
  · cases hl
  · next hne =>
    obtain ⟨front, last, hpieces⟩ :=
      (List.eq_nil_or_concat' (d.start path).2).resolve_left (start_ne_nil hne)
    cases hc : checkPath path with
    | error cause => rw [hc] at hl; cases hl
    | ok _ =>
      rw [hc] at hl
      change (d.start path).2.foldlM d.step (d.start path).1 = .ok p at hl
      have hlast : last ∈ (d.start path).2 := by rw [hpieces]; exact List.mem_concat_self
      rw [hpieces, List.foldlM_append] at hl
      cases hf : front.foldlM d.step (d.start path).1 with
      | error cause => rw [hf] at hl; cases hl
      | ok q =>
        rw [hf] at hl
        simp only [bind, Except.bind, List.foldlM_cons, List.foldlM_nil] at hl
        cases hs : d.step q last with
        | error cause => rw [hs] at hl; cases hl
        | ok next =>
          rw [hs] at hl
          obtain rfl := Except.ok.inj hl
          exact h.step (not_mem_start hlast) hs

theorem writeBytes (h : d.Tidy) {content : ByteArray} (hw : d.writeBytes path content = .ok d') :
    d'.Tidy := by
  rw [Disk.writeBytes] at hw
  cases hl : d.locate path with
  | error cause => rw [hl] at hw; cases hw
  | ok place =>
    rw [hl] at hw
    obtain ⟨habove, hnames⟩ := h.locate hl
    cases he : d.entry? place with
    | none =>
      simp only [he, bind, Except.bind] at hw
      rw [← Except.ok.inj hw]
      exact h.put hnames habove (by simp [he])
    | some entry =>
      cases entry with
      | directory =>
        simp only [he, bind, Except.bind] at hw
        cases hw
      | file old =>
        simp only [he, bind, Except.bind] at hw
        rw [← Except.ok.inj hw]
        exact h.put hnames habove (by simp [he])

theorem makeAlong {pieces : List String} (h : d.Tidy) (hslash : ∀ s ∈ pieces, '/' ∉ s.toList)
    (hm : d.makeAlong p pieces = .ok d') : d'.Tidy := by
  induction pieces generalizing d p with
  | nil =>
    cases hm
    exact h
  | cons piece pieces ih =>
    have hrest : ∀ s ∈ pieces, '/' ∉ s.toList := fun s hs ↦ hslash s (List.mem_cons_of_mem piece hs)
    rw [Disk.makeAlong] at hm
    cases hs : d.step p piece with
    | error cause => rw [hs] at hm; cases hm
    | ok next =>
      rw [hs] at hm
      dsimp only [bind, Except.bind] at hm
      obtain ⟨habove, hnames⟩ := h.step (hslash piece List.mem_cons_self) hs
      cases he : d.entry? next with
      | none =>
        rw [he] at hm
        exact ih (h.put hnames habove (by simp [he])) hrest hm
      | some entry =>
        rw [he] at hm
        cases entry with
        | directory => exact ih h hrest hm
        | file content => cases hm

theorem makeDirectories (h : d.Tidy) (hm : d.makeDirectories path = .ok d') : d'.Tidy := by
  rw [Disk.makeDirectories] at hm
  split at hm
  · cases hm
    exact h
  · cases hc : checkPath path with
    | error cause => rw [hc] at hm; cases hm
    | ok _ =>
      rw [hc] at hm
      exact h.makeAlong (fun s hs ↦ not_mem_start hs) hm

theorem removeDirectory (h : d.Tidy) (hr : d.removeDirectory path = .ok d') : d'.Tidy := by
  rw [Disk.removeDirectory] at hr
  cases hl : d.locate path with
  | error cause => rw [hl] at hr; cases hr
  | ok place =>
    rw [hl] at hr
    simp only [bind, Except.bind] at hr
    split at hr
    · cases hr
    · cases hr
    · rw [← Except.ok.inj hr]
      exact h.removeAt place

end Tidy

def Tidies {α : Type} (a : Action α) : Prop :=
  ∀ d : Disk, d.Tidy → (d.perform a).2.Tidy

theorem tidies_pure {α : Type} (x : α) : Tidies (pure x) :=
  fun _ h ↦ h

theorem Tidies.bind {α β : Type} {a : Action α} {f : α → Action β} (ha : Tidies a)
    (hf : ∀ x, Tidies (f x)) : Tidies (a >>= f) := by
  intro d h
  have h' := ha d h
  rw [perform_bind]
  rcases hr : d.perform a with ⟨⟨cause⟩ | ⟨x⟩, d'⟩ <;> rw [hr] at h'
  · exact h'
  · exact hf x d' h'

theorem tidies_change {f : Disk → Except FileError Disk}
    (hf : ∀ d d', d.Tidy → f d = .ok d' → d'.Tidy) : Tidies (change f) := by
  intro d h
  rw [perform_change]
  cases hd : f d with
  | error cause => exact h
  | ok d' => exact hf d d' h hd

theorem tidies_makeDirectories (path : String) :
    Tidies (change fun disk => disk.makeDirectories path) :=
  tidies_change fun _ _ h ↦ h.makeDirectories

theorem tidies_writeText (path text : String) :
    Tidies (change fun disk => disk.writeText path text) :=
  tidies_change fun _ _ h ↦ h.writeBytes

end Disk

namespace ArtifactStore

open Disk (Tidies tidies_pure tidies_change tidies_makeDirectories tidies_writeText)

theorem tidies_writeFile (path text : String) : Tidies (writeFile path text) := by
  rw [writeFile]
  split
  · exact (tidies_makeDirectories _).bind fun _ ↦ tidies_writeText path text
  · exact tidies_writeText path text

theorem tidies_writeCode (path code : String) (sourceMap : Option String) :
    Tidies (writeCode path code sourceMap) := by
  rw [writeCode.eq_def]
  refine (tidies_writeFile path code).bind fun _ ↦ ?_
  cases sourceMap with
  | none => exact tidies_pure ()
  | some map => exact tidies_writeText _ map

theorem tidies_write (s : ArtifactStore) (stem record path code : String)
    (sourceMap : Option String) : Tidies (s.write stem record path code sourceMap) :=
  (tidies_writeFile _ record).bind fun _ ↦ tidies_writeCode path code sourceMap

theorem tidy_openAt {disk : Disk} (h : disk.Tidy) (root version : String) :
    (openAt disk root version).2.Tidy := by
  have hclear : Tidies (clear root) := by
    refine tidies_change fun d d' hd hr ↦ ?_
    split at hr
    · rwa [← Except.ok.inj hr]
    · exact hd.removeDirectory hr
  rw [openAt]
  split
  · exact h
  · exact (hclear.bind fun _ ↦ (tidies_makeDirectories root).bind fun _ ↦
      tidies_writeText (versionPath root) version) disk h

end ArtifactStore
end SiteCompiler
