import SiteCompiler.Disk
import SiteCompiler.Proofs.Text.Cutting

namespace SiteCompiler.Disk

variable {d d' d'' : Disk} {p q : Place} {e : Entry}

@[simp] theorem entry?_nil (d : Disk) : d.entry? [] = some .directory := if_pos rfl

theorem lookup_filter_ne (entries : List (Place × Entry)) (h : q ≠ p) :
    (entries.filter (·.1 ≠ p)).lookup q = entries.lookup q := by
  induction entries with
  | nil => rfl
  | cons x entries ih =>
    obtain ⟨r, e⟩ := x
    by_cases hr : r = p
    · subst hr
      have hq : (q == r) = false := beq_eq_false_iff_ne.2 h
      rw [List.filter_cons_of_neg (by simp), ih, List.lookup_cons, hq]
    · rw [List.filter_cons_of_pos (by simpa using hr), List.lookup_cons, List.lookup_cons, ih]

theorem entry?_put_self (h : p ≠ []) : entry? (d.put p e) p = some e := by
  unfold entry?
  rw [if_neg h, put, List.lookup_cons, beq_self_eq_true]

theorem entry?_put_of_ne (h : q ≠ p) : entry? (d.put p e) q = d.entry? q := by
  have hq : (q == p) = false := beq_eq_false_iff_ne.2 h
  unfold entry?
  rw [put, List.lookup_cons, hq, lookup_filter_ne _ h]

theorem mem_entries (hp : p ≠ []) (h : d.entry? p = some e) : (p, e) ∈ d.entries := by
  unfold entry? at h
  rw [if_neg hp] at h
  obtain ⟨before, after, hentries, -⟩ := List.lookup_eq_some_iff.1 h
  rw [hentries]
  exact List.mem_append_right _ List.mem_cons_self

theorem mem_entries_of_file {content : ByteArray} (h : d.entry? p = some (.file content)) :
    (p, .file content) ∈ d.entries := by
  refine mem_entries ?_ h
  rintro rfl
  rw [entry?_nil] at h
  cases h

def lexicalStep (place : Place) (piece : String) : Place :=
  if piece = "" ∨ piece = "." then place
  else if piece = ".." then place.dropLast
  else place ++ [piece]

/-- Where a path leads, whatever there is on the disk; the empty path is the working directory. -/
def placeOf (workingDirectory : Place) (path : String) : Place :=
  (Text.pieces '/' path).foldl lexicalStep
    (if Text.startsWith path "/" then [] else workingDirectory)

theorem step_eq_ok {piece : String} (h : d.step p piece = .ok q) :
    d.entry? p = some .directory ∧ q = lexicalStep p piece := by
  rw [step] at h
  cases he : d.entry? p with
  | none => rw [he] at h; cases h
  | some entry =>
    rw [he] at h
    cases entry with
    | file content => cases h
    | directory =>
      dsimp only at h
      refine ⟨rfl, ?_⟩
      rw [lexicalStep]
      split at h
      · rw [if_pos ‹_›]
        exact (Except.ok.inj h).symm
      · rw [if_neg ‹_›]
        split at h
        · rw [if_pos ‹_›]
          exact (Except.ok.inj h).symm
        · rw [if_neg ‹_›]
          split at h
          · cases h
          · exact (Except.ok.inj h).symm

theorem foldlM_step_eq_ok {pieces : List String} (h : pieces.foldlM d.step p = .ok q) :
    q = pieces.foldl lexicalStep p := by
  induction pieces generalizing p with
  | nil => exact (Except.ok.inj h).symm
  | cons piece pieces ih =>
    rw [List.foldlM_cons] at h
    cases hs : d.step p piece with
    | error cause => rw [hs] at h; cases h
    | ok next =>
      rw [hs] at h
      rw [List.foldl_cons, ← (step_eq_ok hs).2]
      exact ih h

theorem toList_pieces_head {path first : String} {rest : List String}
    (h : Text.pieces '/' path = first :: rest) (hp : path ≠ "") :
    Text.startsWith path "/" = decide (first = "") := by
  have hs : path.toList.splitOn '/' = first.toList :: rest.map String.toList := by
    have hm := congrArg (List.map String.toList) h
    have hid : String.toList ∘ String.ofList = id := funext fun _ ↦ String.toList_ofList
    rwa [Text.pieces, List.map_map, hid, List.map_id] at hm
  have hne : path.toList ≠ [] := fun he ↦ hp (by rw [← String.ofList_toList (s := path), he])
  obtain ⟨c, cs, hc⟩ := List.exists_cons_of_ne_nil hne
  have hempty : first = "" ↔ first.toList = [] := by
    constructor
    · rintro rfl
      rfl
    · intro h
      rw [← String.ofList_toList (s := first), h]
  rw [hc, List.splitOn_cons_eq_if_modifyHead] at hs
  rw [Text.startsWith, hc, show "/".toList = ['/'] from rfl, List.isPrefixOf_cons_cons,
    List.isPrefixOf_nil_left, Bool.and_true]
  by_cases hslash : c = '/'
  · subst hslash
    rw [if_pos (beq_self_eq_true '/')] at hs
    rw [beq_self_eq_true, eq_comm, decide_eq_true_iff, hempty]
    exact (List.cons.inj hs).1.symm
  · have hb : (c == '/') = false := beq_eq_false_iff_ne.2 hslash
    have hb' : ('/' == c) = false := beq_eq_false_iff_ne.2 fun h ↦ hslash h.symm
    rw [hb, if_neg Bool.false_ne_true] at hs
    rw [hb', eq_comm, decide_eq_false_iff_not, hempty]
    intro hf
    rw [hf] at hs
    obtain ⟨l, ls, hl⟩ := List.exists_cons_of_ne_nil (List.splitOn_ne_nil '/' cs)
    rw [hl] at hs
    exact absurd (List.cons.inj hs).1 (List.cons_ne_nil c l)

theorem foldl_start {path : String} (hp : path ≠ "") :
    (d.start path).2.foldl lexicalStep (d.start path).1 = placeOf d.workingDirectory path := by
  obtain ⟨first, rest, h⟩ := List.exists_cons_of_ne_nil (Text.pieces_ne_nil '/' path)
  have hs := toList_pieces_head h hp
  rw [placeOf, start, h, hs]
  by_cases hf : first = ""
  · subst hf
    rfl
  · rw [decide_eq_false hf, if_neg Bool.false_ne_true]
    split
    · next he => exact absurd (List.cons.inj he).1 hf
    · rfl

theorem locate_eq_ok {path : String} (h : d.locate path = .ok p) :
    p = placeOf d.workingDirectory path := by
  rw [locate] at h
  split at h
  · cases h
  · next hp =>
    cases hc : checkPath path with
    | error cause => rw [hc] at h; cases h
    | ok _ =>
      rw [hc] at h
      rw [← foldl_start hp]
      exact foldlM_step_eq_ok h

theorem foldlM_step_of_directories
    (hd : ∀ p, d.entry? p = some .directory → d'.entry? p = some .directory) {pieces : List String}
    (hs : pieces.foldlM d.step p = .ok q) : pieces.foldlM d'.step p = .ok q := by
  induction pieces generalizing p with
  | nil => exact hs
  | cons piece pieces ih =>
    rw [List.foldlM_cons] at hs ⊢
    cases he : d.step p piece with
    | error cause => rw [he] at hs; cases hs
    | ok next =>
      have hp := (step_eq_ok he).1
      rw [he] at hs
      rw [step, hp] at he
      rw [show d'.step p piece = .ok next by rw [step, hd p hp]; exact he]
      exact ih hs

theorem locate_of_directories (hw : d'.workingDirectory = d.workingDirectory)
    (hd : ∀ p, d.entry? p = some .directory → d'.entry? p = some .directory) {path : String}
    (hl : d.locate path = .ok p) : d'.locate path = .ok p := by
  rw [locate] at hl ⊢
  split at hl
  · cases hl
  · next hp =>
    rw [if_neg hp, show d'.start path = d.start path by rw [start, start, hw]]
    cases hc : checkPath path with
    | error cause => rw [hc] at hl; cases hl
    | ok _ =>
      rw [hc] at hl
      exact foldlM_step_of_directories hd hl

/-- How a disk grows by files that are written: `new` tells which content where. -/
structure Grows (new : Place → ByteArray → Prop) (d d' : Disk) : Prop where
  workingDirectory : d'.workingDirectory = d.workingDirectory
  directories : ∀ p, d.entry? p = some .directory → d'.entry? p = some .directory
  files : ∀ p c, d.entry? p = some (.file c) → ∃ c', d'.entry? p = some (.file c')
  origin : ∀ p c, d'.entry? p = some (.file c) → d.entry? p = some (.file c) ∨ new p c

namespace Grows

variable {new new' : Place → ByteArray → Prop}

theorem refl (new : Place → ByteArray → Prop) (d : Disk) : Grows new d d :=
  ⟨rfl, fun _ h ↦ h, fun _ c h ↦ ⟨c, h⟩, fun _ _ ↦ .inl⟩

theorem trans (h : Grows new d d') (h' : Grows new d' d'') : Grows new d d'' := by
  refine ⟨h'.workingDirectory.trans h.workingDirectory,
    fun p hp ↦ h'.directories p (h.directories p hp), ?_, ?_⟩
  · intro p c hc
    obtain ⟨c', hc'⟩ := h.files p c hc
    exact h'.files p c' hc'
  · intro p c hc
    rcases h'.origin p c hc with hc | hn
    · exact h.origin p c hc
    · exact .inr hn

theorem mono (h : Grows new d d') (hn : ∀ p c, new p c → new' p c) : Grows new' d d' :=
  ⟨h.workingDirectory, h.directories, h.files, fun p c hc ↦ (h.origin p c hc).imp_right (hn p c)⟩

theorem file (h : Grows new d d') {c : ByteArray} (hc : d.entry? p = some (.file c)) :
    ∃ c', d'.entry? p = some (.file c') ∧ (c' = c ∨ new p c') := by
  obtain ⟨c', hc'⟩ := h.files p c hc
  rcases h.origin p c' hc' with ho | hn
  · rw [hc] at ho
    cases ho
    exact ⟨c, hc', .inl rfl⟩
  · exact ⟨c', hc', .inr hn⟩

theorem foldlM_step (h : Grows new d d') {pieces : List String}
    (hs : pieces.foldlM d.step p = .ok q) : pieces.foldlM d'.step p = .ok q :=
  foldlM_step_of_directories h.directories hs

theorem start (h : Grows new d d') (path : String) : d'.start path = d.start path := by
  rw [Disk.start, Disk.start, h.workingDirectory]

theorem locate (h : Grows new d d') {path : String} (hl : d.locate path = .ok p) :
    d'.locate path = .ok p :=
  locate_of_directories h.workingDirectory h.directories hl

end Grows

theorem grows_put_directory (h : d.entry? p = none) :
    Grows (fun _ _ ↦ False) d (d.put p .directory) := by
  have hp : p ≠ [] := by
    rintro rfl
    rw [entry?_nil] at h
    cases h
  refine ⟨rfl, fun q hq ↦ ?_, fun q c hq ↦ ⟨c, ?_⟩, fun q c hq ↦ .inl ?_⟩
  · by_cases hqp : q = p
    · rw [hqp, entry?_put_self hp]
    · rwa [entry?_put_of_ne hqp]
  · have hqp : q ≠ p := by
      rintro rfl
      rw [h] at hq
      cases hq
    rwa [entry?_put_of_ne hqp]
  · by_cases hqp : q = p
    · rw [hqp, entry?_put_self hp] at hq
      cases hq
    · rwa [entry?_put_of_ne hqp] at hq

theorem grows_put_file (content : ByteArray) (h : d.entry? p ≠ some .directory) :
    Grows (fun q c ↦ p = q ∧ content = c) d (d.put p (.file content)) := by
  have hp : p ≠ [] := by
    rintro rfl
    exact h (entry?_nil d)
  refine ⟨rfl, fun q hq ↦ ?_, fun q c hq ↦ ?_, fun q c hq ↦ ?_⟩
  · have hqp : q ≠ p := by
      rintro rfl
      exact h hq
    rwa [entry?_put_of_ne hqp]
  · by_cases hqp : q = p
    · exact ⟨content, by rw [hqp, entry?_put_self hp]⟩
    · exact ⟨c, by rwa [entry?_put_of_ne hqp]⟩
  · by_cases hqp : q = p
    · rw [hqp, entry?_put_self hp] at hq
      cases hq
      exact .inr ⟨hqp.symm, rfl⟩
    · exact .inl (by rwa [entry?_put_of_ne hqp] at hq)

theorem grows_makeAlong {pieces : List String} (h : d.makeAlong p pieces = .ok d') :
    Grows (fun _ _ ↦ False) d d' := by
  induction pieces generalizing d p with
  | nil =>
    cases h
    exact .refl _ _
  | cons piece pieces ih =>
    rw [makeAlong] at h
    cases hs : d.step p piece with
    | error cause => rw [hs] at h; cases h
    | ok next =>
      rw [hs] at h
      dsimp only [bind, Except.bind] at h
      cases he : d.entry? next with
      | none =>
        rw [he] at h
        exact (grows_put_directory he).trans (ih h)
      | some entry =>
        rw [he] at h
        cases entry with
        | directory => exact ih h
        | file content => cases h

theorem grows_makeDirectories {path : String} (h : d.makeDirectories path = .ok d') :
    Grows (fun _ _ ↦ False) d d' := by
  rw [makeDirectories] at h
  split at h
  · cases h
    exact .refl _ _
  · cases hc : checkPath path with
    | error cause => rw [hc] at h; cases h
    | ok _ =>
      rw [hc] at h
      exact grows_makeAlong h

theorem writeBytes_eq_ok {path : String} {content : ByteArray}
    (h : d.writeBytes path content = .ok d') :
    Grows (fun p c ↦ placeOf d.workingDirectory path = p ∧ content = c) d d' ∧
      d'.readBytes path = .ok content := by
  rw [writeBytes] at h
  cases hl : d.locate path with
  | error cause => rw [hl] at h; cases h
  | ok place =>
    rw [hl] at h
    have hp := locate_eq_ok hl
    have hd : d.entry? place ≠ some .directory := by
      intro he
      simp only [he, bind, Except.bind] at h
      cases h
    have hput : d' = d.put place (.file content) := by
      cases he : d.entry? place with
      | none => simp only [he, bind, Except.bind] at h; exact (Except.ok.inj h).symm
      | some entry =>
        cases entry with
        | directory => exact absurd he hd
        | file content => simp only [he, bind, Except.bind] at h; exact (Except.ok.inj h).symm
    have hg := grows_put_file content hd
    have hne : place ≠ [] := fun hn ↦ hd (by rw [hn, entry?_nil])
    subst hput
    refine ⟨hp ▸ hg, ?_⟩
    rw [readBytes, hg.locate hl]
    simp only [bind, Except.bind, entry?_put_self hne]
    rfl

theorem writeText_eq_ok {path text : String} (h : d.writeText path text = .ok d') :
    Grows (fun p c ↦ placeOf d.workingDirectory path = p ∧ text.toUTF8 = c) d d' ∧
      d'.readBytes path = .ok text.toUTF8 :=
  writeBytes_eq_ok h

theorem readBytes_eq_ok {path : String} {content : ByteArray} (h : d.readBytes path = .ok content) :
    ∃ place, d.locate path = .ok place ∧ d.entry? place = some (.file content) := by
  rw [readBytes] at h
  cases hl : d.locate path with
  | error cause => rw [hl] at h; cases h
  | ok place =>
    rw [hl] at h
    refine ⟨place, rfl, ?_⟩
    simp only [bind, Except.bind] at h
    split at h
    · cases h
    · cases h
    · next he => rw [he, Except.ok.inj h]

theorem readBytes_of_file {path : String} {content : ByteArray} (hl : d.locate path = .ok p)
    (he : d.entry? p = some (.file content)) : d.readBytes path = .ok content := by
  rw [readBytes, hl]
  simp only [bind, Except.bind, he]
  rfl

theorem exists_of_isFile {path : String} (h : d.isFile path = true) :
    ∃ p c, d.locate path = .ok p ∧ d.entry? p = some (.file c) := by
  rw [isFile, find?] at h
  cases hl : d.locate path with
  | error cause =>
    rw [hl] at h
    exact absurd h Bool.false_ne_true
  | ok p =>
    rw [hl] at h
    dsimp only at h
    split at h
    · next c he => exact ⟨p, c, rfl, he⟩
    · exact absurd h Bool.false_ne_true

theorem exists_of_isDirectory {path : String} (h : d.isDirectory path = true) :
    ∃ p, d.locate path = .ok p ∧ d.entry? p = some .directory := by
  rw [isDirectory, find?] at h
  cases hl : d.locate path with
  | error cause =>
    rw [hl] at h
    exact absurd h Bool.false_ne_true
  | ok p =>
    rw [hl] at h
    dsimp only at h
    split at h
    · next he => exact ⟨p, rfl, he⟩
    · exact absurd h Bool.false_ne_true

theorem Grows.isFile {new : Place → ByteArray → Prop} (h : Grows new d d') {path : String}
    (hf : d.isFile path = true) : d'.isFile path = true := by
  obtain ⟨p, c, hl, hp⟩ := exists_of_isFile hf
  obtain ⟨c', hc'⟩ := h.files p c hp
  rw [Disk.isFile, find?, h.locate hl]
  dsimp only
  rw [hc']

theorem Grows.isDirectory {new : Place → ByteArray → Prop} (h : Grows new d d') {path : String}
    (hf : d.isDirectory path = true) : d'.isDirectory path = true := by
  obtain ⟨p, hl, hp⟩ := exists_of_isDirectory hf
  rw [Disk.isDirectory, find?, h.locate hl]
  dsimp only
  rw [h.directories p hp]

section Names

structure IsName (name : String) : Prop where
  slash : '/' ∉ name.toList
  nul : '\x00' ∉ name.toList
  special : name ≠ "" ∧ name ≠ "." ∧ name ≠ ".."
  size : name.utf8ByteSize ≤ maxName

variable {a b : String}

theorem IsName.step (h : IsName a) (hd : d.entry? p = some .directory) :
    d.step p a = .ok (p ++ [a]) := by
  have hsize : ¬maxName < a.utf8ByteSize := Nat.not_lt.2 h.size
  rw [Disk.step, hd]
  dsimp only
  rw [if_neg (not_or.2 ⟨h.special.1, h.special.2.1⟩), if_neg h.special.2.2, if_neg hsize]

theorem IsName.checkPath (h : IsName a) : checkPath a = .ok () := by
  have hnul : a.toList.contains '\x00' = false :=
    Bool.eq_false_iff.2 fun hc ↦ h.nul (List.contains_iff_mem.1 hc)
  have hsize : ¬maxPath < a.utf8ByteSize := Nat.not_lt.2 (Nat.le_trans h.size (by decide))
  rw [Disk.checkPath, hnul, if_neg Bool.false_ne_true, if_neg hsize]

theorem IsName.start (h : IsName a) : d.start a = (d.workingDirectory, [a]) := by
  rw [Disk.start, Text.pieces_of_not_mem h.slash]
  split
  · next he => exact absurd (List.cons.inj he).1 h.special.1
  · rfl

theorem IsName.pieces_join (ha : IsName a) (hb : IsName b) :
    Text.pieces '/' (a ++ "/" ++ b) = [a, b] := by
  change Text.pieces '/' (a ++ String.singleton '/' ++ b) = _
  rw [Text.pieces_append_sep, Text.pieces_of_not_mem ha.slash, Text.pieces_of_not_mem hb.slash]
  rfl

theorem IsName.checkPath_join (ha : IsName a) (hb : IsName b) :
    Disk.checkPath (a ++ "/" ++ b) = .ok () := by
  have hnul : (a ++ "/" ++ b).toList.contains '\x00' = false := by
    refine Bool.eq_false_iff.2 fun hc ↦ ?_
    have hc := List.contains_iff_mem.1 hc
    rw [String.toList_append, String.toList_append] at hc
    rcases List.mem_append.1 hc with hc | hc
    · rcases List.mem_append.1 hc with hc | hc
      · exact ha.nul hc
      · exact absurd hc (by decide)
    · exact hb.nul hc
  have hsize : ¬maxPath < (a ++ "/" ++ b).utf8ByteSize := by
    have h1 := ha.size
    have h2 := hb.size
    have h3 : "/".utf8ByteSize = 1 := rfl
    rw [String.utf8ByteSize_append, String.utf8ByteSize_append, h3]
    unfold maxName at h1 h2
    unfold maxPath
    omega
  rw [Disk.checkPath, hnul, if_neg Bool.false_ne_true, if_neg hsize]

theorem IsName.locate_join (ha : IsName a) (hb : IsName b)
    (hd : d.entry? (d.workingDirectory ++ [a]) = some .directory)
    (hw : d.entry? d.workingDirectory = some .directory) :
    d.locate (a ++ "/" ++ b) = .ok (d.workingDirectory ++ [a, b]) := by
  have hne : a ++ "/" ++ b ≠ "" := by
    intro he
    have hp := ha.pieces_join hb
    rw [he] at hp
    cases hp
  have hstart : d.start (a ++ "/" ++ b) = (d.workingDirectory, [a, b]) := by
    rw [Disk.start, ha.pieces_join hb]
    split
    · next he => exact absurd (List.cons.inj he).1 ha.special.1
    · rfl
  rw [locate, if_neg hne, ha.checkPath_join hb, hstart]
  simp only [bind, Except.bind, List.foldlM, ha.step hw, hb.step hd, pure, Except.pure,
    List.append_assoc, List.cons_append, List.nil_append]

end Names

section Actions

variable {α β : Type}

@[simp] theorem perform_pure (d : Disk) (x : α) : d.perform (pure x) = (.ok x, d) := rfl

theorem perform_bind (d : Disk) (a : Action α) (f : α → Action β) :
    d.perform (a >>= f) = match d.perform a with
      | (.ok x, d) => d.perform (f x)
      | (.error cause, d) => (.error cause, d) := by
  change (ExceptT.bind a f).run.run d = _
  simp only [perform, ExceptT.run, ExceptT.bind, ExceptT.mk, StateT.run, bind, StateT.bind]
  generalize a d = r
  obtain ⟨r, d⟩ := r
  cases r <;> rfl

theorem perform_change (d : Disk) (f : Disk → Except FileError Disk) :
    d.perform (change f) = match f d with
      | .ok d' => (.ok (), d')
      | .error cause => (.error cause, d) := by
  rw [change, perform_bind, show d.perform get = (.ok d, d) from rfl]
  dsimp only
  cases f d <;> rfl

def Writes (new : Place → Place → ByteArray → Prop) (a : Action α) : Prop :=
  ∀ d, Grows (new d.workingDirectory) d (d.perform a).2

variable {new new' : Place → Place → ByteArray → Prop}

theorem Writes.pure (x : α) : Writes new (pure x : Action α) :=
  fun d ↦ .refl _ d

theorem Writes.mono {a : Action α} (h : Writes new a) (hn : ∀ w p c, new w p c → new' w p c) :
    Writes new' a :=
  fun d ↦ (h d).mono (hn d.workingDirectory)

theorem Writes.bind {a : Action α} {f : α → Action β} (ha : Writes new a)
    (hf : ∀ x, Writes new (f x)) : Writes new (a >>= f) := by
  intro d
  have h := ha d
  rw [perform_bind]
  rcases hr : d.perform a with ⟨⟨cause⟩ | ⟨x⟩, d'⟩ <;> rw [hr] at h
  · exact h
  · have h' := hf x d'
    rw [show d'.workingDirectory = d.workingDirectory from h.workingDirectory] at h'
    exact h.trans h'

theorem Writes.change {f : Disk → Except FileError Disk}
    (h : ∀ d d', f d = .ok d' → Grows (new d.workingDirectory) d d') : Writes new (change f) := by
  intro d
  rw [perform_change]
  cases hf : f d with
  | error cause => exact .refl _ d
  | ok d' => exact h d d' hf

inductive Through (acts : Action Unit → Prop) : Disk → Disk → Prop
  | refl (d : Disk) : Through acts d d
  | step {d d' : Disk} {a : Action Unit} (before : Through acts d d') (act : acts a) :
      Through acts d (d'.perform a).2

def Accepts (acts : Action Unit → Prop) (d : Disk) : Prop :=
  ∀ d', Through acts d d' → ∀ a, acts a → (d'.perform a).1 = .ok ()

variable {acts acts' : Action Unit → Prop}

theorem Through.one {a : Action Unit} (h : acts a) (d : Disk) : Through acts d (d.perform a).2 :=
  .step (.refl d) h

theorem Through.trans (h : Through acts d d') (h' : Through acts d' d'') : Through acts d d'' := by
  induction h' with
  | refl => exact h
  | step _ ha ih => exact .step ih ha

theorem Through.mono (h : Through acts d d') (hm : ∀ a, acts a → acts' a) : Through acts' d d' := by
  induction h with
  | refl => exact .refl _
  | step _ ha ih => exact .step ih (hm _ ha)

theorem Through.grows (h : Through acts d d') (hw : ∀ a, acts a → Writes new a) :
    Grows (new d.workingDirectory) d d' := by
  induction h with
  | refl => exact .refl _ _
  | @step d' a _ ha ih =>
    have hstep := hw a ha d'
    rw [ih.workingDirectory] at hstep
    exact ih.trans hstep

theorem Accepts.through (h : Accepts acts d) (ht : Through acts d d') : Accepts acts d' :=
  fun d'' ht' ↦ h d'' (ht.trans ht')

theorem Accepts.perform (h : Accepts acts d) {a : Action Unit} (ha : acts a) :
    (d.perform a).1 = .ok () :=
  h d (.refl d) a ha

end Actions

end SiteCompiler.Disk
