import SiteCompiler.ArtifactStore
import SiteCompiler.Proofs.Digest
import SiteCompiler.Proofs.Disk
import SiteCompiler.Proofs.Record
import SiteCompiler.Proofs.Specifier

namespace SiteCompiler

namespace Text.Utf8

theorem decode?_toUTF8 (s : String) : decode? s.toUTF8 = some s :=
  dif_pos s.isValidUTF8

theorem toUTF8_of_decode? {content : ByteArray} {s : String} (h : decode? content = some s) :
    s.toUTF8 = content := by
  rw [decode?, String.fromUTF8?] at h
  split at h
  · rw [← Option.some_inj.1 h]
    rfl
  · cases h

theorem toUTF8_inj {s t : String} (h : s.toUTF8 = t.toUTF8) : s = t :=
  Option.some_inj.1 (by rw [← decode?_toUTF8 s, h, decode?_toUTF8])

end Text.Utf8

namespace Disk

def EndsIn (place : Place) (ending : String) : Prop :=
  ∃ directory name, place = directory ++ [name ++ ending]

theorem lexicalStep_of_length {piece : String} (h : 3 ≤ piece.length) (p : Place) :
    lexicalStep p piece = p ++ [piece] := by
  rw [lexicalStep, if_neg, if_neg]
  · rintro rfl
    exact absurd h (by decide)
  · rintro (rfl | rfl)
    all_goals exact absurd h (by decide)

theorem endsIn_placeOf {ending : String} (hl : 3 ≤ ending.length) (hs : '/' ∉ ending.toList)
    (w : Place) (path : String) : EndsIn (placeOf w (path ++ ending)) ending := by
  obtain ⟨front, last, hp⟩ := Text.exists_pieces '/' path
  rw [placeOf, Text.pieces_append hs hp, List.foldl_append, List.foldl_cons, List.foldl_nil,
    lexicalStep_of_length (by rw [String.length_append]; omega)]
  exact ⟨_, last, rfl⟩

theorem EndsIn.ending_eq {p : Place} {a b : String} (ha : EndsIn p a) (hb : EndsIn p b)
    (hla : a ≠ "") (hlb : b ≠ "") : a.toList.getLast? = b.toList.getLast? := by
  obtain ⟨_, n, rfl⟩ := ha
  obtain ⟨_, n', h⟩ := hb
  have hn := congrArg String.toList (List.cons.inj (List.append_inj' h rfl).2).1
  have hne : ∀ {s : String}, s ≠ "" → s.toList ≠ [] := by
    intro s hs he
    exact hs (by rw [← String.ofList_toList (s := s), he])
  have hl := congrArg List.getLast? hn
  rwa [String.toList_append, String.toList_append, List.getLast?_append, List.getLast?_append,
    Option.or_of_isSome (List.getLast?_isSome.2 (hne hla)),
    Option.or_of_isSome (List.getLast?_isSome.2 (hne hlb))] at hl

end Disk

namespace ArtifactStore

open Disk

def recordEnding : String := ".meta.json"

def codeEnding : String := ".js"

def mapEnding : String := ".map"

theorem toList_trimStart_append {n e : String} (he : ∀ c ∈ e.toList.head?, c ≠ '/') :
    Text.trimStart (· = '/') (n ++ e) = Text.trimStart (· = '/') n ++ e := by
  have h : ∀ cs : List Char,
      (cs ++ e.toList).dropWhile (· = '/') = cs.dropWhile (· = '/') ++ e.toList := by
    intro cs
    induction cs with
    | nil =>
      cases hc : e.toList with
      | nil => rfl
      | cons c cs =>
        have hne := he c (by rw [hc]; rfl)
        rw [List.nil_append, List.dropWhile_cons_of_neg (by simpa using hne)]
        rfl
    | cons c cs ih =>
      by_cases hc : c = '/'
      · rw [List.cons_append, List.dropWhile_cons_of_pos (by simpa using hc),
          List.dropWhile_cons_of_pos (by simpa using hc), ih]
      · rw [List.cons_append, List.dropWhile_cons_of_neg (by simpa using hc),
          List.dropWhile_cons_of_neg (by simpa using hc)]
        rfl
  rw [Text.trimStart, Text.trimStart, String.toList_append, h, String.ofList_append,
    String.ofList_toList]

theorem isAbsolute_trimStart_append {n e : String} (he : ∀ c ∈ e.toList.head?, c ≠ '/') :
    FilePath.isAbsolute (Text.trimStart (· = '/') n ++ e) = false := by
  rw [← toList_trimStart_append he, FilePath.isAbsolute, Text.startsWith, Text.trimStart,
    show "/".toList = ['/'] from rfl, String.toList_ofList]
  have hd := List.head?_dropWhile_not (fun c ↦ decide (c = '/')) (n ++ e).toList
  cases hc : (n ++ e).toList.dropWhile (fun c ↦ decide (c = '/')) with
  | nil => rfl
  | cons c cs =>
    rw [hc] at hd
    simp only [List.head?_cons, decide_eq_false_iff_not] at hd
    rw [List.isPrefixOf_cons_cons, beq_eq_false_iff_ne.2 fun h ↦ hd h.symm, Bool.false_and]

theorem path_append (s : ArtifactStore) {n e : String} (he : ∀ c ∈ e.toList.head?, c ≠ '/') :
    s.path (n ++ e) = s.path n ++ e := by
  have hn := isAbsolute_trimStart_append (n := n) (e := "") (fun c hc ↦ by cases hc)
  rw [String.append_empty] at hn
  rw [path, path, FilePath.join, FilePath.join, toList_trimStart_append he,
    isAbsolute_trimStart_append he, hn]
  split
  · rfl
  · split
    · rw [String.append_assoc]
    · simp only [String.append_assoc]

theorem recordPath_eq (s : ArtifactStore) (stem : String) :
    s.recordPath stem = s.path stem ++ recordEnding :=
  s.path_append (by rintro c ⟨⟩; decide)

theorem exists_codePath (s : ArtifactStore) (stem : String) (hash : Option String) :
    ∃ path, s.codePath stem hash = path ++ codeEnding := by
  cases hash with
  | none => exact ⟨_, s.path_append (by rintro c ⟨⟩; decide)⟩
  | some hash => exact ⟨_, s.path_append (by rintro c ⟨⟩; decide)⟩

theorem endsIn_recordPath (s : ArtifactStore) (w : Place) (stem : String) :
    EndsIn (placeOf w (s.recordPath stem)) recordEnding := by
  rw [recordPath_eq]
  exact endsIn_placeOf (by decide) (by decide) w _

theorem endsIn_codePath (s : ArtifactStore) (w : Place) (stem : String) (hash : Option String) :
    EndsIn (placeOf w (s.codePath stem hash)) codeEnding := by
  obtain ⟨path, h⟩ := s.exists_codePath stem hash
  rw [h]
  exact endsIn_placeOf (by decide) (by decide) w path

theorem endsIn_sourceMapPath (w : Place) (path : String) :
    EndsIn (placeOf w (sourceMapPath path)) mapEnding :=
  endsIn_placeOf (by decide) (by decide) w path

theorem not_endsIn_of_ne {p : Place} {a b : String} (ha : EndsIn p a)
    (hne : a ≠ "" ∧ b ≠ "" ∧ a.toList.getLast? ≠ b.toList.getLast?) : ¬EndsIn p b :=
  fun hb ↦ hne.2.2 (ha.ending_eq hb hne.1 hne.2.1)

def StaysBelow (pieces : List String) : Prop :=
  ∀ base, base <+: pieces.foldl lexicalStep base

theorem foldl_lexicalStep_prefix {base : Place} {pieces : List String} (h : ".." ∉ pieces)
    {p : Place} (hp : base <+: p) : base <+: pieces.foldl lexicalStep p := by
  induction pieces generalizing p with
  | nil => exact hp
  | cons piece pieces ih =>
    have hne : piece ≠ ".." := fun he ↦ h (he ▸ List.mem_cons_self)
    refine ih (fun hm ↦ h (List.mem_cons_of_mem piece hm)) ?_
    rw [lexicalStep, if_neg hne]
    split
    · exact hp
    · exact hp.trans (List.prefix_append p [piece])

theorem staysBelow_of_not_mem {pieces : List String} (h : ".." ∉ pieces) : StaysBelow pieces :=
  fun base ↦ foldl_lexicalStep_prefix h (List.prefix_refl base)

theorem exists_foldl_lexicalStep (pieces : List String) : ∃ k names,
    (∀ base : Place, pieces.foldl lexicalStep base = List.dropLast^[k] base ++ names) ∧
      ModuleId.climb [] pieces = names.reverse := by
  induction pieces using List.reverseRecOn with
  | nil => exact ⟨0, [], fun base ↦ (List.append_nil base).symm, rfl⟩
  | append_singleton before piece ih =>
    obtain ⟨k, names, hfold, hnames⟩ := ih
    simp only [List.foldl_append, List.foldl_cons, List.foldl_nil, hfold, ModuleId.climb_append,
      hnames, ModuleId.climb, lexicalStep]
    by_cases hstay : piece = "" ∨ piece = "."
    · simp only [if_pos hstay]
      exact ⟨k, names, fun _ ↦ rfl, rfl⟩
    · by_cases hup : piece = ".."
      · simp only [if_neg hstay, if_pos hup]
        cases names using List.reverseRecOn with
        | nil =>
          refine ⟨k + 1, [], fun base ↦ ?_, rfl⟩
          rw [List.append_nil, List.append_nil, Function.iterate_succ_apply']
        | append_singleton names last =>
          refine ⟨k, names, fun base ↦ ?_, ?_⟩
          · rw [← List.append_assoc, List.dropLast_concat]
          · rw [List.reverse_append, List.reverse_singleton, List.singleton_append, List.tail_cons]
      · simp only [if_neg hstay, if_neg hup]
        refine ⟨k, names ++ [piece], fun base ↦ List.append_assoc _ _ _, ?_⟩
        rw [List.reverse_append, List.reverse_singleton, List.singleton_append]

theorem StaysBelow.foldl_lexicalStep {pieces : List String} (h : StaysBelow pieces) (base : Place) :
    pieces.foldl lexicalStep base = base ++ (ModuleId.climb [] pieces).reverse := by
  obtain ⟨k, names, hfold, hnames⟩ := exists_foldl_lexicalStep pieces
  rw [hfold, hnames, List.reverse_reverse]
  cases k with
  | zero => rfl
  | succ k =>
    -- a step up would lead from each of two directories to the same place
    have hup : ∀ name : String, [name] <+: names := by
      intro name
      have hbelow := h [name]
      rw [hfold, Function.iterate_succ_apply] at hbelow
      change [name] <+: List.dropLast^[k] [] ++ names at hbelow
      rwa [Function.iterate_fixed rfl] at hbelow
    obtain ⟨_, ha⟩ := hup "a"
    obtain ⟨_, hb⟩ := hup "b"
    exact absurd (List.cons.inj (ha.trans hb.symm)).1 (by decide)

theorem pieces_trimStart (name : String) (p : Place) :
    (Text.pieces '/' (Text.trimStart (· = '/') name)).foldl lexicalStep p =
      (Text.pieces '/' name).foldl lexicalStep p := by
  have h : ∀ cs : List Char,
      (((cs.dropWhile fun c ↦ decide (c = '/')).splitOn '/').map String.ofList).foldl lexicalStep p =
        ((cs.splitOn '/').map String.ofList).foldl lexicalStep p := by
    intro cs
    induction cs with
    | nil => rfl
    | cons c cs ih =>
      by_cases hc : c = '/'
      · subst hc
        rw [List.dropWhile_cons_of_pos (by simp), ih, List.splitOn_cons_eq_if_modifyHead,
          if_pos (beq_self_eq_true '/'), List.map_cons, List.foldl_cons]
        rfl
      · rw [List.dropWhile_cons_of_neg (by simpa using hc)]
  rw [Text.pieces, Text.trimStart, String.toList_ofList]
  exact h name.toList

theorem placeOf_path (s : ArtifactStore) (w : Place) (name : String) :
    placeOf w (s.path name) = (Text.pieces '/' name).foldl lexicalStep (placeOf w s.root) := by
  have hn := isAbsolute_trimStart_append (n := name) (e := "") (fun c hc ↦ by cases hc)
  rw [String.append_empty] at hn
  rw [path, FilePath.join, hn, Bool.false_or, ← pieces_trimStart name]
  split
  · next hr =>
    rw [of_decide_eq_true hr, placeOf, ← FilePath.isAbsolute, hn]
    rfl
  · next hr =>
    have hne : s.root ≠ "" := fun he ↦ hr (decide_eq_true he)
    have hlist : s.root.toList ≠ [] := fun he ↦ hne (by
      rw [← String.ofList_toList (s := s.root), he])
    obtain ⟨c, cs, hc⟩ := List.exists_cons_of_ne_nil hlist
    have hstart : ∀ t, Text.startsWith (s.root ++ t) "/" = Text.startsWith s.root "/" := by
      intro t
      rw [Text.startsWith, Text.startsWith, String.toList_append, hc, List.cons_append,
        show "/".toList = ['/'] from rfl, List.isPrefixOf_cons_cons, List.isPrefixOf_cons_cons]
      simp only [List.isPrefixOf_nil_left]
    split
    · next hend =>
      obtain ⟨r, hr⟩ := List.isSuffixOf_iff_suffix.1 hend
      have hroot : s.root = String.ofList r ++ String.singleton '/' := by
        rw [← String.ofList_toList (s := s.root), ← hr, String.ofList_append]
        rfl
      have hp : Text.pieces '/' s.root = Text.pieces '/' (String.ofList r) ++ [""] := by
        have h := Text.pieces_append_sep '/' (String.ofList r) ""
        rwa [String.append_empty, ← hroot, Text.pieces_empty] at h
      rw [placeOf, placeOf, hstart, hp]
      conv_lhs => rw [hroot]
      rw [Text.pieces_append_sep, List.foldl_append, List.foldl_append, ← hroot]
      rfl
    · rw [placeOf, placeOf, String.append_assoc, hstart, ← String.append_assoc]
      change (Text.pieces '/' (s.root ++ String.singleton '/' ++ _)).foldl _ _ = _
      rw [Text.pieces_append_sep, List.foldl_append]

theorem root_prefix_path (s : ArtifactStore) (w : Place) {name : String}
    (h : StaysBelow (Text.pieces '/' name)) : placeOf w s.root <+: placeOf w (s.path name) := by
  rw [placeOf_path]
  exact h _

theorem StaysBelow.append {name ending : String} (h : StaysBelow (Text.pieces '/' name).dropLast)
    (hl : 3 ≤ ending.length) (hs : '/' ∉ ending.toList) :
    StaysBelow (Text.pieces '/' (name ++ ending)) := by
  obtain ⟨front, last, hp⟩ := Text.exists_pieces '/' name
  rw [hp, List.dropLast_concat] at h
  intro base
  rw [Text.pieces_append hs hp, List.foldl_append, List.foldl_cons, List.foldl_nil,
    lexicalStep_of_length (by rw [String.length_append]; omega)]
  exact (h base).trans (List.prefix_append _ _)

theorem root_prefix_append (s : ArtifactStore) (w : Place) {name ending : String}
    (h : StaysBelow (Text.pieces '/' name).dropLast) (hl : 3 ≤ ending.length)
    (hs : '/' ∉ ending.toList) : placeOf w s.root <+: placeOf w (s.path (name ++ ending)) :=
  s.root_prefix_path w (h.append hl hs)

theorem placeOf_recordPath (s : ArtifactStore) (w : Place) {stem : String}
    (h : StaysBelow (Text.pieces '/' stem).dropLast) : placeOf w (s.recordPath stem) =
      placeOf w s.root ++ ModuleId.cleanSegments (stem ++ recordEnding) := by
  have hbelow : StaysBelow (Text.pieces '/' (stem ++ recordEnding)) :=
    h.append (by decide) (by decide)
  rw [recordPath, placeOf_path, ← recordEnding, hbelow.foldl_lexicalStep, ModuleId.cleanSegments]

theorem root_prefix_recordPath (s : ArtifactStore) (w : Place) {stem : String}
    (h : StaysBelow (Text.pieces '/' stem).dropLast) :
    placeOf w s.root <+: placeOf w (s.recordPath stem) :=
  s.root_prefix_append w h (by decide) (by decide)

/-- What stands behind the stem in the name of code is long enough to be no step, and has no slash. -/
theorem exists_nameOf_of_not_mem (stem : String) {hash : Option String}
    (hh : ∀ x ∈ hash, '/' ∉ x.toList) :
    ∃ ending, Module.nameOf stem hash = stem ++ ending ∧ 3 ≤ ending.length ∧
      '/' ∉ ending.toList := by
  cases hash with
  | none => exact ⟨".js", rfl, by decide, by decide⟩
  | some x =>
    refine ⟨"." ++ Digest.hashPrefix x ++ ".js", ?_, ?_, ?_⟩
    · simp only [Module.nameOf, String.append_assoc]
    · have hj : ".js".length = 3 := rfl
      rw [String.length_append]
      omega
    · rw [String.toList_append, String.toList_append]
      intro hm
      rcases List.mem_append.1 hm with hm | hm
      · rcases List.mem_append.1 hm with hm | hm
        · exact absurd hm (by decide)
        · exact hh x rfl (Digest.mem_of_mem_hashPrefix hm)
      · exact absurd hm (by decide)

theorem exists_nameOf (stem : String) {hash : Option String}
    (hh : ∀ x ∈ hash, ∃ text, x = Digest.contentHash text) :
    ∃ ending, Module.nameOf stem hash = stem ++ ending ∧ 3 ≤ ending.length ∧
      '/' ∉ ending.toList := by
  refine exists_nameOf_of_not_mem stem fun x hx ↦ ?_
  obtain ⟨text, rfl⟩ := hh x hx
  exact fun hm ↦ absurd (Digest.ascii_contentHash hm).2 (by decide)

theorem root_prefix_codePath (s : ArtifactStore) (w : Place) {stem : String}
    (h : StaysBelow (Text.pieces '/' stem).dropLast) {hash : Option String}
    (hh : ∀ x ∈ hash, ∃ text, x = Digest.contentHash text) :
    placeOf w s.root <+: placeOf w (s.codePath stem hash) := by
  obtain ⟨ending, he, hl, hs⟩ := exists_nameOf stem hh
  rw [codePath, he]
  exact s.root_prefix_append w h hl hs

theorem root_prefix_sourceMapPath (s : ArtifactStore) (w : Place) {stem : String}
    (h : StaysBelow (Text.pieces '/' stem).dropLast) {hash : Option String}
    (hh : ∀ x ∈ hash, ∃ text, x = Digest.contentHash text) :
    placeOf w s.root <+: placeOf w (sourceMapPath (s.codePath stem hash)) := by
  obtain ⟨ending, he, hl, hs⟩ := exists_nameOf stem hh
  have hmap : s.path (stem ++ ending) ++ ".map" = s.path (stem ++ (ending ++ ".map")) := by
    rw [← s.path_append (by rintro c ⟨⟩; decide), String.append_assoc]
  rw [sourceMapPath, codePath, he, hmap]
  refine s.root_prefix_append w h (by rw [String.length_append]; omega) ?_
  rw [String.toList_append]
  exact fun hm ↦ (List.mem_append.1 hm).elim hs (by decide)

def Puts (path text : String) (w p : Place) (c : ByteArray) : Prop :=
  placeOf w path = p ∧ text.toUTF8 = c

theorem writes_writeText (path text : String) :
    Writes (Puts path text) (change fun disk => disk.writeText path text) :=
  .change fun _ _ h ↦ (writeText_eq_ok h).1

theorem writes_writeFile (path text : String) : Writes (Puts path text) (writeFile path text) := by
  rw [writeFile]
  split
  · refine .bind (.change fun d d' h ↦ ?_) fun _ ↦ writes_writeText path text
    exact (grows_makeDirectories h).mono fun _ _ h ↦ h.elim
  · exact writes_writeText path text

def PutsCode (path code : String) (sourceMap : Option String) (w p : Place) (c : ByteArray) : Prop :=
  Puts path code w p c ∨ ∃ map, sourceMap = some map ∧ Puts (sourceMapPath path) map w p c

theorem writes_writeCode (path code : String) (sourceMap : Option String) :
    Writes (PutsCode path code sourceMap) (writeCode path code sourceMap) := by
  rw [writeCode.eq_def]
  refine ((writes_writeFile path code).mono fun _ _ _ ↦ .inl).bind fun _ ↦ ?_
  cases sourceMap with
  | none => exact .pure ()
  | some map => exact (writes_writeText _ map).mono fun _ _ _ h ↦ .inr ⟨map, rfl, h⟩

theorem writes_write (s : ArtifactStore) (stem record path code : String)
    (sourceMap : Option String) :
    Writes (fun w p c ↦ Puts (s.recordPath stem) record w p c ∨ PutsCode path code sourceMap w p c)
      (s.write stem record path code sourceMap) :=
  ((writes_writeFile _ record).mono fun _ _ _ ↦ .inl).bind fun _ ↦
    (writes_writeCode path code sourceMap).mono fun _ _ _ ↦ .inr

theorem readText?_eq_some {disk : Disk} {path text : String}
    (h : readText? disk path = some text) : disk.readBytes path = .ok text.toUTF8 := by
  rw [readText?, Disk.readText] at h
  cases hb : disk.readBytes path with
  | error cause => rw [hb] at h; cases h
  | ok content =>
    rw [hb] at h
    simp only [bind, Except.bind] at h
    cases hd : Text.Utf8.decode? content with
    | none => rw [hd] at h; cases h
    | some text' =>
      rw [hd] at h
      obtain rfl := Option.some_inj.1 h
      rw [← Text.Utf8.toUTF8_of_decode? hd]

theorem readText_of_readBytes {disk : Disk} {path text : String}
    (h : disk.readBytes path = .ok text.toUTF8) : disk.readText path = .ok text := by
  rw [Disk.readText, h]
  simp only [bind, Except.bind, Text.Utf8.decode?_toUTF8]
  rfl

theorem readText?_of_readBytes {disk : Disk} {path text : String}
    (h : disk.readBytes path = .ok text.toUTF8) : readText? disk path = some text := by
  rw [readText?, readText_of_readBytes h]
  rfl

theorem readText?_of_grows {disk disk' : Disk} {new : Place → ByteArray → Prop}
    (h : Grows new disk disk') {path text : String} (hr : readText? disk path = some text)
    (hn : ∀ c, new (placeOf disk.workingDirectory path) c → text.toUTF8 = c) :
    readText? disk' path = some text := by
  obtain ⟨place, hl, he⟩ := readBytes_eq_ok (readText?_eq_some hr)
  obtain ⟨c, hc, hnew⟩ := h.file he
  have hcontent : c = text.toUTF8 := by
    rcases hnew with rfl | hnew
    · rfl
    · rw [locate_eq_ok hl] at hnew
      exact (hn c hnew).symm
  rw [hcontent] at hc
  exact readText?_of_readBytes (readBytes_of_file (h.locate hl) hc)

theorem readText?_writeText {disk : Disk} {path text : String}
    (h : (disk.perform (change fun d => d.writeText path text)).1 = .ok ()) :
    readText? (disk.perform (change fun d => d.writeText path text)).2 path = some text := by
  rw [perform_change] at h ⊢
  cases hw : disk.writeText path text with
  | error cause => rw [hw] at h; cases h
  | ok disk' => exact readText?_of_readBytes (writeText_eq_ok hw).2

theorem perform_bind_ok {disk : Disk} {a b : Action Unit}
    (h : (disk.perform (a >>= fun _ => b)).1 = .ok ()) :
    (disk.perform a).1 = .ok () ∧ ((disk.perform a).2.perform b).1 = .ok () ∧
      (disk.perform (a >>= fun _ => b)).2 = ((disk.perform a).2.perform b).2 := by
  rw [perform_bind] at h ⊢
  rcases hr : disk.perform a with ⟨⟨cause⟩ | ⟨_⟩, disk'⟩ <;> rw [hr] at h
  · cases h
  · exact ⟨rfl, h, rfl⟩

theorem readText?_writeFile {disk : Disk} {path text : String}
    (h : (disk.perform (writeFile path text)).1 = .ok ()) :
    readText? (disk.perform (writeFile path text)).2 path = some text := by
  rw [writeFile] at h ⊢
  split at h
  · obtain ⟨-, h', he⟩ := perform_bind_ok h
    rw [he]
    exact readText?_writeText h'
  · exact readText?_writeText h

theorem readText?_writeCode {disk : Disk} {path code : String} {sourceMap : Option String}
    (hend : EndsIn (placeOf disk.workingDirectory path) codeEnding)
    (h : (disk.perform (writeCode path code sourceMap)).1 = .ok ()) :
    readText? (disk.perform (writeCode path code sourceMap)).2 path = some code := by
  rw [writeCode.eq_def] at h ⊢
  obtain ⟨hfile, hmap, he⟩ := perform_bind_ok h
  have hread := readText?_writeFile hfile
  have hwd := (writes_writeFile path code disk).workingDirectory
  rw [he]
  cases sourceMap with
  | none => exact hread
  | some map =>
    refine readText?_of_grows (writes_writeText _ map _) hread fun c hc ↦ ?_
    rw [hwd] at hc
    have hmapEnd := hc.1 ▸ endsIn_sourceMapPath disk.workingDirectory path
    exact absurd hend (not_endsIn_of_ne hmapEnd (by decide))

theorem readText?_write {s : ArtifactStore} {disk : Disk} {stem record path code : String}
    {sourceMap : Option String} (hend : EndsIn (placeOf disk.workingDirectory path) codeEnding)
    (h : (disk.perform (s.write stem record path code sourceMap)).1 = .ok ()) :
    readText? (disk.perform (s.write stem record path code sourceMap)).2 path = some code := by
  rw [write] at h ⊢
  obtain ⟨-, hcode, he⟩ := perform_bind_ok h
  rw [he]
  refine readText?_writeCode ?_ hcode
  rw [(writes_writeFile _ record disk).workingDirectory]
  exact hend

theorem readText?_recordPath {s : ArtifactStore} {disk : Disk} {stem stem' record code : String}
    {hash sourceMap : Option String}
    (h : (disk.perform (s.write stem record (s.codePath stem' hash) code sourceMap)).1 = .ok ()) :
    readText? (disk.perform (s.write stem record (s.codePath stem' hash) code sourceMap)).2
      (s.recordPath stem) = some record := by
  rw [write] at h ⊢
  obtain ⟨hrecord, -, he⟩ := perform_bind_ok h
  rw [he]
  refine readText?_of_grows (writes_writeCode _ code sourceMap _) (readText?_writeFile hrecord)
    fun c hc ↦ ?_
  have hend := s.endsIn_recordPath
    (disk.perform (writeFile (s.recordPath stem) record)).2.workingDirectory stem
  rcases hc with ⟨hp, -⟩ | ⟨map, -, hp, -⟩
  · rw [← hp] at hend
    exact absurd (s.endsIn_codePath _ _ _) (not_endsIn_of_ne hend (by decide))
  · rw [← hp] at hend
    exact absurd (endsIn_sourceMapPath _ _) (not_endsIn_of_ne hend (by decide))

section Flat

variable {a b : String} {disk : Disk}

theorem parent?_join (ha : IsName a) (hb : IsName b) :
    FilePath.parent? (a ++ "/" ++ b) = some a := by
  have hname : ∀ {n}, IsName n → FilePath.component? n = some (.named n) := fun {n} h ↦ by
    rw [FilePath.component?, if_neg (not_or.2 ⟨h.special.1, h.special.2.1⟩), if_neg h.special.2.2]
  have hcomponents : FilePath.components (a ++ "/" ++ b) = [.named a, .named b] := by
    rw [FilePath.components, ha.pieces_join hb]
    split
    · next he => exact absurd (List.cons.inj he).1 ha.special.1
    · next he => exact absurd (List.cons.inj he).1 ha.special.2.1
    · simp only [List.filterMap_cons, hname ha, hname hb, List.filterMap_nil]
  have htrim : ∀ {n}, IsName n → ∀ ns : List String,
      FilePath.trimPieces (ns ++ [n]) = ns ++ [n] := fun {n} h ns ↦ by
    rw [FilePath.trimPieces, List.reverse_append, List.reverse_singleton, List.singleton_append,
      List.dropWhile_cons_of_neg (by simp [h.special.1, h.special.2.1]), List.reverse_cons,
      List.reverse_reverse]
  rw [FilePath.parent?, hcomponents]
  simp only [List.getLast?_cons_cons, List.getLast?_singleton, ha.pieces_join hb]
  split
  · next he => exact absurd (List.cons.inj he).1 ha.special.1
  · next he => exact absurd (List.cons.inj he).1 ha.special.2.1
  · rw [show [a, b] = [a] ++ [b] from rfl, htrim hb, List.dropLast_concat,
      show [a] = [] ++ [a] from rfl, htrim ha]
    rfl

structure Flat (a : String) (disk : Disk) : Prop where
  base : disk.entry? disk.workingDirectory = some .directory
  root : disk.entry? (disk.workingDirectory ++ [a]) = some .directory
  names : ∀ b, disk.entry? (disk.workingDirectory ++ [a, b]) ≠ some .directory

theorem flat_of_entries (hw : disk.workingDirectory = []) (hr : disk.entry? [a] = some .directory)
    (hn : ∀ e ∈ disk.entries, e.1.head? = some a → e.1 = [a]) : Flat a disk := by
  refine ⟨by rw [hw, Disk.entry?_nil], by rw [hw]; exact hr, fun b hb ↦ ?_⟩
  rw [hw] at hb
  have hplace := hn _ (Disk.mem_entries (List.cons_ne_nil a [b]) hb) rfl
  cases hplace

theorem Flat.writeText (h : Flat a disk) (ha : IsName a) (hb : IsName b) (text : String) :
    ∃ disk', disk.writeText (a ++ "/" ++ b) text = .ok disk' ∧ Flat a disk' := by
  refine ⟨disk.put (disk.workingDirectory ++ [a, b]) (.file text.toUTF8), ?_, ?_, ?_, ?_⟩
  · have hn := h.names b
    rw [Disk.writeText, writeBytes, ha.locate_join hb h.root h.base]
    simp only [bind, Except.bind]
    rfl
  · change Disk.entry? (disk.put _ _) disk.workingDirectory = _
    rw [entry?_put_of_ne, h.base]
    exact fun he ↦ by simpa using congrArg List.length he
  · change Disk.entry? (disk.put _ _) (disk.workingDirectory ++ [a]) = _
    rw [entry?_put_of_ne, h.root]
    exact fun he ↦ by simpa using congrArg List.length he
  · intro c
    change Disk.entry? (disk.put _ _) (disk.workingDirectory ++ [a, c]) ≠ _
    by_cases hc : c = b
    · rw [hc, entry?_put_self (by simp)]
      exact fun he ↦ by cases he
    · rw [entry?_put_of_ne (by simpa using hc)]
      exact h.names c

theorem Flat.writeFile (h : Flat a disk) (ha : IsName a) (hb : IsName b) (text : String) :
    (disk.perform (writeFile (a ++ "/" ++ b) text)).1 = .ok () ∧
      Flat a (disk.perform (writeFile (a ++ "/" ++ b) text)).2 := by
  have hmake : disk.makeDirectories a = .ok disk := by
    rw [makeDirectories, if_neg ha.special.1, ha.checkPath, ha.start]
    simp only [bind, Except.bind, makeAlong, ha.step h.base, h.root]
  obtain ⟨disk', hw, hf⟩ := h.writeText ha hb text
  rw [ArtifactStore.writeFile, parent?_join ha hb, perform_bind, perform_change, hmake]
  dsimp only
  rw [perform_change, hw]
  exact ⟨rfl, hf⟩

theorem Flat.writeCode (h : Flat a disk) (ha : IsName a) (hb : IsName b)
    (hm : IsName (b ++ mapEnding)) (code : String) (sourceMap : Option String) :
    (disk.perform (writeCode (a ++ "/" ++ b) code sourceMap)).1 = .ok () ∧
      Flat a (disk.perform (writeCode (a ++ "/" ++ b) code sourceMap)).2 := by
  obtain ⟨hok, hf⟩ := h.writeFile ha hb code
  rw [writeCode.eq_def, perform_bind]
  generalize disk.perform (ArtifactStore.writeFile (a ++ "/" ++ b) code) = p at hok hf
  obtain ⟨r, disk'⟩ := p
  obtain rfl : r = .ok () := hok
  dsimp only
  cases sourceMap with
  | none => exact ⟨rfl, hf⟩
  | some map =>
    obtain ⟨disk'', hw, hf'⟩ := hf.writeText ha hm map
    have hpath : sourceMapPath (a ++ "/" ++ b) = a ++ "/" ++ (b ++ mapEnding) :=
      String.append_assoc
    dsimp only at hw ⊢
    rw [perform_change, hpath, hw]
    exact ⟨rfl, hf'⟩

theorem Flat.write (h : Flat a disk) (ha : IsName a) (hb : IsName b)
    (hm : IsName (b ++ mapEnding)) {s : ArtifactStore} {stem name : String}
    (hs : s.recordPath stem = a ++ "/" ++ name) (hn : IsName name) (record code : String)
    (sourceMap : Option String) :
    (disk.perform (s.write stem record (a ++ "/" ++ b) code sourceMap)).1 = .ok () ∧
      Flat a (disk.perform (s.write stem record (a ++ "/" ++ b) code sourceMap)).2 := by
  obtain ⟨hok, hf⟩ := h.writeFile ha hn record
  rw [ArtifactStore.write, hs, perform_bind]
  generalize disk.perform (ArtifactStore.writeFile (a ++ "/" ++ name) record) = p at hok hf
  obtain ⟨r, disk'⟩ := p
  obtain rfl : r = .ok () := hok
  exact hf.writeCode ha hb hm code sourceMap

end Flat

end ArtifactStore
end SiteCompiler
