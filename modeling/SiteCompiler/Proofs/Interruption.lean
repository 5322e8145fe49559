import SiteCompiler.Proofs.ArtifactStore
import SiteCompiler.Proofs.Json.Truncation
import SiteCompiler.Proofs.Text.Utf8

namespace SiteCompiler

namespace ModuleMeta

open ArtifactStore (recordText)
open Json.Document (isSpace)
open Text.Utf8 (decodeWith)

variable {m : ModuleMeta}

theorem toList_text (m : ModuleMeta) : ∃ cs, m.text.toList = '\x7b' :: (cs ++ ['\x7d']) := by
  rw [text, Json.pretty, String.toList_ofList, toJson, Json.prettyChars, List.cons_append,
    List.cons_append]
  exact ⟨_, rfl⟩

theorem last_of_text {front back : String} (h : m.text = front ++ back) (hb : back ≠ "") :
    '\x7d' ∈ back.toList := by
  obtain ⟨cs, hcs⟩ := m.toList_text
  have hlast : m.text.toList.getLast? = some '\x7d' := by
    rw [hcs, ← List.cons_append, List.getLast?_concat]
  have hne : back.toList ≠ [] := fun he ↦ hb (by rw [← String.ofList_toList (s := back), he])
  rw [h, String.toList_append, List.getLast?_append_of_ne_nil _ hne] at hlast
  exact List.mem_of_getLast? hlast

theorem read?_beginning {front back : String} (h : m.text = front ++ back) (hb : back ≠ "") :
    read? front = none := by
  rw [read?, Option.bind_eq_none_iff]
  intro d hd
  exfalso
  obtain ⟨cs, hcs⟩ := m.toList_text
  rw [h, String.toList_append] at hcs
  rcases hf : front.toList with _ | ⟨c, left⟩
  · obtain rfl : front = "" := by rw [← String.ofList_toList (s := front), hf]
    cases hd
  · rw [hf, List.cons_append] at hcs
    obtain rfl := (List.cons.inj hcs).1
    have hwhole : Json.Document.read? (front ++ back) = some m.recordDocument := by
      rw [← h]
      exact Json.read?_pretty m.isExact_toJson
    have hspace := Json.Document.isSpace_of_read?_append hf hd hwhole '\x7d' (last_of_text h hb)
    exact absurd hspace (by decide)

theorem read?_of_last {text : String} {cs : List Char} (hs : text.toList = '\x7b' :: cs)
    (hl : ∃ c ∈ text.toList.getLast?, c ≠ '\x7d' ∧ isSpace c = false) : read? text = none := by
  rw [read?, Option.bind_eq_none_iff]
  intro d hd
  exfalso
  obtain ⟨c, hc, hbrace, hspace⟩ := hl
  rcases Json.Document.last_of_read? hs hd c hc with rfl | h
  · exact hbrace rfl
  · rw [hspace] at h
    cases h

theorem isSpace_ofNat {n : Nat} (hn : 0x80 ≤ n) :
    Char.ofNat n ≠ '\x7d' ∧ isSpace (Char.ofNat n) = false := by
  have hne : ∀ c : Char, 0 < c.toNat → c.toNat < 0x80 → Char.ofNat n ≠ c := by
    rintro c hpos hc rfl
    by_cases hv : n.isValidChar
    · rw [Char.toNat_ofNat, if_pos hv] at hc
      omega
    · rw [Char.toNat_ofNat, if_neg hv] at hpos
      exact absurd hpos (Nat.lt_irrefl 0)
  refine ⟨hne _ (by decide) (by decide), ?_⟩
  simp [isSpace, hne]

theorem toList_recordText_extract {n : Nat}
    (hd : Text.Utf8.decode? (m.text.toUTF8.extract 0 n) = none)
    (hlast : ∃ b ∈ (m.text.toUTF8.extract 0 n).toList.getLast?, 0x80 ≤ b) :
    (∃ cs, (recordText (m.text.toUTF8.extract 0 n)).toList = '\x7b' :: cs) ∧
      ∃ c ∈ (recordText (m.text.toUTF8.extract 0 n)).toList.getLast?,
        c ≠ '\x7d' ∧ isSpace c = false := by
  rw [recordText, hd, Option.getD_none, String.toList_ofList]
  have hQ : ∃ c ∈ "\\udc00".toList.getLast?, c ≠ '\x7d' ∧ isSpace c = false := ⟨'0', rfl, by decide⟩
  refine ⟨?_, Text.Utf8.last_decodeWith hQ (fun _ ↦ isSpace_ofNat) _ hlast⟩
  obtain ⟨cs, hcs⟩ := m.toList_text
  have hbytes := Text.Utf8.toList_extract m.text n
  rw [← Text.Utf8.toList_eq_data, hcs, List.flatMap_cons] at hbytes
  cases n with
  | zero =>
    obtain ⟨b, hb, -⟩ := hlast
    rw [hbytes] at hb
    cases hb
  | succ n =>
    rw [hbytes]
    exact ⟨_, Text.Utf8.decodeWith_ascii (by decide) _⟩

theorem read?_extract {n : Nat} (hn : n < m.text.toUTF8.size) :
    read? (recordText (m.text.toUTF8.extract 0 n)) = none := by
  rcases Text.Utf8.extract_toUTF8 m.text (Nat.le_of_lt hn) with ⟨front, back, hs, he⟩ | ⟨hd, hlast⟩
  · rw [he, recordText, Text.Utf8.decode?_toUTF8, Option.getD_some]
    refine read?_beginning hs ?_
    rintro rfl
    rw [String.append_empty] at hs
    have hsize := congrArg ByteArray.size he
    rw [ByteArray.size_extract, hs] at hsize
    rw [hs] at hn
    omega
  · obtain ⟨⟨cs, hcs⟩, hl⟩ := toList_recordText_extract hd hlast
    exact read?_of_last hcs hl

theorem eq_of_read?_extract {n : Nat} {found : ModuleMeta}
    (h : read? (recordText (m.text.toUTF8.extract 0 n)) = some found) : found = m := by
  rcases Nat.lt_or_ge n m.text.toUTF8.size with hn | hn
  · rw [read?_extract hn] at h
    cases h
  · rw [Text.Utf8.extract_of_size_le hn, recordText, Text.Utf8.decode?_toUTF8, Option.getD_some] at h
    exact eq_of_read?_text h

end ModuleMeta

theorem Text.Utf8.prefix_of_extract {s t : String} {n : Nat}
    (h : s.toUTF8.extract 0 n = t.toUTF8) : t.toList <+: s.toList := by
  rcases Nat.lt_or_ge s.toUTF8.size n with hn | hn
  · rw [extract_of_size_le (Nat.le_of_lt hn)] at h
    rw [toUTF8_inj h]
  · rcases extract_toUTF8 s hn with ⟨front, back, hs, he⟩ | ⟨hd, -⟩
    · rw [h] at he
      rw [toUTF8_inj he, hs, String.toList_append]
      exact List.prefix_append _ _
    · rw [h, decode?_toUTF8] at hd
      cases hd

namespace Disk

variable {files : List (String × String)} {d d₁ d' : Disk}

/-- What can be left when texts are written to files one after the other and that breaks off:
directories may have been made for the next file, and only its first octets may be there. -/
inductive Interrupted : List (String × String) → Disk → Disk → Prop
  | untouched {files : List (String × String)} {d d' : Disk} (made : Grows (fun _ _ ↦ False) d d') :
      Interrupted files d d'
  | torn {files : List (String × String)} {d d₁ d' : Disk} {path text : String} (n : Nat)
      (made : Grows (fun _ _ ↦ False) d d₁)
      (written : d₁.writeBytes path (text.toUTF8.extract 0 n) = .ok d') :
      Interrupted ((path, text) :: files) d d'
  | next {files : List (String × String)} {d d₁ d₂ d' : Disk} {path text : String}
      (made : Grows (fun _ _ ↦ False) d d₁) (written : d₁.writeText path text = .ok d₂)
      (rest : Interrupted files d₂ d') : Interrupted ((path, text) :: files) d d'

theorem Interrupted.of_made (made : Grows (fun _ _ ↦ False) d d₁) (h : Interrupted files d₁ d') :
    Interrupted files d d' := by
  cases h with
  | untouched made' => exact .untouched (made.trans made')
  | torn n made' written => exact .torn n (made.trans made') written
  | next made' written rest => exact .next (made.trans made') written rest

theorem Interrupted.head {path text : String} (h : Interrupted ((path, text) :: files) d d') :
    Grows (fun _ _ ↦ False) d d' ∨ ∃ n d₁ d₂, Grows (fun _ _ ↦ False) d d₁ ∧
      d₁.writeBytes path (text.toUTF8.extract 0 n) = .ok d₂ ∧ Interrupted files d₂ d' := by
  cases h with
  | untouched made => exact .inl made
  | torn n made written => exact .inr ⟨n, _, _, made, written, .untouched (.refl _ _)⟩
  | next made written rest =>
    refine .inr ⟨text.toUTF8.size, _, _, made, ?_, rest⟩
    rw [Text.Utf8.extract_of_size_le (Nat.le_refl _)]
    exact written

/-- What is new on the disk are first octets of the texts, in files that can be reached. -/
theorem Interrupted.grows (h : Interrupted files d d') : Grows (fun p c ↦ ∃ path text n,
    (path, text) ∈ files ∧ d'.locate path = .ok p ∧ text.toUTF8.extract 0 n = c) d d' := by
  induction files generalizing d with
  | nil =>
    cases h with
    | untouched made => exact made.mono fun _ _ h ↦ h.elim
  | cons file files ih =>
    obtain ⟨path, text⟩ := file
    rcases h.head with made | ⟨n, d₁, d₂, made, written, rest⟩
    · exact made.mono fun _ _ h ↦ h.elim
    · obtain ⟨hg, hr⟩ := writeBytes_eq_ok written
      obtain ⟨place, hl, -⟩ := readBytes_eq_ok hr
      have hrest := ih rest
      refine (made.mono fun _ _ h ↦ h.elim).trans ((hg.mono ?_).trans (hrest.mono ?_))
      · rintro p c ⟨rfl, rfl⟩
        refine ⟨path, text, n, List.mem_cons_self, ?_, rfl⟩
        rw [hrest.locate hl, locate_eq_ok hl, hg.workingDirectory]
      · rintro p c ⟨path, text, n, hm, hl, hc⟩
        exact ⟨path, text, n, List.mem_cons_of_mem _ hm, hl, hc⟩

def Completes (files : List (String × String)) (a : Action Unit) : Prop :=
  ∀ d, Interrupted files d (d.perform a).2

theorem completes_pure : Completes [] (pure ()) :=
  fun d ↦ .untouched (.refl _ d)

variable {b : Action Unit} {path text : String}

theorem Completes.make (h : Completes files b) (path : String) :
    Completes files ((change fun d ↦ d.makeDirectories path) >>= fun _ ↦ b) := by
  intro d
  rw [perform_bind, perform_change]
  cases hm : d.makeDirectories path with
  | error cause => exact .untouched (.refl _ d)
  | ok d₁ => exact (h d₁).of_made (grows_makeDirectories hm)

theorem Completes.write (h : Completes files b) (path text : String) :
    Completes ((path, text) :: files) ((change fun d ↦ d.writeText path text) >>= fun _ ↦ b) := by
  intro d
  rw [perform_bind, perform_change]
  cases hw : d.writeText path text with
  | error cause => exact .untouched (.refl _ d)
  | ok d₁ => exact .next (.refl _ d) hw (h d₁)

section Beside

variable {base front last left right : String} {p q : Place}

theorem exists_start (d : Disk) (base : String) : ∃ place front last, ∀ ending,
    '/' ∉ ending.toList → ending ≠ "" → d.start (base ++ ending) = (place, front ++ [last ++ ending]) := by
  obtain ⟨front, last, hp⟩ := Text.exists_pieces '/' base
  have hpieces : ∀ ending, '/' ∉ ending.toList →
      Text.pieces '/' (base ++ ending) = front ++ [last ++ ending] :=
    fun ending hs ↦ Text.pieces_append hs hp
  rcases front with _ | ⟨first, front⟩
  · refine ⟨d.workingDirectory, [], last, fun ending hs hne ↦ ?_⟩
    rw [start, hpieces ending hs]
    split
    · next he =>
      have hlen := congrArg String.length (List.cons.inj he).1
      rw [String.length_append] at hlen
      exact absurd (String.length_eq_zero_iff.1 (Nat.eq_zero_of_add_eq_zero_left hlen)) hne
    · rfl
  · by_cases hf : first = ""
    · subst hf
      refine ⟨[], front, last, fun ending hs _ ↦ ?_⟩
      rw [start, hpieces ending hs]
      rfl
    · refine ⟨d.workingDirectory, first :: front, last, fun ending hs _ ↦ ?_⟩
      rw [start, hpieces ending hs]
      split
      · next he => exact absurd (List.cons.inj he).1 hf
      · rfl

/-- Beside a file that can be reached, another one can be reached before directories are made if it
can be reached afterwards. -/
theorem locate_beside (made : Grows (fun _ _ ↦ False) d d') (hl : '/' ∉ left.toList ∧ left ≠ "")
    (hr : '/' ∉ right.toList ∧ right ≠ "") (hp : d.locate (base ++ left) = .ok p)
    (hq : d'.locate (base ++ right) = .ok q) : d.locate (base ++ right) = .ok q := by
  obtain ⟨place, front, last, hstart⟩ := d.exists_start base
  rw [locate] at hp hq ⊢
  split at hq
  · cases hq
  · next hne =>
    rw [if_neg hne]
    split at hp
    · cases hp
    · cases hcl : checkPath (base ++ left) with
      | error cause => rw [hcl] at hp; cases hp
      | ok _ =>
        cases hcr : checkPath (base ++ right) with
        | error cause => rw [hcr] at hq; cases hq
        | ok _ =>
          rw [hcl, hstart left hl.1 hl.2] at hp
          rw [hcr, made.start, hstart right hr.1 hr.2] at hq
          rw [hstart right hr.1 hr.2]
          simp only [bind, Except.bind, List.foldlM_append, List.foldlM_cons, List.foldlM_nil]
            at hp hq ⊢
          cases hf : front.foldlM d.step place with
          | error cause => rw [hf] at hp; cases hp
          | ok directory =>
            rw [hf] at hp
            rw [made.foldlM_step hf] at hq
            dsimp only at hp hq ⊢
            have hdir : d.entry? directory = some .directory := by
              cases hs : d.step directory (last ++ left) with
              | error cause => rw [hs] at hp; cases hp
              | ok next => exact (step_eq_ok hs).1
            rwa [step, made.directories directory hdir, ← hdir, ← step] at hq

theorem readText?_beside (made : Grows (fun _ _ ↦ False) d d')
    (hl : '/' ∉ left.toList ∧ left ≠ "") (hr : '/' ∉ right.toList ∧ right ≠ "")
    (hp : d.locate (base ++ left) = .ok p) :
    ArtifactStore.readText? d' (base ++ right) = ArtifactStore.readText? d (base ++ right) := by
  ext text
  constructor
  · intro h
    obtain ⟨q, hq, hc⟩ := readBytes_eq_ok (ArtifactStore.readText?_eq_some h)
    have hq := locate_beside made hl hr hp hq
    rcases made.origin q _ hc with hc | hn
    · exact ArtifactStore.readText?_of_readBytes (readBytes_of_file hq hc)
    · exact hn.elim
  · exact fun h ↦ ArtifactStore.readText?_of_grows made h fun _ hn ↦ hn.elim

end Beside

end Disk

namespace ArtifactStore

open Disk

variable {s : ArtifactStore} {d d' : Disk}

def codeFiles (path code : String) (sourceMap : Option String) : List (String × String) :=
  (path, code) :: (sourceMap.map fun map ↦ (sourceMapPath path, map)).toList

/-- The files of a module, in the order in which they are written. -/
def filesOf (s : ArtifactStore) (m : Module) : List (String × String) :=
  (s.recordPath m.stem, m.record.text) :: codeFiles m.file m.code m.sourceMap

theorem completes_writeFile_bind {files : List (String × String)} {b : Action Unit}
    (h : Completes files b) (path text : String) :
    Completes ((path, text) :: files) (writeFile path text >>= fun _ ↦ b) := by
  rw [writeFile]
  split
  · rw [bind_assoc]
    exact (h.write path text).make _
  · exact h.write path text

theorem completes_writeCode (path code : String) (sourceMap : Option String) :
    Completes (codeFiles path code sourceMap) (writeCode path code sourceMap) := by
  rw [writeCode.eq_def]
  cases sourceMap with
  | none => exact completes_writeFile_bind completes_pure path code
  | some map =>
    have h := completes_pure.write (sourceMapPath path) map
    rw [bind_pure_unit] at h
    exact completes_writeFile_bind h path code

theorem completes_write (s : ArtifactStore) (m : Module) :
    Completes (s.filesOf m) (s.write m.stem m.record.text m.file m.code m.sourceMap) :=
  completes_writeFile_bind (completes_writeCode m.file m.code m.sourceMap) _ _

/-- What the program makes of a disk in the course of time: it writes modules, and code under other
hashes, and each time it may be interrupted. -/
inductive Evolves (s : ArtifactStore) (d : Disk) : Disk → Prop
  | refl : Evolves s d d
  | write {d' d'' : Disk} {m : Module} (before : Evolves s d d')
      (file : m.file = s.codePath m.stem m.nameHash) (left : Interrupted (s.filesOf m) d' d'') :
      Evolves s d d''
  | writeUnder {d' d'' : Disk} {id hash code : String} {sourceMap : Option String}
      (before : Evolves s d d') (left : Interrupted
        (codeFiles (s.codePath (ModuleId.stem id) (some hash)) code sourceMap) d' d'') :
      Evolves s d d''

def recordPlace (s : ArtifactStore) (d : Disk) (id : String) : Place :=
  placeOf d.workingDirectory (s.recordPath (ModuleId.stem id))

/-- A record of the module that lies where it belongs can be reached along its path. -/
def Reachable (s : ArtifactStore) (id : String) (d : Disk) : Prop :=
  ∀ content found, d.entry? (s.recordPlace d id) = some (.file content) →
    ModuleMeta.read? (recordText content) = some found → found.sourceFile = id →
      ∃ p, d.locate (s.recordPath (ModuleId.stem id)) = .ok p

theorem not_endsIn_codeFiles {stem : String} {hash : Option String} {code path text : String}
    {sourceMap : Option String} (h : (path, text) ∈ codeFiles (s.codePath stem hash) code sourceMap)
    (w : Place) : ¬EndsIn (placeOf w path) recordEnding := by
  rcases List.mem_cons.1 h with he | h
  · rw [(Prod.mk.inj he).1]
    exact not_endsIn_of_ne (s.endsIn_codePath w stem hash) (by decide)
  · obtain ⟨map, -, he⟩ := Option.map_eq_some_iff.1 (Option.mem_toList.1 h)
    rw [← (Prod.mk.inj he).1]
    exact not_endsIn_of_ne (endsIn_sourceMapPath w _) (by decide)

theorem Reachable.interrupted {files : List (String × String)} {id : String}
    (hd : Reachable s id d) (h : Interrupted files d d')
    (hfiles : ∀ path text, (path, text) ∈ files →
      (∃ m : Module, path = s.recordPath m.stem ∧ text = m.record.text) ∨
        ∀ w, ¬EndsIn (placeOf w path) recordEnding) : Reachable s id d' := by
  intro content found hc hread hid
  have hplace : s.recordPlace d' id = s.recordPlace d id := by
    rw [recordPlace, h.grows.workingDirectory, recordPlace]
  rcases h.grows.origin _ content hc with hc | ⟨path, text, n, hm, hl, rfl⟩
  · rw [hplace] at hc
    obtain ⟨p, hp⟩ := hd content found hc hread hid
    exact ⟨p, h.grows.locate hp⟩
  · rcases hfiles path text hm with ⟨m, hpath, htext⟩ | hends
    · rw [htext] at hread
      rw [ModuleMeta.eq_of_read?_extract hread] at hid
      have hstem : m.stem = ModuleId.stem id := congrArg ModuleId.stem hid
      rw [hpath, hstem] at hl
      exact ⟨_, hl⟩
    · refine absurd ?_ (hends d'.workingDirectory)
      rw [← locate_eq_ok hl]
      exact s.endsIn_recordPath _ _

theorem Reachable.evolves {id : String} (hd : Reachable s id d) (h : Evolves s d d') :
    Reachable s id d' := by
  induction h with
  | refl => exact hd
  | @write d' d'' m _ file left ih =>
    refine ih.interrupted left fun path text hm ↦ ?_
    rcases List.mem_cons.1 hm with he | hm
    · exact .inl ⟨m, (Prod.mk.inj he).1, (Prod.mk.inj he).2⟩
    · rw [file] at hm
      exact .inr (not_endsIn_codeFiles hm)
  | writeUnder _ left ih =>
    exact ih.interrupted left fun path text hm ↦ .inr (not_endsIn_codeFiles hm)

end ArtifactStore
end SiteCompiler
