import SiteCompiler.Proofs.Disk
import SiteCompiler.Proofs.Specifier

namespace SiteCompiler.ModuleId

open Disk (Place lexicalStep placeOf)

/-- A path from the top whose segments all stand for what is called so; the top itself has none. -/
structure IsClean (path : String) : Prop where
  starts : Text.startsWith path "/" = true
  named : path = "/" ∨ ∀ s ∈ (Text.pieces '/' path).tail, IsSegment s

def LiesIn (id directory : String) : Prop :=
  normalizeLocal (parentDirectory id) = directory

section Clean

variable {path : String} {names : List String}

theorem isClean_rooted (h : ∀ s ∈ names, IsSegment s) : IsClean (rooted names) := by
  refine ⟨Text.startsWith_iff.2 ⟨_, rfl⟩, ?_⟩
  by_cases hne : names = []
  · subst hne
    exact .inl rfl
  · rw [pieces_rooted hne h]
    exact .inr h

theorem isClean_normalizeLocal (path : String) : IsClean (normalizeLocal path) := by
  apply isClean_rooted
  intro s hs
  exact isSegment_of_mem_cleanSegments hs

theorem exists_rooted_of_isClean (h : IsClean path) :
    ∃ names, path = rooted names ∧ ∀ s ∈ names, IsSegment s := by
  obtain ⟨hstarts, hnamed⟩ := h
  obtain ⟨rest, rfl⟩ := Text.startsWith_iff.1 hstarts
  have hpieces : Text.pieces '/' ("/" ++ rest) = "" :: Text.pieces '/' rest :=
    Text.pieces_append_sep '/' "" rest
  rw [hpieces, List.tail_cons] at hnamed
  rcases hnamed with htop | hnames
  · exact ⟨[], htop, by simp⟩
  · exact ⟨Text.pieces '/' rest, congrArg ("/" ++ ·) (Text.intercalate_pieces '/' rest).symm, hnames⟩

theorem normalizeLocal_eq_self_iff : normalizeLocal path = path ↔ IsClean path := by
  constructor
  · intro h
    rw [← h]
    exact isClean_normalizeLocal path
  · intro h
    obtain ⟨names, rfl, hnames⟩ := exists_rooted_of_isClean h
    exact normalizeLocal_rooted hnames

theorem cleanSegments_normalizeLocal (path : String) :
    cleanSegments (normalizeLocal path) = cleanSegments path :=
  cleanSegments_rooted fun _ ↦ isSegment_of_mem_cleanSegments

theorem normalizeLocal_spelled (h : ∀ s ∈ names, IsSegment s) :
    normalizeLocal (spelled names) = rooted names := by
  have hslash : ∀ s ∈ names, '/' ∉ s.toList := by
    intro s hs
    exact (h s hs).2.2.2
  rw [normalizeLocal, cleanSegments, pieces_spelled hslash, climb, if_pos (.inl rfl),
    climb_segments h]
  simp

end Clean

section Following

-- a directory lists its names from the innermost one, and a place from the top
theorem foldl_lexicalStep (names : List String) (place : Place) :
    names.foldl lexicalStep place = (climb place.reverse names).reverse := by
  induction names generalizing place with
  | nil => simp [climb]
  | cons name names ih =>
    rw [List.foldl_cons, ih, lexicalStep, climb]
    split
    · rfl
    · split
      · simp
      · simp

theorem foldl_lexicalStep_segments {names : List String} (h : ∀ s ∈ names, IsSegment s)
    (place : Place) : names.foldl lexicalStep place = place ++ names := by
  rw [foldl_lexicalStep, climb_segments h]
  simp

theorem placeOf_top (path : String) : placeOf [] path = cleanSegments path := by
  rw [placeOf, ite_self, foldl_lexicalStep]
  rfl

theorem cleanSegments_append (a b : String) :
    cleanSegments (a ++ "/" ++ b) = (Text.pieces '/' b).foldl lexicalStep (cleanSegments a) := by
  have hpieces : Text.pieces '/' (a ++ "/" ++ b) = Text.pieces '/' a ++ Text.pieces '/' b :=
    Text.pieces_append_sep '/' a b
  rw [foldl_lexicalStep, cleanSegments, hpieces, climb_append, cleanSegments, List.reverse_reverse]

theorem normalizeLocal_append (a b : String) :
    normalizeLocal (a ++ "/" ++ b) = normalizeLocal (normalizeLocal a ++ "/" ++ b) := by
  simp only [normalizeLocal, cleanSegments_append]
  rw [← normalizeLocal, cleanSegments_normalizeLocal]

theorem foldl_lexicalStep_up (place : Place) (k : ℕ) :
    (List.replicate k "..").foldl lexicalStep place = place.take (place.length - k) := by
  rw [foldl_lexicalStep, climb_up]
  simp [List.reverse_drop]

theorem pieces_up (k : ℕ) (b : String) :
    Text.pieces '/' ("/".intercalate (List.replicate k ".." ++ [b])) =
      List.replicate k ".." ++ Text.pieces '/' b := by
  have hne : List.replicate k ".." ++ [b] ≠ [] := by simp
  have hup : Text.pieces '/' ".." = [".."] := rfl
  have hpieces : Text.pieces '/' ("/".intercalate (List.replicate k ".." ++ [b])) =
      (List.replicate k ".." ++ [b]).flatMap (Text.pieces '/') := Text.pieces_intercalate_flatMap hne
  rw [hpieces, List.flatMap_append, List.flatMap_singleton, List.flatMap_replicate, hup]
  simp

theorem normalizeLocal_up (a b : String) (k : ℕ) :
    normalizeLocal (a ++ "/" ++ "/".intercalate (List.replicate k ".." ++ [b])) =
      normalizeLocal (rooted ((cleanSegments a).take ((cleanSegments a).length - k)) ++ "/" ++ b) := by
  have hnames : ∀ s ∈ (cleanSegments a).take ((cleanSegments a).length - k), IsSegment s := by
    intro s hs
    exact isSegment_of_mem_cleanSegments (List.mem_of_mem_take hs)
  rw [normalizeLocal, normalizeLocal, cleanSegments_append, cleanSegments_append, pieces_up,
    List.foldl_append, foldl_lexicalStep_up, cleanSegments_rooted hnames]

end Following

section Resolving

variable {importer inner s t : String}

theorem head?_of_isRelative (h : isRelative s = true) : s.toList.head? = some '.' := by
  simp only [isRelative, Bool.or_eq_true, decide_eq_true_eq, Text.startsWith_iff] at h
  obtain ((rfl | rfl) | ⟨rest, rfl⟩) | ⟨rest, rfl⟩ := h
  · rfl
  · rfl
  · simp
  · simp

theorem resolveLocal_of_isRelative (importer : String) (h : isRelative s = true) (rest : String) :
    resolveLocal importer (s ++ rest) =
      normalizeLocal (parentDirectory importer ++ "/" ++ (s ++ rest)) := by
  have hhead : (s ++ rest).toList.head? = some '.' := by
    simp [head?_of_isRelative h]
  have hstart : Text.startsWith (s ++ rest) "/" = false :=
    Text.startsWith_of_head? hhead (by decide : '/' ≠ '.')
  rw [resolveLocal, hstart, if_neg Bool.false_ne_true]

theorem liesIn_normalizeLocal {directory file : String} (hd : IsClean directory)
    (hf : IsSegment file) : LiesIn (normalizeLocal (directory ++ "/" ++ file)) directory := by
  obtain ⟨names, rfl, hnames⟩ := exists_rooted_of_isClean hd
  have hfile : normalizeLocal (rooted names ++ "/" ++ file) = spelled names ++ "/" ++ file := by
    rw [normalizeLocal, cleanSegments_append, cleanSegments_rooted hnames,
      Text.pieces_of_not_mem hf.2.2.2, foldl_lexicalStep_segments (by simpa using hf),
      rooted_eq_spelled (by simp), spelled_concat]
  rw [LiesIn, hfile, parentDirectory_spelled names hf.2.2.2]
  exact normalizeLocal_spelled hnames

theorem resolveLocal_of_liesIn (hs : isRelative s = true) (ht : isRelative t = true)
    (h : LiesIn inner (resolveLocal importer s)) :
    resolveLocal inner t = resolveLocal importer (s ++ "/" ++ t) := by
  have hfirst := resolveLocal_of_isRelative importer hs ""
  have hsecond := resolveLocal_of_isRelative inner ht ""
  rw [String.append_empty] at hfirst hsecond
  calc resolveLocal inner t
      = normalizeLocal (parentDirectory inner ++ "/" ++ t) := hsecond
    _ = normalizeLocal (resolveLocal importer s ++ "/" ++ t) := by rw [normalizeLocal_append, h]
    _ = normalizeLocal (parentDirectory importer ++ "/" ++ s ++ "/" ++ t) := by
      rw [hfirst, ← normalizeLocal_append]
    _ = normalizeLocal (parentDirectory importer ++ "/" ++ (s ++ ("/" ++ t))) := by
      simp only [String.append_assoc]
    _ = resolveLocal importer (s ++ ("/" ++ t)) := (resolveLocal_of_isRelative importer hs _).symm
    _ = resolveLocal importer (s ++ "/" ++ t) := by rw [String.append_assoc]

end Resolving

/-- The normal form of a path names the place that the path leads to from the top. It does not change
when it is normalized again, nor does that of a longer path when its beginning is normalized first. Steps
up end at the top, and a specifier in a module of the directory that another one leads to goes on from
there. -/
theorem normalizeLocal_absorbs (a b : String) :
    normalizeLocal a = rooted (placeOf [] a) ∧ IsClean (normalizeLocal a) ∧
      (normalizeLocal a = a ↔ IsClean a) ∧ normalizeLocal (normalizeLocal a) = normalizeLocal a ∧
      normalizeLocal (a ++ "/" ++ b) = normalizeLocal (normalizeLocal a ++ "/" ++ b) ∧
      (∀ k, normalizeLocal (a ++ "/" ++ "/".intercalate (List.replicate k ".." ++ [b])) =
        normalizeLocal (rooted ((placeOf [] a).take ((placeOf [] a).length - k)) ++ "/" ++ b)) ∧
      ∀ importer inner s t, isRelative s = true → isRelative t = true →
        LiesIn inner (resolveLocal importer s) →
          resolveLocal inner t = resolveLocal importer (s ++ "/" ++ t) := by
  rw [placeOf_top]
  exact ⟨rfl, isClean_normalizeLocal a, normalizeLocal_eq_self_iff, normalizeLocal_normalizeLocal a,
    normalizeLocal_append a b, normalizeLocal_up a b,
    fun _ _ _ _ hs ht h ↦ resolveLocal_of_liesIn hs ht h⟩

/-- Both specifiers lead out of the top. -/
theorem normalizeLocal_absorbs_clamped :
    isRelative "../../lib" = true ∧ isRelative "../../nav.js" = true ∧
      LiesIn "/lib/util.js" (resolveLocal "/pages/index.js" "../../lib") ∧
      resolveLocal "/lib/util.js" "../../nav.js" =
        resolveLocal "/pages/index.js" ("../../lib" ++ "/" ++ "../../nav.js") := by
  have hs : isRelative "../../lib" = true := by decide
  have ht : isRelative "../../nav.js" = true := by decide
  have hdirectory : resolveLocal "/pages/index.js" "../../lib" = "/lib" := by decide
  have hfile : normalizeLocal ("/lib" ++ "/" ++ "util.js") = "/lib/util.js" := by decide
  have hlib : IsClean "/lib" := normalizeLocal_eq_self_iff.1 (by decide)
  have hutil : IsSegment "util.js" := ⟨by decide, by decide, by decide, by decide⟩
  have hin : LiesIn "/lib/util.js" (resolveLocal "/pages/index.js" "../../lib") := by
    rw [hdirectory, ← hfile]
    exact liesIn_normalizeLocal hlib hutil
  obtain ⟨-, -, -, -, -, -, hresolve⟩ := normalizeLocal_absorbs "/lib" "../../nav.js"
  exact ⟨hs, ht, hin, hresolve "/pages/index.js" "/lib/util.js" "../../lib" "../../nav.js" hs ht hin⟩

end SiteCompiler.ModuleId
