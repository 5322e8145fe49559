import Mathlib
import SiteCompiler.Proofs.Linkage
import SiteCompiler.Proofs.LocalPath

namespace SiteCompiler.Linkage

open ModuleId

variable {l : Linkage} {specifier text id : String}

def within (l : Linkage) (importer : String) : Linkage :=
  { l with importer }

/-- Whether a target of the import map is followed from the importer's directory. -/
def climbs (text : String) : Bool :=
  isRelative text && !Text.startsWith text "./"

/-- The dependencies after a specifier that leads to the target. -/
def Target.recorded (dependencies : List String) : Target → List String
  | .outside _ => dependencies
  | .localModule id => (record dependencies id).2
  | .remoteModule id => (record dependencies id).2

theorem link_recorded (l : Linkage) (dependencies : List String) (specifier : String) :
    (l.link dependencies specifier).map Prod.snd =
      (l.target specifier).map (Target.recorded dependencies) := by
  rw [link]
  cases l.target specifier with
  | error cause => rfl
  | ok target => cases target <;> rfl

theorem target_of_mapped (hm : l.importMap.resolve? specifier = some text)
    (hi : isRemote l.importer = false) :
    l.target specifier =
      if isRemote text = true then
        ((normalizeRemote text).map l.remoteTarget).mapError (.invalidUrl text)
      else if Text.startsWith text "/" = true ∨ Text.startsWith text "./" = true then
        .ok (l.localTarget specifier (normalizeLocal text))
      else if isRelative text = true then
        .ok (l.localTarget specifier (resolveLocal l.importer text))
      else .error (.bare specifier) := by
  simp only [target, hm, hi, Option.getD_some, Option.isSome_some, Bool.true_and,
    Bool.false_eq_true, if_false, Bool.or_eq_true]
  by_cases hr : isRemote text = true
  · rw [if_pos hr, if_pos hr]
    cases normalizeRemote text <;> rfl
  · rw [if_neg hr, if_neg hr]
    by_cases hs : Text.startsWith text "/" = true ∨ Text.startsWith text "./" = true
    · rw [if_pos hs, if_pos hs]
    · rw [if_neg hs, if_neg hs]
      have hn : ¬ Text.startsWith text "/" = true := fun h ↦ hs (.inl h)
      simp only [hn, Bool.false_eq_true, false_or]

theorem head?_of_climbs (h : climbs text = true) : text.toList.head? = some '.' :=
  head?_of_isRelative (Bool.and_eq_true_iff.1 h).1

theorem isRemote_of_climbs (h : climbs text = true) : isRemote text = false :=
  Bool.or_eq_false_iff.2 ⟨Text.startsWith_of_head? (head?_of_climbs h) (by decide : 'h' ≠ '.'),
    Text.startsWith_of_head? (head?_of_climbs h) (by decide : 'h' ≠ '.')⟩

theorem startsWith_of_climbs (h : climbs text = true) : Text.startsWith text "/" = false :=
  Text.startsWith_of_head? (head?_of_climbs h) (by decide : '/' ≠ '.')

theorem target_of_climbs (hm : l.importMap.resolve? specifier = some text)
    (h : climbs text = true) {importer : String} (hi : isRemote importer = false) :
    (l.within importer).target specifier =
      .ok ((l.within importer).localTarget specifier (resolveLocal importer text)) := by
  obtain ⟨hr, hd⟩ := Bool.and_eq_true_iff.1 h
  rw [Bool.not_eq_true'] at hd
  rw [target_of_mapped (l := l.within importer) hm hi, isRemote_of_climbs h,
    startsWith_of_climbs h, hr, hd]
  rfl

/-- Whatever is not followed from the importer leads to the same place in all local modules. -/
theorem target_within_eq (hm : l.importMap.resolve? specifier = some text)
    (h : climbs text = false) {importer importer' : String} (hi : isRemote importer = false)
    (hi' : isRemote importer' = false) :
    (l.within importer).target specifier = (l.within importer').target specifier := by
  rw [target_of_mapped (l := l.within importer) hm hi,
    target_of_mapped (l := l.within importer') hm hi']
  by_cases hs : Text.startsWith text "/" = true ∨ Text.startsWith text "./" = true
  · rw [if_pos hs, if_pos hs]
    rfl
  · have hrel : ¬ isRelative text = true := by
      intro hr
      rw [climbs, hr, Bool.true_and, Bool.not_eq_false'] at h
      exact hs (.inr h)
    rw [if_neg hs, if_neg hs, if_neg hrel, if_neg hrel]
    rfl

theorem localTarget_of_isAsset (h : isAsset id = true) (l : Linkage) :
    l.localTarget specifier id = .outside specifier :=
  if_pos h

theorem localTarget_of_not_isAsset (h : isAsset id = false) (hl : ∀ id, l.locate? id = none) :
    l.localTarget specifier id = .localModule id := by
  rw [localTarget, h, if_neg Bool.false_ne_true, hl]
  split <;> rfl

theorem length_le_climb (segments directory : List String) :
    directory.length ≤ (climb directory segments).length + segments.length := by
  induction segments generalizing directory with
  | nil => exact Nat.le_refl _
  | cons segment rest ih =>
    rw [climb]
    split
    · have := ih directory
      rw [List.length_cons]; omega
    · split
      · have := ih directory.tail
        rw [List.length_tail] at this
        rw [List.length_cons]; omega
      · have := ih (segment :: directory)
        rw [List.length_cons] at this ⊢; omega

/-- A relative path leads out of a directory that is deep enough to another module than `id`. -/
theorem exists_resolveLocal_ne (h : Text.startsWith text "/" = false) (id : String) :
    ∃ importer, isRemote importer = false ∧ resolveLocal importer text ≠ id := by
  have hsegment : ∀ k, ∀ s ∈ List.replicate k "a", IsSegment s := by
    intro k s hs
    rw [List.eq_of_mem_replicate hs]
    exact ⟨by decide, by decide, by decide, by decide⟩
  let depth := (Text.pieces '/' text).length + (cleanSegments id).length + 1
  refine ⟨spelled (List.replicate depth "a") ++ "/" ++ "m", ?_, ?_⟩
  · have hd : List.replicate depth "a" = "a" :: List.replicate (depth - 1) "a" := rfl
    rw [hd, spelled, isRemote, Text.startsWith, Text.startsWith]
    simp only [String.toList_append]
    rfl
  · intro he
    have hdirectory : cleanSegments (spelled (List.replicate depth "a")) = List.replicate depth "a" := by
      rw [← cleanSegments_normalizeLocal, normalizeLocal_spelled (hsegment depth),
        cleanSegments_rooted (hsegment depth)]
    have hclean : cleanSegments (resolveLocal (spelled (List.replicate depth "a") ++ "/" ++ "m") text)
        = (climb (List.replicate depth "a") (Text.pieces '/' text)).reverse := by
      rw [resolveLocal, h, if_neg Bool.false_ne_true, parentDirectory_spelled _ (by decide),
        cleanSegments_normalizeLocal, cleanSegments_append, hdirectory, foldl_lexicalStep,
        List.reverse_replicate]
    have hlength := length_le_climb (Text.pieces '/' text) (List.replicate depth "a")
    have hid := congrArg List.length hclean
    rw [he, List.length_reverse] at hid
    rw [List.length_replicate, ← hid] at hlength
    omega

/-- Away from `id` a target that is followed from the importer records something else. -/
theorem exists_recorded_ne (hm : l.importMap.resolve? specifier = some text)
    (hc : climbs text = true) (hl : ∀ id, l.locate? id = none) (id : String) :
    ∃ importer, isRemote importer = false ∧
      ((l.within importer).target specifier).map (Target.recorded []) ≠ .ok [id] := by
  obtain ⟨importer, hi, hne⟩ := exists_resolveLocal_ne (startsWith_of_climbs hc) id
  refine ⟨importer, hi, fun he ↦ ?_⟩
  rw [target_of_climbs hm hc hi] at he
  cases ha : isAsset (resolveLocal importer text) with
  | true => rw [localTarget_of_isAsset ha] at he; cases he
  | false =>
    rw [localTarget_of_not_isAsset (l := l.within importer) ha hl] at he
    exact hne (List.head_eq_of_cons_eq (Except.ok.inj he))

/-- What a redirected specifier records is the same in all local modules, among whatever files, just
if its target is not followed from the importer or names nothing but assets. -/
theorem recorded_within_iff (hm : l.importMap.resolve? specifier = some text) :
    (∀ locate? importer importer', isRemote importer = false → isRemote importer' = false →
      ∀ dependencies,
        (((l.among locate?).within importer).link dependencies specifier).map Prod.snd =
          (((l.among locate?).within importer').link dependencies specifier).map Prod.snd) ↔
      climbs text = false ∨
        ∀ importer, isRemote importer = false → isAsset (resolveLocal importer text) = true := by
  simp only [link_recorded]
  constructor
  · intro h
    refine Decidable.or_iff_not_imp_left.2 fun hc importer hi ↦ Bool.of_not_eq_false fun hn ↦ ?_
    replace hc : climbs text = true := Bool.eq_true_of_not_eq_false hc
    obtain ⟨importer', hi', hne⟩ := exists_recorded_ne (l := l.among fun _ ↦ none) hm hc
      (fun _ ↦ rfl) (resolveLocal importer text)
    refine hne ((h (fun _ ↦ none) importer' importer hi' hi []).trans ?_)
    rw [target_of_climbs (l := l.among fun _ ↦ none) hm hc hi,
      localTarget_of_not_isAsset hn fun _ ↦ rfl]
    rfl
  · intro h locate? importer importer' hi hi' dependencies
    cases hc : climbs text with
    | false => rw [target_within_eq (l := l.among locate?) hm hc hi hi']
    | true =>
      have ha := h.resolve_left (by rw [hc]; exact Bool.noConfusion)
      rw [target_of_climbs (l := l.among locate?) hm hc hi,
        target_of_climbs (l := l.among locate?) hm hc hi', localTarget_of_isAsset (ha importer hi),
        localTarget_of_isAsset (ha importer' hi')]

/-- A library in the parent of each importer's directory is many libraries. -/
theorem recorded_within_iff_parent :
    (⟨"/a.js", ⟨[("lib", "../lib.js")]⟩, true, fun _ ↦ none⟩ : Linkage).importMap.resolve? "lib" =
        some "../lib.js" ∧
      ¬ ∀ locate? importer importer', isRemote importer = false → isRemote importer' = false →
        ∀ dependencies,
          ((((⟨"/a.js", ⟨[("lib", "../lib.js")]⟩, true, fun _ ↦ none⟩ : Linkage).among
            locate?).within importer).link dependencies "lib").map Prod.snd =
          ((((⟨"/a.js", ⟨[("lib", "../lib.js")]⟩, true, fun _ ↦ none⟩ : Linkage).among
            locate?).within importer').link dependencies "lib").map Prod.snd := by
  have hm : (⟨"/a.js", ⟨[("lib", "../lib.js")]⟩, true, fun _ ↦ none⟩ : Linkage).importMap.resolve?
      "lib" = some "../lib.js" := by decide
  refine ⟨hm, fun h ↦ ?_⟩
  rcases (recorded_within_iff hm).1 h with hc | ha
  · exact absurd hc (by decide)
  · exact absurd (ha "/a.js" (by decide)) (by decide)

end SiteCompiler.Linkage
