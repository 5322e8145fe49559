import SiteCompiler.ModuleId
import SiteCompiler.Proofs.Text.Cutting

namespace SiteCompiler.ModuleId

def IsSegment (s : String) : Prop :=
  s ≠ "" ∧ s ≠ "." ∧ s ≠ ".." ∧ '/' ∉ s.toList

theorem isSegment_of_mem_climb {directory segments : List String} {s : String}
    (hs : ∀ s ∈ segments, '/' ∉ s.toList) (hd : ∀ s ∈ directory, IsSegment s)
    (h : s ∈ climb directory segments) : IsSegment s := by
  induction segments generalizing directory with
  | nil => exact hd s h
  | cons segment rest ih =>
    have hrest : ∀ s ∈ rest, '/' ∉ s.toList := fun s hm ↦ hs s (List.mem_cons_of_mem segment hm)
    rw [climb] at h
    split at h
    · exact ih hrest hd h
    · next hne =>
      split at h
      · exact ih hrest (fun s hm ↦ hd s (List.mem_of_mem_tail hm)) h
      · next hup =>
        refine ih hrest (fun s hm ↦ ?_) h
        rcases List.mem_cons.1 hm with rfl | hm
        · exact ⟨fun h ↦ hne (.inl h), fun h ↦ hne (.inr h), hup, hs _ List.mem_cons_self⟩
        · exact hd s hm

theorem isSegment_of_mem_cleanSegments {path s : String} (h : s ∈ cleanSegments path) :
    IsSegment s :=
  isSegment_of_mem_climb (fun _ hm ↦ Text.not_mem_of_mem_pieces hm) (fun _ hm ↦ by cases hm)
    (List.mem_reverse.1 h)

theorem pieces_rooted {names : List String} (hn : names ≠ []) (h : ∀ s ∈ names, IsSegment s) :
    Text.pieces '/' (rooted names) = "" :: names := by
  change Text.pieces '/' ("" ++ String.singleton '/' ++ (String.singleton '/').intercalate names) = _
  rw [Text.pieces_append_sep, Text.pieces_intercalate hn fun s hm ↦ (h s hm).2.2.2]
  rfl

def spelled : List String → String
  | [] => ""
  | name :: names => "/" ++ name ++ spelled names

section Spelling

variable {front names : List String} {last : String}

theorem spelled_append (front names : List String) :
    spelled (front ++ names) = spelled front ++ spelled names := by
  induction front with
  | nil => rw [List.nil_append, spelled, String.empty_append]
  | cons name front ih =>
    rw [List.cons_append, spelled, spelled, ih]
    simp only [String.append_assoc]

theorem spelled_concat (front : List String) (last : String) :
    spelled (front ++ [last]) = spelled front ++ "/" ++ last := by
  rw [spelled_append, spelled, spelled, String.append_empty, String.append_assoc]

theorem rooted_eq_spelled (h : names ≠ []) : rooted names = spelled names := by
  induction names with
  | nil => exact absurd rfl h
  | cons name names ih =>
    cases names with
    | nil => rw [rooted, String.intercalate_singleton, spelled, spelled, String.append_empty]
    | cons name' names =>
      have hrest := ih (List.cons_ne_nil name' names)
      rw [rooted] at hrest ⊢
      rw [String.intercalate_cons_cons, spelled, ← hrest]
      simp only [String.append_assoc]

theorem pieces_spelled (h : ∀ s ∈ names, '/' ∉ s.toList) :
    Text.pieces '/' (spelled names) = "" :: names := by
  induction names using List.reverseRecOn with
  | nil => rfl
  | append_singleton front last ih =>
    have hlast : spelled [last] = String.singleton '/' ++ last := String.append_empty
    rw [spelled_append, hlast, ← String.append_assoc, Text.pieces_append_sep,
      ih fun s hs ↦ h s (List.mem_append_left _ hs),
      Text.pieces_of_not_mem (h last (List.mem_append_right _ List.mem_cons_self))]
    rfl

theorem segments_spelled (h : ∀ s ∈ names, IsSegment s) : Text.segments (spelled names) = names := by
  rw [Text.segments, pieces_spelled fun s hs ↦ (h s hs).2.2.2,
    List.filter_cons_of_neg (by simp), List.filter_eq_self]
  exact fun s hs ↦ decide_eq_true (h s hs).1

theorem parentDirectory_spelled (front : List String) (h : '/' ∉ last.toList) :
    parentDirectory (spelled front ++ "/" ++ last) = spelled front := by
  rw [parentDirectory, show ("/" : String) = String.singleton '/' from rfl, Text.cutLast?_append h]

end Spelling

section Climbing

variable {front names : List String}

theorem climb_append (directory a b : List String) :
    climb directory (a ++ b) = climb (climb directory a) b := by
  induction a generalizing directory with
  | nil => rfl
  | cons name a ih =>
    rw [List.cons_append, climb, climb]
    split
    · exact ih directory
    · split
      · exact ih directory.tail
      · exact ih (name :: directory)

theorem climb_segments (h : ∀ s ∈ names, IsSegment s) (directory : List String) :
    climb directory names = names.reverse ++ directory := by
  induction names generalizing directory with
  | nil => rfl
  | cons name names ih =>
    obtain ⟨hempty, hdot, hup, -⟩ := h name List.mem_cons_self
    rw [climb, if_neg (not_or.2 ⟨hempty, hdot⟩), if_neg hup,
      ih fun s hs ↦ h s (List.mem_cons_of_mem name hs), List.reverse_cons, List.append_assoc]
    rfl

theorem climb_up (directory : List String) (k : ℕ) :
    climb directory (List.replicate k "..") = directory.drop k := by
  induction k generalizing directory with
  | zero => rfl
  | succ k ih =>
    rw [List.replicate_succ, climb, if_neg (by decide), if_pos rfl, ih, List.drop_tail]

theorem normalizeLocal_relative {k : ℕ} (hf : ∀ s ∈ front, IsSegment s)
    (hn : ∀ s ∈ names, IsSegment s) (hne : names ≠ []) :
    normalizeLocal (spelled front ++ "/" ++
      ("./" ++ "/".intercalate (List.replicate k ".." ++ names))) =
      rooted (front.take (front.length - k) ++ names) := by
  have hall : ∀ s ∈ List.replicate k ".." ++ names, '/' ∉ s.toList := by
    intro s hs
    rcases List.mem_append.1 hs with hs | hs
    · rw [List.eq_of_mem_replicate hs]
      decide
    · exact (hn s hs).2.2.2
  have hsplit : spelled front ++ "/" ++
      ("./" ++ "/".intercalate (List.replicate k ".." ++ names)) =
        spelled front ++ String.singleton '/' ++
          ("." ++ String.singleton '/' ++
            (String.singleton '/').intercalate (List.replicate k ".." ++ names)) := by
    rfl
  have hpieces : Text.pieces '/' (spelled front ++ "/" ++
      ("./" ++ "/".intercalate (List.replicate k ".." ++ names))) =
        "" :: (front ++ "." :: (List.replicate k ".." ++ names)) := by
    rw [hsplit, Text.pieces_append_sep, Text.pieces_append_sep,
      pieces_spelled fun s hs ↦ (hf s hs).2.2.2,
      Text.pieces_intercalate (List.append_ne_nil_of_right_ne_nil _ hne) hall]
    rfl
  rw [normalizeLocal, cleanSegments, hpieces, climb, if_pos (.inl rfl), climb_append,
    climb_segments hf, climb, if_pos (.inr rfl), climb_append, climb_up, climb_segments hn,
    List.append_nil, List.reverse_append, List.reverse_reverse, List.reverse_drop,
    List.reverse_reverse, List.length_reverse]

end Climbing

theorem cleanSegments_rooted {names : List String} (h : ∀ s ∈ names, IsSegment s) :
    cleanSegments (rooted names) = names := by
  by_cases hne : names = []
  · subst hne
    rfl
  · rw [cleanSegments, pieces_rooted hne h, climb, if_pos (.inl rfl), climb_segments h,
      List.append_nil, List.reverse_reverse]

theorem normalizeLocal_rooted {names : List String} (h : ∀ s ∈ names, IsSegment s) :
    normalizeLocal (rooted names) = rooted names := by
  rw [normalizeLocal, cleanSegments_rooted h]

theorem normalizeLocal_normalizeLocal (path : String) :
    normalizeLocal (normalizeLocal path) = normalizeLocal path :=
  normalizeLocal_rooted fun _ ↦ isSegment_of_mem_cleanSegments

section Relative

variable {source target : List String} {x y : String}

theorem commonLength_le (a b : List String) :
    commonLength a b ≤ a.length ∧ commonLength a b ≤ b.length := by
  induction a generalizing b with
  | nil => exact ⟨Nat.zero_le _, Nat.zero_le _⟩
  | cons s a ih =>
    cases b with
    | nil => exact ⟨Nat.zero_le _, Nat.zero_le _⟩
    | cons t b =>
      rw [commonLength]
      split
      · exact ⟨Nat.succ_le_succ (ih b).1, Nat.succ_le_succ (ih b).2⟩
      · exact ⟨Nat.zero_le _, Nat.zero_le _⟩

theorem take_commonLength (a b : List String) :
    a.take (commonLength a b) = b.take (commonLength a b) := by
  induction a generalizing b with
  | nil => cases b <;> rfl
  | cons s a ih =>
    cases b with
    | nil => rfl
    | cons t b =>
      rw [commonLength]
      split
      · next h => rw [List.take_succ_cons, List.take_succ_cons, eq_of_beq h, ih b]
      · rfl

theorem commonLength_concat (a b : List String) (y : String) :
    min (commonLength a (b ++ [y])) b.length = commonLength a b := by
  induction a generalizing b with
  | nil => exact Nat.zero_min _
  | cons s a ih =>
    cases b with
    | nil => exact Nat.min_zero _
    | cons t b =>
      rw [List.cons_append, commonLength, commonLength]
      split
      · rw [List.length_cons, Nat.add_min_add_right, ih b]
      · exact Nat.zero_min _

/-- A relative specifier goes up to the directory that both paths have in common, and then down. -/
theorem relativeSpecifier_spelled (hs : ∀ s ∈ source, IsSegment s) (ht : ∀ s ∈ target, IsSegment s)
    (hx : '/' ∉ x.toList) (hy : IsSegment y ∨ y = "" ∧ source = [] ∧ target = []) :
    relativeSpecifier (spelled source ++ "/" ++ x) (spelled target ++ "/" ++ y) =
      "./" ++ "/".intercalate (List.replicate (source.length - commonLength source target) ".." ++
        (target.drop (commonLength source target) ++ [y])) := by
  rw [relativeSpecifier, parentDirectory_spelled source hx, segments_spelled hs]
  rcases hy with hy | ⟨rfl, rfl, rfl⟩
  · have hall : ∀ s ∈ target ++ [y], IsSegment s := by
      intro s hm
      rcases List.mem_append.1 hm with hm | hm
      · exact ht s hm
      · exact List.mem_singleton.1 hm ▸ hy
    rw [← spelled_concat, segments_spelled hall, List.length_append, List.length_singleton,
      Nat.add_sub_cancel, commonLength_concat,
      List.drop_append_of_le_length (commonLength_le source target).2]
  · rfl

end Relative

theorem exists_spelled {path : String} (h : normalizeLocal path = path) :
    ∃ front last, path = spelled front ++ "/" ++ last ∧ (∀ s ∈ front, IsSegment s) ∧
      (IsSegment last ∨ last = "" ∧ front = []) := by
  have hall : ∀ s ∈ cleanSegments path, IsSegment s := fun s ↦ isSegment_of_mem_cleanSegments
  rw [normalizeLocal] at h
  generalize cleanSegments path = names at h hall
  induction names using List.reverseRecOn with
  | nil => exact ⟨[], "", h.symm, fun _ hs ↦ (List.not_mem_nil hs).elim, .inr ⟨rfl, rfl⟩⟩
  | append_singleton front last =>
    refine ⟨front, last, ?_, fun s hs ↦ hall s (List.mem_append_left _ hs),
      .inl (hall last (List.mem_append_right _ List.mem_cons_self))⟩
    rw [← h, rooted_eq_spelled (by simp), spelled_concat]

/-- A name is a segment with an ending that is long enough, even if it is empty without. -/
theorem isSegment_append {name ending : String} (hn : '/' ∉ name.toList)
    (he : '/' ∉ ending.toList) (hl : 3 ≤ ending.length) : IsSegment (name ++ ending) := by
  have hlength : 3 ≤ (name ++ ending).length := by
    rw [String.length_append]
    omega
  have hne : ∀ s : String, s.length < 3 → name ++ ending ≠ s := by
    rintro s hs rfl
    omega
  refine ⟨hne "" (by decide), hne "." (by decide), hne ".." (by decide), ?_⟩
  rw [String.toList_append]
  exact fun hm ↦ (List.mem_append.1 hm).elim hn he

theorem intercalate_concat_append (sep name ending : String) (names : List String) :
    sep.intercalate (names ++ [name]) ++ ending = sep.intercalate (names ++ [name ++ ending]) := by
  induction names with
  | nil => rfl
  | cons first names ih =>
    have hne : ∀ x : String, names ++ [x] ≠ [] := fun x ↦ by simp
    obtain ⟨second, rest, hrest⟩ := List.exists_cons_of_ne_nil (hne name)
    obtain ⟨second', rest', hrest'⟩ := List.exists_cons_of_ne_nil (hne (name ++ ending))
    rw [hrest, hrest'] at ih
    rw [List.cons_append, List.cons_append, hrest, hrest', String.intercalate_cons_cons,
      String.intercalate_cons_cons, ← ih]
    simp only [String.append_assoc]

theorem afterLast_spelled (front : List String) {last : String} (h : '/' ∉ last.toList) :
    Text.afterLast '/' (spelled front ++ "/" ++ last) = last := by
  rw [show ("/" : String) = String.singleton '/' from rfl, Text.afterLast_append_sep,
    Text.afterLast_of_not_mem h]

theorem startsWith_relativeSpecifier (source target : String) :
    Text.startsWith (relativeSpecifier source target) "./" = true := by
  rw [relativeSpecifier]
  exact Text.startsWith_iff.2 ⟨_, rfl⟩

/-- The compiled forms of two modules are put into a directory, each with an ending. The specifier that
leads from the path of the one to that of the other, with the other's ending, leads to the other, unless
the other's path is nothing but the slash and the one does not lie at the top. -/
theorem resolveLocal_relativeSpecifier {base : List String} {source target e e' : String}
    (hb : ∀ s ∈ base, IsSegment s) (hs : normalizeLocal source = source)
    (ht : normalizeLocal target = target) (h : target ≠ "/" ∨ parentDirectory source = "")
    (he : '/' ∉ e.toList) (hl : IsSegment (Text.afterLast '/' target ++ e')) :
    resolveLocal (spelled base ++ source ++ e) (relativeSpecifier source target ++ e') =
      spelled base ++ target ++ e' := by
  obtain ⟨sf, x, rfl, hsf, hx⟩ := exists_spelled hs
  obtain ⟨tf, y, rfl, htf, hy⟩ := exists_spelled ht
  have hname : ∀ {z : String} {zs : List String}, IsSegment z ∨ z = "" ∧ zs = [] → '/' ∉ z.toList := by
    rintro z zs (hz | ⟨rfl, -⟩)
    · exact hz.2.2.2
    · exact List.not_mem_nil
  have hy' : IsSegment y ∨ y = "" ∧ sf = [] ∧ tf = [] := by
    refine hy.imp_right fun hy ↦ ⟨hy.1, ?_, hy.2⟩
    have hparent := h.resolve_left fun hne ↦ hne (by rw [hy.1, hy.2]; rfl)
    rw [parentDirectory_spelled sf (hname hx)] at hparent
    rw [← segments_spelled hsf, hparent]
    rfl
  have hlast : IsSegment (y ++ e') := afterLast_spelled tf (hname hy) ▸ hl
  have hdown : ∀ s ∈ tf.drop (commonLength sf tf) ++ [y ++ e'], IsSegment s := by
    intro s hm
    rcases List.mem_append.1 hm with hm | hm
    · exact htf s (List.mem_of_mem_drop hm)
    · exact List.mem_singleton.1 hm ▸ hlast
  have hdirectory : ∀ s ∈ base ++ sf, IsSegment s := by
    intro s hm
    exact (List.mem_append.1 hm).elim (hb s) (hsf s)
  have hparent : parentDirectory (spelled base ++ (spelled sf ++ "/" ++ x) ++ e) =
      spelled (base ++ sf) := by
    have hxe : '/' ∉ (x ++ e).toList := by
      rw [String.toList_append]
      exact fun hm ↦ (List.mem_append.1 hm).elim (hname hx) he
    have hpath : spelled base ++ (spelled sf ++ "/" ++ x) ++ e =
        spelled (base ++ sf) ++ "/" ++ (x ++ e) := by
      rw [spelled_append]
      simp only [String.append_assoc]
    rw [hpath, parentDirectory_spelled _ hxe]
  obtain ⟨hle, -⟩ := commonLength_le sf tf
  have hcount : (base ++ sf).length - (sf.length - commonLength sf tf) =
      base.length + commonLength sf tf := by
    rw [List.length_append]
    omega
  have hrelative : Text.startsWith (relativeSpecifier (spelled sf ++ "/" ++ x)
      (spelled tf ++ "/" ++ y) ++ e') "/" = false := by
    rw [relativeSpecifier, Text.startsWith]
    simp only [String.toList_append]
    rfl
  have hspecifier : relativeSpecifier (spelled sf ++ "/" ++ x) (spelled tf ++ "/" ++ y) ++ e' =
      "./" ++ "/".intercalate (List.replicate (sf.length - commonLength sf tf) ".." ++
        (tf.drop (commonLength sf tf) ++ [y ++ e'])) := by
    rw [relativeSpecifier_spelled hsf htf (hname hx) hy', String.append_assoc, ← List.append_assoc,
      intercalate_concat_append, List.append_assoc]
  have htake : (base ++ sf).take (base.length + commonLength sf tf) ++
      (tf.drop (commonLength sf tf) ++ [y ++ e']) = base ++ (tf ++ [y ++ e']) := by
    rw [List.take_length_add_append, take_commonLength, List.append_assoc,
      ← List.append_assoc (tf.take _), List.take_append_drop]
  rw [resolveLocal, hrelative, if_neg Bool.false_ne_true, hparent, hspecifier,
    normalizeLocal_relative hdirectory hdown (by simp), hcount, htake, rooted_eq_spelled (by simp),
    spelled_append, spelled_append, spelled, spelled, String.append_empty]
  simp only [String.append_assoc]

/-- A relative specifier with an ending leads from one path, whatever ends it, to the other path with the
ending, as long as the last name of that path stays a name. -/
theorem leads_relativeSpecifier {source target e e' : String} (hs : normalizeLocal source = source)
    (ht : normalizeLocal target = target) (hroot : target ≠ "/") (he : '/' ∉ e.toList)
    (he' : '/' ∉ e'.toList) (hdot : Text.afterLast '/' target ++ e' ≠ ".")
    (hup : Text.afterLast '/' target ++ e' ≠ "..") :
    Text.startsWith (relativeSpecifier source target) "./" = true ∧
      resolveLocal (source ++ e) (relativeSpecifier source target ++ e') = target ++ e' := by
  obtain ⟨front, last, hpath, -, hlast⟩ := exists_spelled ht
  have hname : IsSegment last := by
    refine hlast.resolve_right ?_
    rintro ⟨rfl, rfl⟩
    exact hroot hpath
  have hlast : Text.afterLast '/' target = last := by
    rw [hpath, afterLast_spelled front hname.2.2.2]
  have hending : IsSegment (Text.afterLast '/' target ++ e') := by
    refine ⟨fun hempty ↦ hname.1 ?_, hdot, hup, fun hm ↦ ?_⟩
    · rw [hlast] at hempty
      exact (String.append_eq_empty_iff.1 hempty).1
    · rw [String.toList_append] at hm
      exact (List.mem_append.1 hm).elim (Text.not_mem_afterLast '/' target) he'
  have hleads : resolveLocal (spelled [] ++ source ++ e) (relativeSpecifier source target ++ e') =
      spelled [] ++ target ++ e' :=
    resolveLocal_relativeSpecifier (fun _ hm ↦ (List.not_mem_nil hm).elim) hs ht (.inl hroot) he
      hending
  rw [spelled, String.empty_append, String.empty_append] at hleads
  exact ⟨startsWith_relativeSpecifier source target, hleads⟩

/-- The target names the directory that the source lies in. -/
theorem leads_relativeSpecifier_above :
    normalizeLocal "/a/b/c" = "/a/b/c" ∧ normalizeLocal "/a/b" = "/a/b" ∧
      resolveLocal "/a/b/c.0.js" (relativeSpecifier "/a/b/c" "/a/b" ++ ".1.js") = "/a/b.1.js" := by
  have hs : normalizeLocal "/a/b/c" = "/a/b/c" := by decide
  have ht : normalizeLocal "/a/b" = "/a/b" := by decide
  have h : resolveLocal ("/a/b/c" ++ ".0.js") (relativeSpecifier "/a/b/c" "/a/b" ++ ".1.js") =
      "/a/b" ++ ".1.js" :=
    (leads_relativeSpecifier hs ht (by decide) (by decide) (by decide) (by decide) (by decide)).2
  exact ⟨hs, ht, h⟩

end SiteCompiler.ModuleId
