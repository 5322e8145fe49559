import Mathlib
import SiteCompiler.Json.Basic

namespace SiteCompiler.Json

variable {α : Type} {ms ms' : List (String × α)} {key k : String} {value : α}

def Ordered (ms : List (String × α)) : Prop :=
  ms.Pairwise fun a b ↦ a.1 < b.1

theorem mem_insertMember {m : String × α} (h : m ∈ insertMember key value ms) :
    m = (key, value) ∨ m ∈ ms := by
  induction ms with
  | nil => exact .inl (List.mem_singleton.1 h)
  | cons first rest ih =>
    rw [insertMember] at h
    split at h
    · exact List.mem_cons.1 h
    · split at h
      · exact (List.mem_cons.1 h).imp_right (List.mem_cons_of_mem _)
      · rcases List.mem_cons.1 h with rfl | h
        · exact .inr List.mem_cons_self
        · exact (ih h).imp_right (List.mem_cons_of_mem _)

theorem Ordered.insertMember (h : Ordered ms) (key : String) (value : α) :
    Ordered (insertMember key value ms) := by
  induction ms with
  | nil => exact List.pairwise_singleton _ _
  | cons first rest ih =>
    obtain ⟨hfirst, hrest⟩ := List.pairwise_cons.1 h
    rw [Json.insertMember]
    split
    · next hlt =>
      refine List.pairwise_cons.2 ⟨fun m hm ↦ ?_, h⟩
      rcases List.mem_cons.1 hm with rfl | hm
      · exact hlt
      · exact hlt.trans (hfirst m hm)
    · next hlt =>
      split
      · next heq =>
        subst heq
        exact List.pairwise_cons.2 ⟨hfirst, hrest⟩
      · next hne =>
        refine List.pairwise_cons.2 ⟨fun m hm ↦ ?_, ih hrest⟩
        rcases mem_insertMember hm with rfl | hm
        · exact lt_of_le_of_ne (not_lt.1 hlt) (Ne.symm hne)
        · exact hfirst m hm

theorem lookup_cons (m : String × α) (ms : List (String × α)) (k : String) :
    (m :: ms).lookup k = if k = m.1 then some m.2 else ms.lookup k := by
  rw [List.lookup_cons]
  by_cases hk : k = m.1
  · rw [if_pos hk, hk, beq_self_eq_true]
  · rw [if_neg hk, beq_eq_false_iff_ne.2 hk]

theorem lookup_insertMember (ms : List (String × α)) (key : String) (value : α) (k : String) :
    (insertMember key value ms).lookup k = if k = key then some value else ms.lookup k := by
  induction ms with
  | nil => rw [insertMember, lookup_cons]
  | cons first rest ih =>
    rw [insertMember]
    split
    · rw [lookup_cons]
    · split
      · next heq =>
        subst heq
        rw [lookup_cons, lookup_cons]
        split <;> rfl
      · next hne =>
        rw [lookup_cons, lookup_cons, ih]
        split
        · next hk => rw [if_neg fun he ↦ hne (he.symm.trans hk)]
        · rfl

theorem ordered_sortMembers (ms : List (String × α)) : Ordered (sortMembers ms) := by
  have hfold : ∀ sorted : List (String × α), Ordered sorted →
      Ordered (ms.foldl (fun sorted m ↦ insertMember m.1 m.2 sorted) sorted) := by
    induction ms with
    | nil => exact fun _ h ↦ h
    | cons m ms ih => exact fun sorted h ↦ ih _ (h.insertMember m.1 m.2)
  exact hfold [] List.Pairwise.nil

theorem lookup_sortMembers (ms : List (String × α)) (k : String) :
    (sortMembers ms).lookup k = ms.reverse.lookup k := by
  induction ms using List.reverseRecOn with
  | nil => rfl
  | append_singleton ms m ih =>
    have hlast : sortMembers (ms ++ [m]) = insertMember m.1 m.2 (sortMembers ms) := by
      rw [sortMembers, List.foldl_append]
      rfl
    rw [hlast, lookup_insertMember, ih, List.reverse_append, List.reverse_singleton,
      List.singleton_append, lookup_cons]

theorem lookup_eq_some_iff_mem (h : (ms.map Prod.fst).Nodup) {m : String × α} :
    ms.lookup m.1 = some m.2 ↔ m ∈ ms := by
  induction ms with
  | nil => simp
  | cons first rest ih =>
    obtain ⟨hfirst, hrest⟩ := List.nodup_cons.1 h
    rw [lookup_cons, List.mem_cons]
    by_cases hk : m.1 = first.1
    · have hnot : m ∉ rest := fun hm ↦ hfirst (hk ▸ List.mem_map_of_mem hm)
      rw [if_pos hk, Option.some_inj, or_iff_left hnot]
      exact ⟨fun he ↦ Prod.ext hk he.symm, fun he ↦ by rw [he]⟩
    · rw [if_neg hk, ih hrest, or_iff_right fun he ↦ hk (congrArg Prod.fst he)]

theorem Ordered.nodup (h : Ordered ms) : (ms.map Prod.fst).Nodup :=
  List.pairwise_map.2 (h.imp ne_of_lt)

theorem Ordered.ext (h : Ordered ms) (h' : Ordered ms') (hl : ∀ k, ms.lookup k = ms'.lookup k) :
    ms = ms' := by
  have hperm : ms.Perm ms' :=
    (List.perm_ext_iff_of_nodup h.nodup.of_map h'.nodup.of_map).2 fun m ↦ by
      rw [← lookup_eq_some_iff_mem h.nodup, ← lookup_eq_some_iff_mem h'.nodup, hl]
  exact hperm.eq_of_pairwise (fun a b _ _ hab hba ↦ absurd (hab.trans hba) (lt_irrefl _)) h h'

end SiteCompiler.Json
