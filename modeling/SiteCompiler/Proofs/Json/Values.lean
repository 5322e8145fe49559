import SiteCompiler.Proofs.Json.Members
import SiteCompiler.Proofs.Json.Reading

namespace SiteCompiler.Json

open Document

theorem Ordered.sortMembers_eq {α : Type} {ms : List (String × α)} (h : Ordered ms) :
    sortMembers ms = ms := by
  have hreverse : (ms.reverse.map Prod.fst).Nodup := by
    rw [List.map_reverse]
    exact List.nodup_reverse.2 h.nodup
  refine (ordered_sortMembers ms).ext h fun k ↦ ?_
  rw [lookup_sortMembers]
  refine Option.ext fun value ↦ ?_
  rw [lookup_eq_some_iff_mem hreverse (m := (k, value)), lookup_eq_some_iff_mem h.nodup (m := (k, value)),
    List.mem_reverse]

mutual

def depth : Json → Nat
  | .array elements => depthOfElements elements + 1
  | .object members => depthOfMembers members + 1
  | _ => 0

def depthOfElements : List Json → Nat
  | [] => 0
  | v :: rest => max (depth v) (depthOfElements rest)

def depthOfMembers : List (String × Json) → Nat
  | [] => 0
  | (_, v) :: rest => max (depth v) (depthOfMembers rest)

end

mutual

/-- Values without floating-point numbers: the integers are those of 64 bits, and the members of an
object stand in key order, each key once. -/
def Plain : Json → Prop
  | .number (.integer i) => FitsInteger i
  | .number (.float _) => False
  | .array elements => ArePlain elements
  | .object members => Ordered members ∧ MembersPlain members
  | _ => True

def ArePlain : List Json → Prop
  | [] => True
  | v :: rest => Plain v ∧ ArePlain rest

def MembersPlain : List (String × Json) → Prop
  | [] => True
  | (_, v) :: rest => Plain v ∧ MembersPlain rest

end

mutual

theorem Plain.isExact {v : Json} (h : v.Plain) : v.isExact = true := by
  match v, h with
  | .null, _ | .bool _, _ | .string _, _ => rfl
  | .number (.integer _), _ => rfl
  | .number (.float _), h => exact h.elim
  | .array vs, h => exact areExact_of_arePlain h
  | .object ms, h => exact membersExact_of_membersPlain h.2

theorem areExact_of_arePlain {vs : List Json} (h : ArePlain vs) : areExact vs = true := by
  match vs, h with
  | [], _ => rfl
  | v :: vs, h => rw [areExact, Plain.isExact h.1, areExact_of_arePlain h.2]; rfl

theorem membersExact_of_membersPlain {ms : List (String × Json)} (h : MembersPlain ms) :
    membersExact ms = true := by
  match ms, h with
  | [], _ => rfl
  | (k, v) :: ms, h =>
    rw [membersExact, Plain.isExact h.1, membersExact_of_membersPlain h.2]
    rfl

end

mutual

theorem value?_document {v : Json} (h : v.Plain) {bound : Nat} (hd : v.depth ≤ bound) :
    v.document.value? bound = some v := by
  match v, h with
  | .null, _ | .bool _, _ => rw [document, value?]
  | .string s, _ => rw [document, value?, text?_ofString]; rfl
  | .number (.integer i), h => rw [document, value?, value?_ofInt h]; rfl
  | .number (.float _), h => exact h.elim
  | .array vs, h =>
    obtain ⟨bound, rfl⟩ : ∃ n, bound = n + 1 := ⟨bound - 1, by rw [depth] at hd; omega⟩
    rw [document, value?, values?_documents h (Nat.le_of_succ_le_succ hd)]
    rfl
  | .object ms, h =>
    obtain ⟨bound, rfl⟩ : ∃ n, bound = n + 1 := ⟨bound - 1, by rw [depth] at hd; omega⟩
    rw [document, value?, members?_memberDocuments h.2 (Nat.le_of_succ_le_succ hd), Option.map_some,
      h.1.sortMembers_eq]

theorem values?_documents {vs : List Json} (h : ArePlain vs) {bound : Nat}
    (hd : depthOfElements vs ≤ bound) : values? bound (documents vs) = some vs := by
  match vs, h with
  | [], _ => rfl
  | v :: vs, h =>
    obtain ⟨hv, hvs⟩ := Nat.max_le.1 hd
    rw [documents, values?, value?_document h.1 hv, values?_documents h.2 hvs]
    rfl

theorem members?_memberDocuments {ms : List (String × Json)} (h : MembersPlain ms) {bound : Nat}
    (hd : depthOfMembers ms ≤ bound) : members? bound (memberDocuments ms) = some ms := by
  match ms, h with
  | [], _ => rfl
  | (k, v) :: ms, h =>
    obtain ⟨hv, hms⟩ := Nat.max_le.1 hd
    rw [memberDocuments, members?, text?_ofString, value?_document h.1 hv,
      members?_memberDocuments h.2 hms]
    rfl

end

/-- The value that a text spells, if arrays and objects nest no deeper than the bound. -/
def decode? (bound : Nat) (text : String) : Option Json :=
  (Document.read? text).bind (Document.value? bound)

theorem decode?_chars (l : Layout) {v : Json} (h : v.Plain) {bound : Nat} (hd : v.depth ≤ bound) :
    decode? bound (String.ofList (l.chars 0 v)) = some v := by
  rw [decode?, l.read?_chars h.isExact, Option.bind_some, value?_document h hd]

theorem parse?_pretty {v : Json} (h : v.Plain) (hd : v.depth ≤ Document.maxDepth) :
    parse? v.pretty = some v := by
  rw [parse?, pretty, ← Layout.chars_pretty]
  exact decode?_chars .pretty h hd

end SiteCompiler.Json
