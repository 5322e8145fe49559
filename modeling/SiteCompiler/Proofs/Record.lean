import SiteCompiler.Module
import SiteCompiler.Proofs.Json.Reading

namespace SiteCompiler.ModuleMeta

open Json Json.Document

theorem documents_map {α : Type} (f : α → Json) (xs : List α) :
    documents (xs.map f) = xs.map fun x ↦ (f x).document := by
  induction xs with
  | nil => rfl
  | cons x xs ih => rw [List.map_cons, documents, ih, List.map_cons]

theorem areExact_map {α : Type} {f : α → Json} (hf : ∀ x, (f x).isExact = true) (xs : List α) :
    areExact (xs.map f) = true := by
  induction xs with
  | nil => rfl
  | cons x xs ih => rw [List.map_cons, areExact, hf, ih]; rfl

theorem mapM_eq_some {α β : Type} {f : α → Option β} {g : β → α} {xs : List β}
    (h : ∀ x ∈ xs, f (g x) = some x) : (xs.map g).mapM f = some xs := by
  induction xs with
  | nil => rfl
  | cons x xs ih =>
    rw [List.map_cons, List.mapM_cons, h x List.mem_cons_self,
      ih fun y hy ↦ h y (List.mem_cons_of_mem x hy)]
    rfl

def recordDocument (m : ModuleMeta) : Document :=
  m.toJson.document

theorem fields?_recordDocument (m : ModuleMeta) :
    m.recordDocument.fields? fieldNames = some [
      some (.string (Piece.ofString m.sourceFile)),
      some (.string (Piece.ofString m.dialect.extension)),
      some (.string (Piece.ofString m.sourceHash)),
      some (.string (Piece.ofString m.hash)),
      some (.array (m.dependencies.map fun d ↦ (dependencyJson d).document)),
      some (.array (m.slots.map fun s ↦ (slotJson s).document)),
      some (.bool m.isRemote)] := by
  simp only [recordDocument, toJson, document, memberDocuments, fields?, List.mapM_cons,
    List.mapM_nil, text?_ofString, documents_map]
  rfl

theorem isExact_toJson (m : ModuleMeta) : m.toJson.isExact = true := by
  have hd := areExact_map (f := dependencyJson) (fun _ ↦ rfl) m.dependencies
  have hs := areExact_map (f := slotJson) (fun _ ↦ rfl) m.slots
  simp [toJson, isExact, membersExact, hd, hs]

theorem readDialect?_extension (d : Dialect) :
    readDialect? (.string (Piece.ofString d.extension)) = some d := by
  rw [readDialect?, text?_ofString]
  cases d <;> decide

theorem readDependency?_document (d : Dependency) :
    readDependency? (dependencyJson d).document = some d := by
  have hf : (dependencyJson d).document.fields? ["path", "hash"] = some [
      some (.string (Piece.ofString d.path)), some (.string (Piece.ofString d.hash))] := by
    simp only [dependencyJson, document, memberDocuments, fields?, List.mapM_cons, List.mapM_nil,
      text?_ofString]
    rfl
  simp [readDependency?, hf, required?, Document.string?, text?_ofString]

theorem readSlot?_document (s : HashSlot) : readSlot? (slotJson s).document = some s := by
  have hf : (slotJson s).document.fields? ["dep", "offset"] = some [
      some (.number (.ofInt s.dependency.toNat)), some (.number (.ofInt s.offset.toNat))] := by
    simp only [slotJson, document, memberDocuments, fields?, List.mapM_cons, List.mapM_nil,
      text?_ofString]
    rfl
  simp [readSlot?, hf, required?, word?_toNat]

theorem ofDocument?_recordDocument (m : ModuleMeta) : ofDocument? m.recordDocument = some m := by
  have hd : (m.dependencies.map fun d ↦ (dependencyJson d).document).mapM readDependency? =
      some m.dependencies := mapM_eq_some fun d _ ↦ readDependency?_document d
  have hs : (m.slots.map fun s ↦ (slotJson s).document).mapM readSlot? = some m.slots :=
    mapM_eq_some fun s _ ↦ readSlot?_document s
  simp only [ofDocument?, fields?_recordDocument, Option.bind_eq_bind, Option.bind_some, required?,
    withDefault?, Document.string?, Document.bool?, list?, text?_ofString, readDialect?_extension, hd,
    hs]
  rfl

theorem read?_text (m : ModuleMeta) : read? m.text = some m := by
  rw [read?, text, read?_pretty m.isExact_toJson, Option.bind_some]
  exact m.ofDocument?_recordDocument

theorem eq_of_read?_text {m found : ModuleMeta} (h : read? m.text = some found) : found = m :=
  (Option.some_inj.1 (m.read?_text.symm.trans h)).symm

end SiteCompiler.ModuleMeta
