import Mathlib
import SiteCompiler.ImportMap
import SiteCompiler.Proofs.Json.Members
import SiteCompiler.Proofs.Json.Values
import SiteCompiler.Proofs.Text.Cutting

namespace SiteCompiler.ImportMap

variable {m upper : ImportMap} {entries targets : List (String × String)} {env : Environment}
variable {specifier key origin text : String}

def Ordered (m : ImportMap) : Prop :=
  Json.Ordered m.entries

theorem Ordered.find?_eq_some_iff (h : m.Ordered) {e : String × String} :
    m.find? e.1 = some e.2 ↔ e ∈ m.entries :=
  Json.lookup_eq_some_iff_mem (Json.Ordered.nodup h)

theorem ordered_builtin : builtin.Ordered := by
  rw [Ordered, Json.Ordered, builtin]
  decide +kernel

section Reading

open Json (Piece Document)

def toJson (entries : List (String × String)) : Json :=
  .object [("imports", .object (entries.map fun e ↦ (e.1, .string e.2)))]

theorem isExact_toJson (entries : List (String × String)) : (toJson entries).isExact = true := by
  have hmembers : ∀ entries : List (String × String),
      Json.membersExact (entries.map fun e ↦ (e.1, .string e.2)) = true := by
    intro entries
    induction entries with
    | nil => rfl
    | cons e entries ih => exact ih
  simp only [toJson, Json.isExact, Json.membersExact, hmembers, Bool.and_true]

theorem mapM_memberDocuments {f : List Piece × Document → Option (String × String)}
    (h : ∀ e : String × String, f (Piece.ofString e.1, .string (Piece.ofString e.2)) = some e)
    (entries : List (String × String)) :
    (Json.memberDocuments (entries.map fun e ↦ (e.1, .string e.2))).mapM f = some entries := by
  induction entries with
  | nil => rfl
  | cons e entries ih =>
    rw [List.map_cons, Json.memberDocuments, List.mapM_cons, Json.document, h, ih]
    rfl

theorem read?_toJson (h : Json.Ordered entries) : read? (toJson entries).pretty = some entries := by
  have hmap : (Document.object (Json.memberDocuments
      (entries.map fun e ↦ (e.1, .string e.2)))).stringMap? = some entries := by
    rw [Document.stringMap?, mapM_memberDocuments fun e ↦ ?_]
    · exact congrArg some h.sortMembers_eq
    · simp only [Document.string?, Json.text?_ofString]
      rfl
  have hfields : (toJson entries).document.fields? ["imports"] = some [some (.object
      (Json.memberDocuments (entries.map fun e ↦ (e.1, .string e.2))))] := by
    simp only [toJson, Json.document, Json.memberDocuments, Document.fields?, List.mapM_cons,
      List.mapM_nil, Json.text?_ofString]
    rfl
  rw [read?, Json.read?_pretty (isExact_toJson entries)]
  simp only [Option.bind_eq_bind, Option.bind_some, hfields]
  rw [Document.withDefault?]
  exact hmap
end Reading

section Merging

theorem Ordered.merge (h : m.Ordered) (upper : ImportMap) : (m.merge upper).Ordered := by
  obtain ⟨entries⟩ := upper
  rw [ImportMap.merge]
  induction entries generalizing m with
  | nil => exact h
  | cons e rest ih => exact ih (h.insertMember e.1 e.2)

theorem find?_merge (h : upper.Ordered) (m : ImportMap) (key : String) :
    (m.merge upper).find? key = (upper.find? key).or (m.find? key) := by
  obtain ⟨entries⟩ := upper
  rw [ImportMap.merge, find?, find?, find?]
  replace h := Json.Ordered.nodup h
  induction entries generalizing m with
  | nil => rfl
  | cons e rest ih =>
    obtain ⟨he, hrest⟩ := List.nodup_cons.1 h
    refine (ih (m.insert e.1 e.2) hrest).trans ?_
    rw [insert, Json.lookup_insertMember, Json.lookup_cons]
    by_cases hk : key = e.1
    · have hnone : rest.lookup key = none := by
        rw [List.lookup_eq_none_iff]
        intro p hp
        rw [bne_iff_ne, hk]
        exact fun hkp ↦ he (hkp ▸ List.mem_map_of_mem hp)
      rw [if_pos hk, if_pos hk, hnone]
      rfl
    · rw [if_neg hk, if_neg hk]

end Merging

section Documents

def expanded? (env : Environment) (entries : List (String × String)) (key : String) : Option String :=
  (entries.lookup key).bind fun target ↦ (env.expand target).toOption

def expandable (env : Environment) (entries : List (String × String)) : Bool :=
  entries.all fun e ↦ (env.expand e.2).toOption.isSome

theorem expandTargets_spec (env : Environment) (origin : String)
    (entries : List (String × String)) :
    match expandTargets env origin entries with
    | .ok targets => expandable env entries = true ∧ targets.map Prod.fst = entries.map Prod.fst ∧
        ∀ key, targets.lookup key = expanded? env entries key
    | .error _ => expandable env entries = false := by
  induction entries with
  | nil => exact ⟨rfl, rfl, fun _ ↦ rfl⟩
  | cons e rest ih =>
    rw [expandTargets, expandable, List.all_cons]
    cases he : env.expand e.2 with
    | error cause => rfl
    | ok target =>
      rw [expandable] at ih
      cases hr : expandTargets env origin rest with
      | error cause =>
        rw [hr] at ih
        exact ih
      | ok targets =>
        rw [hr] at ih
        obtain ⟨hall, hkeys, hlookup⟩ := ih
        refine ⟨hall, congrArg (e.1 :: ·) hkeys, fun key ↦ ?_⟩
        rw [expanded?, Json.lookup_cons, Json.lookup_cons]
        by_cases hk : key = e.1
        · rw [if_pos hk, if_pos hk, Option.bind_some, he]
          rfl
        · rw [if_neg hk, if_neg hk, hlookup]
          rfl

theorem ordered_of_stringMap? {document : Json.Document}
    (h : document.stringMap? = some entries) : Json.Ordered entries := by
  cases document with
  | object members =>
    obtain ⟨pairs, -, hp⟩ := Option.bind_eq_some_iff.1 h
    exact Option.some.inj hp ▸ Json.ordered_sortMembers pairs
  | _ => cases h

theorem ordered_of_read? (h : read? text = some entries) : Json.Ordered entries := by
  obtain ⟨document, -, h⟩ := Option.bind_eq_some_iff.1 h
  obtain ⟨fields, -, h⟩ := Option.bind_eq_some_iff.1 h
  split at h
  · next imports =>
    cases imports with
    | none => exact Option.some.inj h ▸ .nil
    | some members => exact ordered_of_stringMap? h
  · cases h

/-- What a document binds its keys to; one that is absent binds none. A document has no bindings if
its text spells no map or a reference in it cannot be expanded. -/
def bindings? (env : Environment) : Option String → Option (String → Option String)
  | none => some fun _ ↦ none
  | some text => (read? text).bind fun entries ↦
    if expandable env entries then some (expanded? env entries) else none

def layer (env : Environment) (origin : String) : Option String → Except ConfigError ImportMap
  | none => .ok empty
  | some text => ofDocument env text origin

theorem layer_spec (env : Environment) (origin : String) (document : Option String) :
    match layer env origin document with
    | .ok map => map.Ordered ∧ bindings? env document = some map.find?
    | .error _ => bindings? env document = none := by
  cases document with
  | none => exact ⟨.nil, rfl⟩
  | some text =>
    rw [layer, ofDocument, bindings?]
    cases hr : read? text with
    | none => rfl
    | some entries =>
      have hspec := expandTargets_spec env origin entries
      dsimp only [Option.bind_some]
      cases ht : expandTargets env origin entries with
      | error cause =>
        rw [ht] at hspec
        dsimp only at hspec
        rw [hspec]
        rfl
      | ok targets =>
        rw [ht] at hspec
        obtain ⟨hall, hkeys, hlookup⟩ := hspec
        have hordered : (targets.map Prod.fst).Pairwise (· < ·) := by
          rw [hkeys]
          exact List.pairwise_map.2 (ordered_of_read? hr)
        exact ⟨List.pairwise_map.1 hordered,
          (if_pos hall).trans (congrArg some (funext fun key ↦ (hlookup key).symm))⟩

end Documents

section Resolving

theorem covers_iff : covers key specifier = true ↔
    Text.endsWith key "/" = true ∧ ∃ rest, specifier = key ++ rest := by
  rw [covers, Bool.and_eq_true, Text.startsWith_iff]

theorem longest?_spec (specifier : String) (entries : List (String × String)) :
    match longest? specifier entries with
    | none => ∀ e ∈ entries, covers e.1 specifier = false
    | some e => e ∈ entries ∧ covers e.1 specifier = true ∧ ∀ e' ∈ entries,
        covers e'.1 specifier = true → e'.1.utf8ByteSize ≤ e.1.utf8ByteSize := by
  induction entries with
  | nil => exact fun _ he ↦ absurd he List.not_mem_nil
  | cons e rest ih =>
    rw [longest?]
    cases hl : longest? specifier rest with
    | none =>
      rw [hl] at ih
      cases hc : covers e.1 specifier with
      | false => exact List.forall_mem_cons.2 ⟨hc, ih⟩
      | true =>
        refine ⟨List.mem_cons_self, hc, List.forall_mem_cons.2 ⟨fun _ ↦ le_rfl, fun e' he' hc' ↦ ?_⟩⟩
        rw [ih e' he'] at hc'
        cases hc'
    | some f =>
      rw [hl] at ih
      obtain ⟨hf, hcf, hmax⟩ := ih
      dsimp only
      by_cases h : (covers e.1 specifier && decide (f.1.utf8ByteSize < e.1.utf8ByteSize)) = true
      · rw [if_pos h]
        rw [Bool.and_eq_true, decide_eq_true_eq] at h
        refine ⟨List.mem_cons_self, h.1, List.forall_mem_cons.2 ⟨fun _ ↦ le_rfl, fun e' he' hc' ↦ ?_⟩⟩
        exact (hmax e' he' hc').trans h.2.le
      · rw [if_neg h]
        rw [Bool.and_eq_true, decide_eq_true_eq, not_and, not_lt] at h
        exact ⟨List.mem_cons_of_mem e hf, hcf, List.forall_mem_cons.2 ⟨h, hmax⟩⟩

theorem eq_of_toList_append {a b : String} {more : List Char} (h : b.toList = a.toList ++ more)
    (hl : b.utf8ByteSize = a.utf8ByteSize) : b = a := by
  have hb : b = a ++ String.ofList more := by
    rw [← String.toList_inj, String.toList_append, String.toList_ofList, h]
  rw [hb, String.utf8ByteSize_append, Nat.add_eq_left, String.utf8ByteSize_eq_zero_iff] at hl
  rw [hb, hl, String.append_empty]

theorem eq_of_covers {key' : String} (h : covers key specifier = true)
    (h' : covers key' specifier = true) (hl : key'.utf8ByteSize = key.utf8ByteSize) : key' = key := by
  obtain ⟨-, rest, hr⟩ := covers_iff.1 h
  obtain ⟨-, rest', hr'⟩ := covers_iff.1 h'
  have hboth : key.toList ++ rest.toList = key'.toList ++ rest'.toList := by
    rw [← String.toList_append, ← String.toList_append, ← hr, ← hr']
  obtain ⟨more, he, -⟩ | ⟨more, he, -⟩ := List.append_eq_append_iff.1 hboth
  · exact eq_of_toList_append he hl
  · exact (eq_of_toList_append he hl.symm).symm

/-- Where a specifier leads by a table: to its own target, else to that of the one longest key that
ends in a slash and starts it, with the rest of the specifier behind it. -/
inductive Leads (m : ImportMap) (specifier : String) : Option String → Prop
  | key {target : String} (h : m.find? specifier = some target) : Leads m specifier (some target)
  | covered {key target rest : String} (hn : m.find? specifier = none)
      (h : m.find? key = some target) (hs : Text.endsWith key "/" = true)
      (hr : specifier = key ++ rest)
      (hmax : ∀ key', (m.find? key').isSome = true → covers key' specifier = true → key' ≠ key →
        key'.utf8ByteSize < key.utf8ByteSize) : Leads m specifier (some (target ++ rest))
  | nowhere (hn : m.find? specifier = none)
      (h : ∀ key, (m.find? key).isSome = true → covers key specifier = false) :
      Leads m specifier none

theorem leads_resolve? (h : m.Ordered) (specifier : String) :
    Leads m specifier (m.resolve? specifier) := by
  rw [resolve?]
  cases hf : m.find? specifier with
  | some target => exact .key hf
  | none =>
    have hmem : ∀ key, (m.find? key).isSome = true → ∃ target, (key, target) ∈ m.entries := by
      intro key hk
      obtain ⟨target, ht⟩ := Option.isSome_iff_exists.1 hk
      exact ⟨target, (h.find?_eq_some_iff (e := (key, target))).1 ht⟩
    have hspec := longest?_spec specifier m.entries
    cases hl : longest? specifier m.entries with
    | none =>
      rw [hl] at hspec
      refine .nowhere hf fun key hk ↦ ?_
      obtain ⟨target, ht⟩ := hmem key hk
      exact hspec (key, target) ht
    | some e =>
      rw [hl] at hspec
      obtain ⟨he, hc, hmax⟩ := hspec
      obtain ⟨hs, rest, hr⟩ := covers_iff.1 hc
      have hd : Text.dropStart? e.1 specifier = some rest := Text.dropStart?_eq_some.2 hr
      dsimp only [bind, Option.bind, pure]
      rw [hd]
      refine .covered hf (h.find?_eq_some_iff.2 he) hs hr fun key' hk hc' hne ↦ ?_
      obtain ⟨target, ht⟩ := hmem key' hk
      exact lt_of_le_of_ne (hmax _ ht hc') fun hl ↦ hne (eq_of_covers hc hc' hl)

end Resolving

section Loading

/-- The text of the file that holds the highest layer, if there is one. -/
def projectDocument? (disk : Disk) (root : String) : Except FileError (Option String) :=
  if disk.isFile (FilePath.join root fileName) then
    (disk.readText (FilePath.join root fileName)).map some
  else .ok none

/-- The document of the middle layer: one of nothing but blanks counts as none. -/
def middleDocument? (document : Option String) : Option String :=
  document.filter (!isBlank ·)

theorem loadWith_eq (disk : Disk) (env : Environment) (root : String) (document : Option String) :
    loadWith disk env root document = (do
      let middle ← layer env variableName (middleDocument? document)
      let text ← (projectDocument? disk root).mapError ConfigError.file
      let project ← layer env (FilePath.join root fileName) text
      return (builtin.merge middle).merge project) := by
  have hproject : ∀ map : ImportMap, (do
      if disk.isFile (FilePath.join root fileName) then
        let text ← (disk.readText (FilePath.join root fileName)).mapError ConfigError.file
        return map.merge (← ofDocument env text (FilePath.join root fileName))
      else return map) = (do
      let text ← (projectDocument? disk root).mapError ConfigError.file
      let project ← layer env (FilePath.join root fileName) text
      return map.merge project) := by
    intro map
    rw [projectDocument?]
    cases disk.isFile (FilePath.join root fileName) with
    | false => rfl
    | true => cases disk.readText (FilePath.join root fileName) <;> rfl
  unfold loadWith
  cases document with
  | none => exact hproject _
  | some text =>
    dsimp only [middleDocument?, Option.filter]
    by_cases hb : isBlank text = true
    · simp only [hb, Bool.not_true, Bool.false_eq_true, if_true, if_false]
      exact hproject _
    · simp only [hb, Bool.not_false, Bool.false_eq_true, if_true, if_false, layer]
      cases ofDocument env text variableName with
      | error cause => rfl
      | ok middle => exact hproject _

/-- What the layers bind a key to when they are put over each other, the project's on top and the
built-in one at the bottom. -/
def layered (project middle : String → Option String) (key : String) : Option String :=
  (project key).or ((middle key).or (builtin.find? key))

/-- Loading puts the three layers over each other, and fails just if a document of them is unreadable,
spells no map or cannot be expanded; every specifier leads where the table of all layers says. -/
theorem loadWith_layered (disk : Disk) (env : Environment) (root : String)
    (document : Option String) :
    match loadWith disk env root document with
    | .ok map => ∃ text middle project, projectDocument? disk root = .ok text ∧
        bindings? env (middleDocument? document) = some middle ∧ bindings? env text = some project ∧
        map.find? = layered project middle ∧ ∀ specifier, Leads map specifier (map.resolve? specifier)
    | .error _ => bindings? env (middleDocument? document) = none ∨
        ∀ text, projectDocument? disk root = .ok text → bindings? env text = none := by
  rw [loadWith_eq]
  have hmiddle := layer_spec env variableName (middleDocument? document)
  cases hm : layer env variableName (middleDocument? document) with
  | error cause => rw [hm] at hmiddle; exact .inl hmiddle
  | ok middle =>
    rw [hm] at hmiddle
    cases ht : projectDocument? disk root with
    | error cause => exact .inr fun _ h ↦ by cases h
    | ok text =>
      have hproject := layer_spec env (FilePath.join root fileName) text
      dsimp only [bind, Except.bind, Except.mapError]
      cases hp : layer env (FilePath.join root fileName) text with
      | error cause =>
        rw [hp] at hproject
        refine .inr fun text' h ↦ ?_
        rw [← Except.ok.inj h]
        exact hproject
      | ok project =>
        rw [hp] at hproject
        refine ⟨text, middle.find?, project.find?, rfl, hmiddle.2, hproject.2, ?_, ?_⟩
        · funext key
          rw [find?_merge hproject.1, find?_merge hmiddle.1, layered]
        · exact leads_resolve? ((ordered_builtin.merge middle).merge project)

end Loading

end SiteCompiler.ImportMap
