import SiteCompiler.Proofs.Graph.KnownIds

namespace SiteCompiler

namespace Linkage

variable {l : Linkage} {ids later : List String} {specifier id : String} {link : Link}

theorem record_cases (ids : List String) (id : String) :
    (∃ index, ids[index]? = some id ∧ record ids id = (index, ids)) ∨
      id ∉ ids ∧ record ids id = (ids.length, ids ++ [id]) := by
  rw [record]
  cases hf : ids.findIdx? (· = id) with
  | some index =>
    obtain ⟨hlt, he, -⟩ := List.findIdx?_eq_some_iff_getElem.1 hf
    refine .inl ⟨index, ?_, rfl⟩
    rw [List.getElem?_eq_getElem hlt, of_decide_eq_true he]
  | none =>
    refine .inr ⟨fun hm ↦ ?_, rfl⟩
    have hne := List.findIdx?_eq_none_iff.1 hf id hm
    simp only [decide_true, Bool.true_eq_false] at hne

theorem getElem?_record (ids : List String) (id : String) :
    (record ids id).2[(record ids id).1]? = some id := by
  obtain ⟨index, hi, hr⟩ | ⟨-, hr⟩ := record_cases ids id
  · rwa [hr]
  · rw [hr]
    exact List.getElem?_concat_length

theorem record_later (h : (record ids id).2 <+: later) :
    record later id = ((record ids id).1, later) := by
  obtain ⟨rest, rfl⟩ := h
  rw [record, record]
  cases hf : ids.findIdx? (· = id) with
  | some index => rw [List.findIdx?_append, hf]; rfl
  | none =>
    have hone : [id].findIdx? (· = id) = some 0 := by
      simp only [List.findIdx?_cons, decide_true, if_true]
    dsimp only
    rw [List.findIdx?_append, List.findIdx?_append, hf, hone, Option.none_or, Option.map_some,
      Option.some_or, Nat.zero_add]

/-- The dependencies are as before, or there is one more at their end. -/
def GrowsTo (earlier later : List String) : Prop :=
  later = earlier ∨ ∃ id, id ∉ earlier ∧ later = earlier ++ [id]

theorem growsTo_record (ids : List String) (id : String) : GrowsTo ids (record ids id).2 := by
  obtain ⟨index, -, hr⟩ | ⟨hn, hr⟩ := record_cases ids id
  · exact .inl (congrArg Prod.snd hr)
  · exact .inr ⟨id, hn, congrArg Prod.snd hr⟩

theorem GrowsTo.keeps (h : GrowsTo ids later) : ids <+: later := by
  obtain rfl | ⟨id, -, rfl⟩ := h
  · exact List.prefix_rfl
  · exact List.prefix_append ids [id]

theorem GrowsTo.nodup (h : GrowsTo ids later) (hi : ids.Nodup) : later.Nodup := by
  obtain rfl | ⟨id, hn, rfl⟩ := h
  · exact hi
  · exact List.concat_eq_append ▸ hi.concat hn

/-- Whatever was recorded before, a specifier cannot be linked, or it is passed on, or it leads to a
module that is then recorded. -/
theorem link_cases (l : Linkage) (specifier : String) :
    (∃ cause, ∀ ids, l.link ids specifier = .error cause) ∨
    (∃ text, l.target specifier = .ok (.outside text) ∧
      ∀ ids, l.link ids specifier = .ok (.passthrough text, ids)) ∨
    ∃ id hashed, (l.target specifier = .ok (.remoteModule id) ∧ hashed = false ∨
        l.target specifier = .ok (.localModule id) ∧ hashed = !ModuleId.isRemote l.importer) ∧
      ∀ ids, l.link ids specifier =
        .ok (.dependency (record ids id).1 (l.pathTo id) hashed, (record ids id).2) := by
  cases ht : l.target specifier with
  | error cause => exact .inl ⟨cause, fun ids ↦ by rw [Linkage.link, ht]; rfl⟩
  | ok target =>
    cases target with
    | outside text => exact .inr (.inl ⟨text, rfl, fun ids ↦ by rw [Linkage.link, ht]; rfl⟩)
    | remoteModule id =>
      exact .inr (.inr ⟨id, _, .inl ⟨rfl, rfl⟩, fun ids ↦ by rw [Linkage.link, ht]; rfl⟩)
    | localModule id =>
      exact .inr (.inr ⟨id, _, .inr ⟨rfl, rfl⟩, fun ids ↦ by rw [Linkage.link, ht]; rfl⟩)

theorem link_later {recorded : List String} (h : l.link ids specifier = .ok (link, recorded))
    (hp : recorded <+: later) : l.link later specifier = .ok (link, later) := by
  obtain ⟨cause, hs⟩ | ⟨text, -, hs⟩ | ⟨id, hashed, -, hs⟩ := l.link_cases specifier
  · rw [hs] at h
    cases h
  · rw [hs] at h ⊢
    cases h
    rfl
  · rw [hs] at h ⊢
    cases h
    rw [record_later hp]

theorem link_error {cause : Error} (h : l.link ids specifier = .error cause) (later : List String) :
    l.link later specifier = .error cause := by
  obtain ⟨cause, hs⟩ | ⟨text, -, hs⟩ | ⟨id, hashed, -, hs⟩ := l.link_cases specifier
  · rw [hs] at h ⊢
    exact h
  · rw [hs] at h
    cases h
  · rw [hs] at h
    cases h

section Run

/-- Links one specifier. If it cannot be linked, the dependencies stay as they are. -/
def step (l : Linkage) (dependencies : List String) (specifier : String) :
    Except Error Link × List String :=
  match l.link dependencies specifier with
  | .ok (link, dependencies) => (.ok link, dependencies)
  | .error cause => (.error cause, dependencies)

def run (l : Linkage) : List String → List String → List (Except Error Link) × List String
  | dependencies, [] => ([], dependencies)
  | dependencies, specifier :: rest =>
    let (result, dependencies) := l.step dependencies specifier
    let (results, dependencies) := l.run dependencies rest
    (result :: results, dependencies)

theorem growsTo_step (l : Linkage) (ids : List String) (specifier : String) :
    GrowsTo ids (l.step ids specifier).2 := by
  rw [step]
  obtain ⟨cause, hs⟩ | ⟨text, -, hs⟩ | ⟨id, hashed, -, hs⟩ := l.link_cases specifier
  · rw [hs]
    exact .inl rfl
  · rw [hs]
    exact .inl rfl
  · rw [hs]
    exact growsTo_record ids id

theorem step_later (h : (l.step ids specifier).2 <+: later) :
    l.step later specifier = ((l.step ids specifier).1, later) := by
  rw [step] at h ⊢
  cases hs : l.link ids specifier with
  | error cause => rw [link_error hs later, step, hs]
  | ok r =>
    obtain ⟨link, recorded⟩ := r
    rw [hs] at h
    rw [link_later hs h, step, hs]

theorem run_append (l : Linkage) (ids before after : List String) :
    l.run ids (before ++ after) =
      ((l.run ids before).1 ++ (l.run (l.run ids before).2 after).1,
        (l.run (l.run ids before).2 after).2) := by
  induction before generalizing ids with
  | nil => rfl
  | cons specifier before ih =>
    have hrest := ih (l.step ids specifier).2
    rw [List.cons_append, run, run]
    dsimp only
    rw [hrest]
    rfl

theorem length_run (l : Linkage) (ids specifiers : List String) :
    (l.run ids specifiers).1.length = specifiers.length := by
  induction specifiers generalizing ids with
  | nil => rfl
  | cons specifier rest ih => exact congrArg (· + 1) (ih _)

theorem prefix_run (l : Linkage) (ids specifiers : List String) :
    ids <+: (l.run ids specifiers).2 := by
  induction specifiers generalizing ids with
  | nil => exact List.prefix_rfl
  | cons specifier rest ih => exact (l.growsTo_step ids specifier).keeps.trans (ih _)

theorem nodup_run (specifiers : List String) (h : ids.Nodup) :
    (l.run ids specifiers).2.Nodup := by
  induction specifiers generalizing ids with
  | nil => exact h
  | cons specifier rest ih => exact ih ((l.growsTo_step ids specifier).nodup h)

theorem run_later {specifiers : List String} (h : (l.run ids specifiers).2 <+: later) :
    l.run later specifiers = ((l.run ids specifiers).1, later) := by
  induction specifiers generalizing ids with
  | nil => rfl
  | cons specifier rest ih =>
    have hs : (l.step ids specifier).2 <+: later := (prefix_run l _ rest).trans h
    have hrest := @ih (l.step ids specifier).2 h
    rw [run, run, step_later hs]
    dsimp only
    rw [hrest]

end Run
end Linkage

namespace Compiled

open Linkage (grown_link link_error link_later)

theorem linkAll_later {l : Linkage} {template : Script.Template} {ids later : List String}
    (h : (linkAll l ids template).2.1 <+: later) :
    linkAll l later template =
      ((linkAll l ids template).1, later, (linkAll l ids template).2.2) := by
  induction template generalizing ids with
  | nil => rfl
  | cons part rest ih =>
    cases part with
    | text content =>
      rw [linkAll] at h
      rw [linkAll, linkAll, ih h]
    | specifier value =>
      rw [linkAll] at h
      rw [linkAll, linkAll]
      cases hs : l.link ids value.toText with
      | error cause =>
        rw [hs] at h
        rw [link_error hs later]
        dsimp only at h ⊢
        rw [ih h]
      | ok r =>
        obtain ⟨link, recorded⟩ := r
        have hall : (linkAll l recorded rest).2.1 <+: later := by
          rw [hs] at h
          cases link with
          | passthrough text => exact h
          | dependency index path hashed =>
            dsimp only at h
            split at h <;> exact h
        have hrecorded : recorded <+: later := (linkAll_grown rfl).1.keeps.trans hall
        rw [link_later hs hrecorded]
        cases link with
        | passthrough text =>
          dsimp only
          rw [ih hall]
        | dependency index path hashed =>
          dsimp only
          rw [ih hall]
          split <;> rfl

end Compiled

namespace Linkage

variable {l : Linkage} {ids : List String} {specifier id : String}

/-- The files that paths without extension name are local. -/
def LocatesLocally (l : Linkage) : Prop :=
  ∀ path id, l.locate? path = some id → ModuleId.isRemote id = false

/-- What the result of linking a specifier says of the dependencies before and after it, and of those
at the end of all. -/
def Tells (l : Linkage) (earlier later final : List String) : Except Error Link → Prop
  | .ok (.dependency index path hashed) =>
    ∃ id, later[index]? = some id ∧ final[index]? = some id ∧
      path = ModuleId.relativeSpecifier (ModuleId.stem l.importer) (ModuleId.stem id) ∧
      (hashed = true ↔ ModuleId.isRemote l.importer = false ∧ ModuleId.isRemote id = false)
  | .ok (.passthrough _) => later = earlier
  | .error _ => later = earlier

theorem isRemote_of_localModule (hl : l.LocatesLocally)
    (h : l.target specifier = .ok (.localModule id)) : ModuleId.isRemote id = false := by
  obtain ⟨path, hp⟩ := localTarget_of_target h
  have hnormal : ModuleId.isRemote (ModuleId.normalizeLocal path) = false :=
    ModuleId.isRemote_slash _
  rw [localTarget] at hp
  split at hp
  · cases hp
  · split at hp
    · obtain rfl := Target.localModule.inj hp
      cases hf : l.locate? (ModuleId.normalizeLocal path) with
      | none => exact hnormal
      | some id => exact hl _ id hf
    · obtain rfl := Target.localModule.inj hp
      exact hnormal

theorem tells_step (hl : l.LocatesLocally) (ids : List String) (specifier : String)
    {final : List String} (h : (l.step ids specifier).2 <+: final) :
    l.Tells ids (l.step ids specifier).2 final (l.step ids specifier).1 := by
  rw [step] at h ⊢
  obtain ⟨cause, hs⟩ | ⟨text, -, hs⟩ | ⟨id, hashed, ht, hs⟩ := l.link_cases specifier
  · rw [hs]
    rfl
  · rw [hs]
    rfl
  · rw [hs] at h ⊢
    have hi := getElem?_record ids id
    have hfinal : final[(record ids id).1]? = some id := by
      obtain ⟨rest, rfl⟩ := h
      obtain ⟨hlt, -⟩ := List.getElem?_eq_some_iff.1 hi
      exact (List.getElem?_append_left hlt).trans hi
    refine ⟨id, hi, hfinal, rfl, ?_⟩
    obtain ⟨ht, rfl⟩ | ⟨ht, rfl⟩ := ht
    · rw [isRemote_of_target ht]
      simp only [Bool.false_eq_true, Bool.true_eq_false, and_false]
    · rw [isRemote_of_localModule hl ht, Bool.not_eq_true']
      simp only [and_true]

/-- The dependencies are different modules. Each result stands for the step by which it came about,
and the index of a dependency belongs to the same module ever after. Linking all specifiers again, or
all those of a script, tells the same and records nothing. -/
theorem run_spec (hl : l.LocatesLocally) (specifiers : List String) :
    (l.run [] specifiers).2.Nodup ∧
      (∀ before specifier after, specifiers = before ++ specifier :: after →
        let earlier := (l.run [] before).2
        let (result, later) := l.step earlier specifier
        (l.run [] specifiers).1[before.length]? = some result ∧ GrowsTo earlier later ∧
          later <+: (l.run [] specifiers).2 ∧
          l.Tells earlier later (l.run [] specifiers).2 result) ∧
      l.run (l.run [] specifiers).2 specifiers = l.run [] specifiers ∧
      ∀ template, Compiled.linkAll l (Compiled.linkAll l [] template).2.1 template =
        Compiled.linkAll l [] template := by
  refine ⟨nodup_run specifiers List.nodup_nil, ?_, run_later List.prefix_rfl, fun template ↦
    Compiled.linkAll_later List.prefix_rfl⟩
  rintro before specifier after rfl
  have hall := l.run_append [] before (specifier :: after)
  have hlater : (l.step (l.run [] before).2 specifier).2 <+:
      (l.run [] (before ++ specifier :: after)).2 := by
    rw [hall]
    exact prefix_run l _ after
  refine ⟨?_, growsTo_step l _ specifier, hlater, tells_step hl _ specifier hlater⟩
  rw [hall, List.getElem?_append_right (Nat.le_of_eq (length_run ..)), length_run, Nat.sub_self]
  rfl

def sampleLinkage : Linkage where
  importer := "/pages/index.js"
  importMap := ⟨[("theme", "/style/site.css"), ("util", "/lib/util")]⟩
  cacheDependencies := true
  locate? path := if path = "/lib/util" then some "/lib/util.js" else none

theorem run_sampleLinkage : sampleLinkage.LocatesLocally ∧
    sampleLinkage.run [] ["util", "theme", "left-pad", "./page.js", "../lib/util"] =
      ([.ok (.dependency 0 "./../lib/util" true), .ok (.passthrough "theme"),
        .error (.bare "left-pad"), .ok (.dependency 1 "./page" true),
        .ok (.dependency 0 "./../lib/util" true)], ["/lib/util.js", "/pages/page.js"]) ∧
    sampleLinkage.run ["/lib/util.js", "/pages/page.js"]
        ["util", "theme", "left-pad", "./page.js", "../lib/util"] =
      sampleLinkage.run [] ["util", "theme", "left-pad", "./page.js", "../lib/util"] := by
  have hl : sampleLinkage.LocatesLocally := by
    intro path id h
    simp only [sampleLinkage, Option.ite_none_right_eq_some, Option.some.injEq] at h
    rw [← h.2]
    decide
  have hrun : sampleLinkage.run [] ["util", "theme", "left-pad", "./page.js", "../lib/util"] =
      ([.ok (.dependency 0 "./../lib/util" true), .ok (.passthrough "theme"),
        .error (.bare "left-pad"), .ok (.dependency 1 "./page" true),
        .ok (.dependency 0 "./../lib/util" true)], ["/lib/util.js", "/pages/page.js"]) := by
    decide
  have hagain := (run_spec hl ["util", "theme", "left-pad", "./page.js", "../lib/util"]).2.2.1
  rw [hrun] at hagain
  exact ⟨hl, hrun, hagain.trans hrun.symm⟩

/-- A specifier that needs no import map: a URL or a path. -/
def IsQualified (text : String) : Prop :=
  ModuleId.isRemote text = true ∨ Text.startsWith text "/" = true ∨ ModuleId.isRelative text = true
deriving Decidable

/-- The import map leads the specifier of a local module to a file of the site that is no module. -/
def MapsToAsset (l : Linkage) (specifier : String) : Prop :=
  ModuleId.isRemote l.importer = false ∧ ∃ text, l.importMap.resolve? specifier = some text ∧
    ModuleId.isRemote text = false ∧
    isAsset (if (Text.startsWith text "/" || Text.startsWith text "./") = true
      then ModuleId.normalizeLocal text else ModuleId.resolveLocal l.importer text) = true

theorem isQualified_of_path {text : String}
    (h : (Text.startsWith text "/" || ModuleId.isRelative text) = true) : IsQualified text :=
  .inr (Bool.or_eq_true _ _ ▸ h)

theorem isQualified_dependency (l : Linkage) (slot : Nat → List Char) (index : Nat) (id : String)
    (hashed : Bool) :
    IsQualified (.ofList (Compiled.linkText slot (.dependency index (l.pathTo id) hashed))) := by
  rw [Compiled.linkText, List.append_assoc, String.ofList_append, String.ofList_toList]
  have hstart : ∀ rest, Text.startsWith (l.pathTo id ++ rest) "./" = true := by
    intro rest
    obtain ⟨path, hp⟩ : ∃ path, l.pathTo id = "./" ++ path := ⟨_, rfl⟩
    exact Text.startsWith_iff.2 ⟨path ++ rest, by rw [hp, String.append_assoc]⟩
  refine .inr (.inr ?_)
  rw [ModuleId.isRelative, hstart, Bool.or_true, Bool.true_or]

theorem outside_of_target {text : String} (h : l.target specifier = .ok (.outside text)) :
    ModuleId.isRemote text = true ∨
      text = specifier ∧ (IsQualified specifier ∨ l.MapsToAsset specifier) := by
  have hremote : ∀ {url}, ModuleId.isRemote url = true →
      Except.ok (l.remoteTarget url) = (.ok (.outside text) : Except Error Target) →
      ModuleId.isRemote text = true := by
    intro url hu he
    have he := Except.ok.inj he
    rw [remoteTarget] at he
    split at he
    · exact Target.outside.inj he ▸ hu
    · cases he
  have hlocal : ∀ {path}, Except.ok (l.localTarget specifier path) =
      (.ok (.outside text) : Except Error Target) → text = specifier ∧ isAsset path = true := by
    intro path he
    have he := Except.ok.inj he
    rw [localTarget] at he
    split at he
    · next ha => exact ⟨(Target.outside.inj he).symm, ha⟩
    · split at he <;> cases he
  rw [target] at h
  generalize hm : l.importMap.resolve? specifier = mapped at h
  generalize hw : mapped.getD specifier = written at h
  split at h
  · next hr =>
    split at h
    · next hn => exact .inl (hremote (ModuleId.isRemote_of_normalizeRemote hr hn) h)
    · cases h
  · next hr =>
    split at h
    · next hi =>
      split at h
      · next hp =>
        split at h
        · next hj => exact .inl (hremote (ModuleId.isRemote_of_joinRemote hi hp hj) h)
        · cases h
      · cases h
    · next hi =>
      rw [Bool.not_eq_true] at hr hi
      split at h
      · next hp =>
        obtain ⟨ht, ha⟩ := hlocal h
        rw [Bool.and_eq_true, Option.isSome_iff_exists] at hp
        obtain ⟨⟨mapping, rfl⟩, hp⟩ := hp
        obtain rfl : mapping = written := hw
        exact .inr ⟨ht, .inr ⟨hi, mapping, hm, hr, (congrArg isAsset (if_pos hp)).trans ha⟩⟩
      · next hnot =>
        split at h
        · next hp =>
          obtain ⟨ht, ha⟩ := hlocal h
          cases mapped with
          | none =>
            obtain rfl : specifier = written := hw
            exact .inr ⟨ht, .inl (isQualified_of_path hp)⟩
          | some mapping =>
            obtain rfl : mapping = written := hw
            rw [Option.isSome_some, Bool.true_and] at hnot
            exact .inr ⟨ht, .inr ⟨hi, mapping, hm, hr, (congrArg isAsset (if_neg hnot)).trans ha⟩⟩
        · cases h

theorem target_of_mapsToAsset (h : l.MapsToAsset specifier) :
    l.target specifier = .ok (.outside specifier) ∨
      l.target specifier = .error (.bare specifier) := by
  obtain ⟨hi, text, hm, hr, ha⟩ := h
  rw [target, hm]
  simp only [Option.getD_some, Option.isSome_some, Bool.true_and, hr, hi, Bool.false_eq_true,
    if_false]
  split
  · next hp =>
    rw [if_pos hp] at ha
    rw [localTarget, if_pos ha]
    exact .inl rfl
  · next hp =>
    rw [if_neg hp] at ha
    split
    · rw [localTarget, if_pos ha]
      exact .inl rfl
    · exact .inr rfl

/-- What is written for a specifier is a URL or a path, unless the specifier itself is neither and
leads to an asset by the import map. Then it is written as it stands. -/
theorem isQualified_linkText_iff {link : Link} {recorded : List String}
    (h : l.link ids specifier = .ok (link, recorded)) (slot : Nat → List Char) :
    (IsQualified (.ofList (Compiled.linkText slot link)) ↔
      IsQualified specifier ∨ ¬l.MapsToAsset specifier) ∧
    (¬IsQualified (.ofList (Compiled.linkText slot link)) → link = .passthrough specifier) := by
  obtain ⟨cause, hs⟩ | ⟨text, ht, hs⟩ | ⟨id, hashed, ht, hs⟩ := l.link_cases specifier
  · rw [hs] at h
    cases h
  · rw [hs] at h
    cases h
    rw [Compiled.linkText, String.ofList_toList]
    obtain hr | ⟨rfl, hq⟩ := outside_of_target ht
    · have hne : ¬l.MapsToAsset specifier ∨ IsQualified specifier := by
        refine or_iff_not_imp_left.2 fun ha ↦ ?_
        obtain he | he := target_of_mapsToAsset (not_not.1 ha)
        · rw [ht] at he
          cases he
          exact .inl hr
        · rw [ht] at he
          cases he
      exact ⟨⟨fun _ ↦ hne.symm, fun _ ↦ .inl hr⟩, fun hn ↦ absurd (.inl hr) hn⟩
    · refine ⟨⟨.inl, ?_⟩, fun _ ↦ rfl⟩
      rintro (hs | ha)
      · exact hs
      · exact hq.resolve_right ha
  · rw [hs] at h
    cases h
    have hq := l.isQualified_dependency slot (record ids id).1 id hashed
    refine ⟨⟨fun _ ↦ .inr fun ha ↦ ?_, fun _ ↦ hq⟩, fun hn ↦ absurd hq hn⟩
    obtain he | he := target_of_mapsToAsset ha
    all_goals
      rw [he] at ht
      obtain ⟨ht, -⟩ | ⟨ht, -⟩ := ht <;> cases ht

/-- A module is linked by a path. The style sheet to which the import map leads is not. -/
theorem isQualified_sampleLinkage :
    sampleLinkage.link [] "util" =
        .ok (.dependency 0 "./../lib/util" true, ["/lib/util.js"]) ∧
      IsQualified (.ofList (Compiled.linkText (fun _ ↦ "f00".toList)
        (.dependency 0 "./../lib/util" true))) ∧
      sampleLinkage.link [] "theme" = .ok (.passthrough "theme", []) ∧
      ¬IsQualified (.ofList (Compiled.linkText (fun _ ↦ "f00".toList) (.passthrough "theme"))) := by
  have hutil : sampleLinkage.link [] "util" =
      .ok (.dependency 0 "./../lib/util" true, ["/lib/util.js"]) := by decide
  have htheme : sampleLinkage.link [] "theme" = .ok (.passthrough "theme", []) := by decide
  have hmodule : ¬sampleLinkage.MapsToAsset "util" := by
    rintro ⟨-, text, ht, -, ha⟩
    obtain rfl : "/lib/util" = text := Option.some.inj ht
    exact absurd ha (by decide)
  have hasset : sampleLinkage.MapsToAsset "theme" :=
    ⟨by decide, "/style/site.css", rfl, by decide, by decide⟩
  have hbare : ¬IsQualified "theme" := by decide
  refine ⟨hutil, (isQualified_linkText_iff hutil _).1.2 (.inr hmodule), htheme, fun hq ↦ ?_⟩
  exact ((isQualified_linkText_iff htheme _).1.1 hq).elim hbare fun hn ↦ hn hasset

end Linkage
end SiteCompiler
