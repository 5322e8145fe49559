import Mathlib
import SiteCompiler.Compilation

namespace SiteCompiler

namespace Linkage

variable {l : Linkage} {locate? : String → Option String} {specifier id : String}

def among (l : Linkage) (locate? : String → Option String) : Linkage :=
  { l with locate? }

def IsExplicit (l : Linkage) (specifier : String) : Prop :=
  ∀ locate?, (l.among locate?).target specifier = l.target specifier

def Explicit (l : Linkage) (dialect : Dialect) (source : String) : Prop :=
  ∀ template, Script.template? dialect source = some template →
    ∀ value, Script.Chunk.specifier value ∈ template → l.IsExplicit value.toText

/-- Files do not matter for a path just if it names an asset or has the extension of a dialect. -/
theorem localTarget_among_iff :
    (∀ locate?, (l.among locate?).localTarget specifier id = l.localTarget specifier id) ↔
      isAsset id = true ∨ (Dialect.ofPath? id).isSome = true := by
  constructor
  · intro h
    refine Decidable.byContradiction fun hn ↦ ?_
    rw [not_or, Bool.not_eq_true, Bool.not_eq_true, Option.isSome_eq_false_iff] at hn
    have hto : ∀ other, (l.among fun _ ↦ some other).localTarget specifier id =
        .localModule other := by
      intro other
      rw [localTarget, hn.1, if_neg Bool.false_ne_true, if_pos hn.2]
      rfl
    have he := (hto "a").symm.trans ((h _).trans ((h _).symm.trans (hto "b")))
    exact absurd (Target.localModule.inj he) (by decide)
  · rintro (h | h) locate?
    · rw [localTarget, localTarget, if_pos h, if_pos h]
    · have hn : (Dialect.ofPath? id).isNone = false := by
        rw [Option.isNone_eq_false_iff]
        exact h
      rw [localTarget, localTarget, hn, if_neg Bool.false_ne_true, if_neg Bool.false_ne_true]

theorem isExplicit_of_path (hm : l.importMap.resolve? specifier = none)
    (h : (Dialect.ofPath? (ModuleId.resolveLocal l.importer specifier)).isSome = true) :
    l.IsExplicit specifier := by
  intro locate?
  have hsame : (l.among locate?).localTarget specifier (ModuleId.resolveLocal l.importer specifier) =
      l.localTarget specifier (ModuleId.resolveLocal l.importer specifier) :=
    localTarget_among_iff.2 (.inr h) locate?
  have hm' : (l.among locate?).importMap.resolve? specifier = none := hm
  have hi : (l.among locate?).importer = l.importer := rfl
  have hr : ∀ url, (l.among locate?).remoteTarget url = l.remoteTarget url := fun _ ↦ rfl
  simp only [target, hm, hm', hi, hr, hsame, Option.getD_none, Option.isSome_none, Bool.false_and,
    Bool.false_eq_true, if_false]

theorem isExplicit_of_isRemote (h : ModuleId.isRemote l.importer = true) (specifier : String) :
    l.IsExplicit specifier := by
  intro locate?
  have h' : ModuleId.isRemote (l.among locate?).importer = true := h
  simp only [target, h, h', if_true]
  rfl

theorem explicit_of_isRemote (h : ModuleId.isRemote l.importer = true) (dialect : Dialect)
    (source : String) : l.Explicit dialect source :=
  fun _ _ _ _ ↦ isExplicit_of_isRemote h _

theorem Explicit.among {dialect : Dialect} {source : String} (h : l.Explicit dialect source) :
    (l.among locate?).Explicit dialect source :=
  fun template ht value hv other ↦
    (h template ht value hv other).trans (h template ht value hv locate?).symm

/-- Two linkages of one module lead each specifier of a source to the same target. -/
structure Agrees (l l' : Linkage) (dialect : Dialect) (source : String) : Prop where
  importer : l'.importer = l.importer
  target : ∀ template, Script.template? dialect source = some template →
    ∀ value, Script.Chunk.specifier value ∈ template → l'.target value.toText = l.target value.toText

theorem Explicit.agrees {dialect : Dialect} {source : String} (h : l.Explicit dialect source) :
    l.Agrees (l.among locate?) dialect source :=
  ⟨rfl, fun template ht value hv ↦ h template ht value hv locate?⟩

def localPath? (l : Linkage) (specifier : String) : Option String :=
  let mapped := l.importMap.resolve? specifier
  let text := mapped.getD specifier
  let isPath := Text.startsWith text "/" || ModuleId.isRelative text
  if ModuleId.isRemote text then none
  else if ModuleId.isRemote l.importer then none
  else if mapped.isSome && (Text.startsWith text "/" || Text.startsWith text "./") then
    some (ModuleId.normalizeLocal text)
  else if isPath then some (ModuleId.resolveLocal l.importer text)
  else none

theorem target_of_localPath? (h : l.localPath? specifier = some id) :
    ModuleId.isRemote l.importer = false ∧ l.target specifier = .ok (l.localTarget specifier id) := by
  rw [localPath?] at h
  rw [target]
  generalize l.importMap.resolve? specifier = mapped at h ⊢
  generalize mapped.getD specifier = text at h ⊢
  split at h
  · cases h
  · next hr =>
    rw [if_neg hr]
    split at h
    · cases h
    · next hi =>
      rw [if_neg hi]
      refine ⟨Bool.eq_false_iff.2 hi, ?_⟩
      split at h
      · next hm => rw [if_pos hm, Option.some.inj h]
      · next hm =>
        rw [if_neg hm]
        split at h
        · next hp => rw [if_pos hp, Option.some.inj h]
        · cases h

theorem exists_localPath?_of_target (h : l.target specifier = .ok (.localModule id)) :
    ∃ path, l.localPath? specifier = some path ∧ l.localTarget specifier path = .localModule id := by
  have hremote : ∀ url, Except.ok (l.remoteTarget url) ≠
      (.ok (.localModule id) : Except Linkage.Error Target) := by
    intro url he
    have he := Except.ok.inj he
    rw [remoteTarget] at he
    split at he <;> cases he
  rw [target] at h
  rw [localPath?]
  generalize l.importMap.resolve? specifier = mapped at h ⊢
  generalize mapped.getD specifier = text at h ⊢
  split at h
  · split at h
    · exact absurd h (hremote _)
    · cases h
  · next hr =>
    rw [if_neg hr]
    split at h
    · split at h
      · split at h
        · exact absurd h (hremote _)
        · cases h
      · cases h
    · next hi =>
      rw [if_neg hi]
      split at h
      · next hm => exact ⟨_, if_pos hm, Except.ok.inj h⟩
      · next hm =>
        rw [if_neg hm]
        split at h
        · next hp => exact ⟨_, if_pos hp, Except.ok.inj h⟩
        · cases h

theorem normalizeLocal_of_localPath? (h : l.localPath? specifier = some id) :
    ∃ path, id = ModuleId.normalizeLocal path := by
  rw [localPath?] at h
  generalize l.importMap.resolve? specifier = mapped at h
  generalize mapped.getD specifier = text at h
  split at h
  · cases h
  · split at h
    · cases h
    · split at h
      · exact ⟨text, (Option.some.inj h).symm⟩
      · split at h
        · rw [ModuleId.resolveLocal] at h
          split at h
          · exact ⟨_, (Option.some.inj h).symm⟩
          · exact ⟨_, (Option.some.inj h).symm⟩
        · cases h

theorem link_eq {l' : Linkage} (hi : l'.importer = l.importer)
    (h : l'.target specifier = l.target specifier) (dependencies : List String) :
    l'.link dependencies specifier = l.link dependencies specifier := by
  have hp : ∀ id, l'.pathTo id = l.pathTo id := fun id ↦ by rw [pathTo, pathTo, hi]
  simp only [link, h, hi, hp]

end Linkage

namespace Compiled

open Linkage (link_eq)

variable {l l' : Linkage} {locate? : String → Option String} {dialect : Dialect} {source : String}

theorem linkAll_eq {template : Script.Template} (hi : l'.importer = l.importer)
    (h : ∀ value, Script.Chunk.specifier value ∈ template →
      l'.target value.toText = l.target value.toText) (dependencies : List String) :
    linkAll l' dependencies template = linkAll l dependencies template := by
  induction template generalizing dependencies with
  | nil => rfl
  | cons part rest ih =>
    have ih := ih fun value hm ↦ h value (List.mem_cons_of_mem part hm)
    cases part with
    | text content => rw [linkAll, linkAll, ih]
    | specifier value =>
      rw [linkAll, linkAll, link_eq hi (h value List.mem_cons_self)]
      cases l.link dependencies value.toText with
      | error cause => dsimp only; rw [ih]
      | ok r =>
        obtain ⟨link, dependencies⟩ := r
        cases link <;> dsimp only <;> rw [ih]

theorem compile_eq_of_agrees (h : l.Agrees l' dialect source) (withMap : Bool) :
    compile l' dialect source withMap = compile l dialect source withMap := by
  rw [compile, compile, h.importer]
  cases ht : Script.template? dialect source with
  | none => rfl
  | some template =>
    dsimp only
    rw [linkAll_eq h.importer (h.target template ht)]

theorem compile_among (h : l.Explicit dialect source) (withMap : Bool) :
    compile (l.among locate?) dialect source withMap = compile l dialect source withMap :=
  compile_eq_of_agrees h.agrees withMap

theorem compile_withMap {withMap : Bool} {c : Compiled} (h : compile l dialect source withMap = .ok c)
    (withMap' : Bool) :
    ∃ sourceMap, compile l dialect source withMap' = .ok { c with sourceMap } ∧
      sourceMap.isSome = withMap' := by
  rw [compile] at h ⊢
  dsimp only at h ⊢
  cases hlead : freeLead? [source.toList] with
  | none => rw [hlead] at h; cases h
  | some lead =>
    cases ht : Script.template? dialect source with
    | none => rw [hlead, ht] at h; cases h
    | some template =>
      rw [hlead, ht] at h
      dsimp only at h ⊢
      rcases hl : linkAll l [] template with ⟨pieces, dependencies, _ | ⟨_, _⟩⟩ <;> rw [hl] at h
      · dsimp only at h ⊢
        cases ha : assemble? source.toList lead pieces with
        | none => rw [ha] at h; cases h
        | some r =>
          rw [ha] at h
          dsimp only at h ⊢
          split at h
          · next hw =>
            obtain rfl := Except.ok.inj h
            refine ⟨_, if_pos hw, ?_⟩
            cases withMap' <;> rfl
          · cases h
      · cases h

end Compiled
end SiteCompiler
