import Mathlib
import SiteCompiler.Proofs.ArtifactStore
import SiteCompiler.Proofs.Record

namespace SiteCompiler.ArtifactStore

variable {s : ArtifactStore} {disk disk' : Disk} {stem code : String} {hash sourceMap : Option String}
variable {m : ModuleMeta}

theorem recordText_toUTF8 (text : String) : recordText text.toUTF8 = text := by
  rw [recordText, Text.Utf8.decode?_toUTF8, Option.getD_some]

/-- A record is read from the store as it was written, and written again it gives the octets that are
stored. -/
theorem readRecord?_write
    (h : disk.perform (s.write stem m.text (s.codePath stem hash) code sourceMap) =
      (.ok (), disk')) :
    s.readRecord? disk' stem = some m ∧
      (s.readRecord? disk' stem).map (·.text.toUTF8) =
        (disk'.readBytes (s.recordPath stem)).toOption := by
  have hbytes : disk'.readBytes (s.recordPath stem) = .ok m.text.toUTF8 := by
    have hread := readText?_eq_some (readText?_recordPath (congrArg Prod.fst h))
    rwa [h] at hread
  have hread : s.readRecord? disk' stem = some m := by
    rw [readRecord?, hbytes, Except.toOption, Option.bind_some, recordText_toUTF8]
    exact m.read?_text
  refine ⟨hread, ?_⟩
  rw [hread, hbytes, Option.map_some, Except.toOption]

/-- A record with the last word for numbers and texts of quotes, control characters and a line
separator. -/
def sampleRecord : ModuleMeta where
  sourceFile := "/a\"b\\.tsx"
  dialect := .tsx
  sourceHash := "\u0000\n\u007f"
  hash := "é"
  dependencies := [⟨"/\u2028", ""⟩]
  slots := [⟨0xffffffffffffffff, 0xffffffffffffffff⟩, ⟨0, 1⟩]
  isRemote := true

def sampleDisk : Disk where
  workingDirectory := ["w"]
  entries := [(["w"], .directory), (["w", "c"], .directory)]

theorem readRecord?_write_sampleRecord :
    ∃ disk', sampleDisk.perform ((⟨"c"⟩ : ArtifactStore).write "/a" sampleRecord.text
        ((⟨"c"⟩ : ArtifactStore).codePath "/a" none) "" none) = (.ok (), disk') ∧
      (⟨"c"⟩ : ArtifactStore).readRecord? disk' "/a" = some sampleRecord := by
  have h : (sampleDisk.perform ((⟨"c"⟩ : ArtifactStore).write "/a" sampleRecord.text
      ((⟨"c"⟩ : ArtifactStore).codePath "/a" none) "" none)).1 = .ok () := by
    rfl
  exact ⟨_, Prod.ext h rfl, (readRecord?_write (Prod.ext h rfl)).1⟩

end SiteCompiler.ArtifactStore
