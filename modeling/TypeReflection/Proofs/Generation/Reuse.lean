import TypeReflection.Proofs.Generation.ForcedRun
import TypeReflection.Proofs.FileId.Render

/-!
# Reusing a generated file

With `force` off, a header is first offered its generated file: `reusableId` reads the times of
the header and of the generated file and, when the generated file is at least as new, the id it
records. On a memory disk that check changes nothing, and its answer depends only on what the
two paths name (`reusableId_congr`): nothing when the generated file is missing
(`reusableId_of_missing`), and the recorded id when both are files and the generated one is not
older (`reusableId_of_files`). Processing a header then reuses that id or generates the header
(`runOn_processHeader_of_not_force`).

The names the run writes into the output directory are told apart by their suffixes: generated
files by their stems, and the project header from all of them. The ids a memory disk gives are
valid (`parse_idAt`).
-/

set_option autoImplicit false

namespace TypeReflection

open MemoryDisk

namespace Naming

theorem generatedFileName_injective : Function.Injective generatedFileName := by
  intro a b h
  simpa [generatedFileName] using h

theorem endsWith_generatedFileName (stem : String) :
    (generatedFileName stem).endsWith generatedSuffix = true := by
  rw [endsWith_eq_true_iff_suffix, generatedFileName, String.toList_append]
  exact List.suffix_append _ _

/-- The project header never takes the name of a generated file: their last twelve characters
differ. -/
theorem projectFileName_ne_generatedFileName (project stem : String) :
    projectFileName project ≠ generatedFileName stem := by
  intro h
  have hl := congrArg String.toList h
  simp only [projectFileName, generatedFileName, generatedSuffix, String.toList_append] at hl
  have hsuffix := (List.append_inj' hl (by decide)).2
  exact absurd hsuffix (by decide)

theorem isName_projectFileName {project : String} (h : '/' ∉ project.toList) :
    IsName (projectFileName project) :=
  IsName.append h (by decide) (by decide)

end Naming

namespace MemoryDisk

/-- Every id a memory disk gives is valid. -/
theorem parse_idAt (n : Nat) : FileId.parse (idAt n).text = .ok (idAt n) :=
  FileId.parse_ofBytes (by simp [wordBytes])

theorem fromUTF8?_toUTF8 (s : String) : String.fromUTF8? s.toUTF8 = some s := by
  unfold String.fromUTF8?
  rw [String.toUTF8_eq_toByteArray, dif_pos s.isValidUTF8]
  rfl

/-! ### The reading operations as runs -/

variable (d : MemoryDisk)

@[simp] theorem run_readBytes (p : Path) :
    (MonadDisk.readBytes p : MemoryRun _).run d = ((d.readText p).map String.toUTF8, d) := rfl

theorem run_modified (p : Path) :
    (Disk.modified? p : MemoryRun _).run d = ((d.metadata p).toOption.map (·.modified), d) := by
  unfold Disk.modified?
  rw [stateRun_bind, run_metadata]
  cases d.metadata p <;> rfl

/-- Reading a file as UTF-8 gives back the text it holds. -/
theorem run_readUtf8 (p : Path) : (Disk.readText p : MemoryRun _).run d = (d.readText p, d) := by
  unfold Disk.readText
  rw [stateRun_bind, run_readBytes]
  cases d.readText p with
  | error e => rfl
  | ok c =>
    simp only [Except.map, fromUTF8?_toUTF8]
    rfl

/-- The reuse check on a memory disk, in closed form: it changes nothing. -/
theorem run_reusableId (header gp : Path) :
    (Generation.reusableId header gp : MemoryRun _).run d =
      ((match (d.metadata header).toOption, (d.metadata gp).toOption with
        | some mh, some mg =>
          if mg.modified < mh.modified then none
          else (d.readText gp).toOption.bind fun c => (FileId.fromGenerated c).toOption
        | _, _ => none), d) := by
  unfold Generation.reusableId
  rw [stateRun_bind, run_modified]
  cases d.metadata header with
  | error e => rfl
  | ok mh =>
    simp only [Except.toOption, Option.map_some]
    rw [stateRun_bind, run_modified]
    cases d.metadata gp with
    | error e => rfl
    | ok mg =>
      simp only [Except.toOption, Option.map_some]
      -- an older generated file is not read at all
      by_cases hlt : mg.modified < mh.modified
      · simp only [hlt, if_true]
        rfl
      · simp only [hlt, if_false]
        rw [stateRun_bind, run_readUtf8]
        cases d.readText gp <;> rfl

/-! ### What the reuse check answers -/

variable {d} {d' : MemoryDisk} {header gp : Path}

/-- The reuse check reads only what the header and the generated file name. -/
theorem reusableId_congr (hh : d'.existing header = d.existing header)
    (hg : d'.existing gp = d.existing gp) :
    ((Generation.reusableId header gp : MemoryRun _).run d').1 =
      ((Generation.reusableId header gp : MemoryRun _).run d).1 := by
  rw [run_reusableId, run_reusableId]
  simp only [metadata, readText, hh, hg]

theorem reusableId_of_missing {e : IoError} (hg : d.existing gp = .error e) :
    ((Generation.reusableId header gp : MemoryRun _).run d).1 = none := by
  have hmg : (d.metadata gp).toOption = none := by
    simp [metadata, hg, bind, Except.bind, Except.toOption]
  rw [run_reusableId, hmg]
  cases (d.metadata header).toOption <;> rfl

/-- When the header and the generated file are files and the generated one is not older, the
check answers the id the generated file records, if it records a valid one. -/
theorem reusableId_of_files {names gnames : List String} {c cg : String} {t tg : Int}
    (hh : d.existing header = .ok (names, .file c t)) (hg : d.existing gp = .ok (gnames, .file cg tg))
    (ht : t ≤ tg) :
    ((Generation.reusableId header gp : MemoryRun _).run d).1 = (FileId.fromGenerated cg).toOption := by
  have hmh : d.metadata header = .ok ⟨.file, t⟩ := by
    simp [metadata, hh, bind, Except.bind, pure, Except.pure]
  have hmg : d.metadata gp = .ok ⟨.file, tg⟩ := by
    simp [metadata, hg, bind, Except.bind, pure, Except.pure]
  have hrg : d.readText gp = .ok cg := by
    simp [readText, hg, bind, Except.bind, pure, Except.pure]
  rw [run_reusableId, hmh, hmg, hrg]
  simp [Except.toOption, Int.not_lt.2 ht]

end MemoryDisk

/-! ### Processing a header with `force` off -/

/-- With `force` off, a header whose check answers an id is reused, and any other is generated. -/
theorem runOn_processHeader_of_not_force {s : Settings} (hf : s.force = false) (d : MemoryDisk)
    (output header : Path) (includedAs : String) :
    d.runOn (Generation.processHeader s output header includedAs) =
      match ((Generation.reusableId header (Generation.generatedPath output header) :
          MemoryRun _).run d).1 with
      | some id => (.ok (.reused id), d)
      | none => d.runOn (Generation.generate output header includedAs) := by
  simp only [Generation.processHeader, hf, Bool.not_false, if_true]
  obtain ⟨v, hv⟩ : ∃ v, (Generation.reusableId header (Generation.generatedPath output header) :
      MemoryRun _).run d = (v, d) := ⟨_, run_reusableId d _ _⟩
  rw [runOn_bind, runOn_lift, hv]
  rcases v with _ | id <;> rfl

/-- A header whose text does not ask for reflection is skipped, and nothing changes. -/
theorem generate_of_asks_false {d : MemoryDisk} {output header : Path} {includedAs c : String}
    (hc : d.readText header = .ok c)
    (hasks : Generation.asksForReflection (Utf8.decodeLossy c.toUTF8) (header.stem?.getD "") = false) :
    d.runOn (Generation.generate output header includedAs) = (.ok .skipped, d) := by
  unfold Generation.generate
  rw [runOn_bind]
  have hread : d.runOn (Generation.attempt (.io header) (Disk.readLossy header) : ExceptT _ MemoryRun _) =
      (.ok (Utf8.decodeLossy c.toUTF8), d) := by
    rw [runOn_attempt_eq_ok, run_readLossy, hc]
    rfl
  rw [hread]
  dsimp only
  rw [if_pos (by simp only [hasks, Bool.not_false])]
  rfl

end TypeReflection
