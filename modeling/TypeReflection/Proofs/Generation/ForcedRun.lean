import TypeReflection.Generation
import TypeReflection.Proofs.Disk.Scan

/-!
# What a forced run passes to the project header

With `force` set, every header found is either skipped or generated under a fresh id; none is
reused. On a disk whose names are canonical, a run that succeeds therefore writes a project header
whose entries are headers of the disk it started from, each asking for reflection in its own text,
under the ids issued during the run in order (`forcedRun_entries`).

The proof carries one invariant through the scan (`ForcedScan`): the disk is unchanged outside the
output directory, and the entries so far are such headers under consecutive ids. Generating one
header keeps it (`ForcedScan.generate`, from `generate_eq_ok`), hence so do the loops over the
headers of a root and over the roots. Creating the output directory first only adds directories,
which keeps every file.
-/

set_option autoImplicit false

namespace TypeReflection

open MemoryDisk

theorem fileName?_nameText {ks : List String} (hks : ∀ n ∈ ks, IsName n) :
    (⟨nameText ks⟩ : Path).fileName? = ks.getLast? := by
  rw [Path.fileName?, parts_nameText hks]
  rcases List.eq_nil_or_concat ks with rfl | ⟨ks', n, rfl⟩
  · rfl
  · simp [List.getLast?_cons]

theorem mem_of_mem_splitExtension {n : String} {c : Char}
    (h : c ∈ (Path.splitExtension n).1.toList) : c ∈ n.toList := by
  dsimp only [Path.splitExtension] at h
  split at h
  · exact h
  · split at h
    · exact h
    · exact List.mem_of_mem_take (by simpa using h)

/-- The stem of the file at the canonical names `ks`, which names its generated file. -/
def headerStem (ks : List String) : String := (⟨nameText ks⟩ : Path).stem?.getD ""

/-- The generated file of a header found on a canonical disk has a plain name. -/
theorem isName_generatedFileName {ks : List String} (hks : ∀ n ∈ ks, IsName n) :
    IsName (Naming.generatedFileName (headerStem ks)) := by
  have hstem : '/' ∉ (headerStem ks).toList := by
    rw [headerStem, Path.stem?, fileName?_nameText hks]
    cases hlast : ks.getLast? with
    | none => simp
    | some n =>
      have hn : IsName n := hks n (List.mem_of_getLast? hlast)
      exact fun h => hn.no_separator (mem_of_mem_splitExtension h)
  exact IsName.append hstem (by decide) (by decide)

theorem isName_generatedPath {outs ks : List String} (hout : ∀ n ∈ outs, IsName n)
    (hks : ∀ n ∈ ks, IsName n) : ∀ n ∈ outs ++ [Naming.generatedFileName (headerStem ks)], IsName n := by
  simpa [or_imp, forall_and] using ⟨hout, isName_generatedFileName hks⟩

theorem processHeader_of_force {m : Type → Type} [Monad m] [MonadDisk m] [MonadFileIds m]
    {s : Settings} (hf : s.force = true) (output header : Path) (includedAs : String) :
    (Generation.processHeader s output header includedAs : ExceptT GenerationError m Outcome) =
      Generation.generate output header includedAs := by
  simp [Generation.processHeader, hf]

theorem generatedPath_nameText {outs ks : List String} (hout : ∀ n ∈ outs, IsName n)
    (hks : ∀ n ∈ ks, IsName n) :
    Generation.generatedPath ⟨nameText outs⟩ ⟨nameText ks⟩ =
      ⟨nameText (outs ++ [Naming.generatedFileName (headerStem ks)])⟩ :=
  join_nameText hout (isName_generatedFileName hks)

namespace MemoryDisk

variable {α : Type} {d d' : MemoryDisk}

theorem runOn_attempt_eq_ok {wrap : IoError → GenerationError} {act : MemoryRun (Except IoError α)}
    {a : α} :
    d.runOn (Generation.attempt wrap act) = (.ok a, d') ↔
      (act.run d : Except IoError α × MemoryDisk) = (.ok a, d') := by
  show (((act.run d).1.mapError wrap, (act.run d).2) = _) ↔ _
  rcases act.run d with ⟨_ | b, d₁⟩ <;> constructor <;> intro h <;> cases h <;> rfl

theorem run_writeText_eq_ok {p : Path} {c : String} :
    ((MonadDisk.writeText p c : MemoryRun _).run d : Except IoError Unit × MemoryDisk) = (.ok (), d') ↔
      d.writeText p c = .ok d' := by
  rw [run_writeText]
  cases d.writeText p c <;> constructor <;> intro h <;> cases h <;> rfl

end MemoryDisk

/-- What generating one canonical header does: it reads the header, which is a file. If its text does not
ask for reflection, the header is skipped and nothing changes; otherwise it is generated under the
next id, whose generated file is written into `outs` with the time of the clock. -/
theorem generate_eq_ok {d d' : MemoryDisk} {outs ks : List String}
    (hout : ∀ n ∈ outs, IsName n) (hks : ∀ n ∈ ks, IsName n) {includedAs : String} {o : Outcome}
    (h : d.runOn (Generation.generate ⟨nameText outs⟩ ⟨nameText ks⟩ includedAs) = (.ok o, d')) :
    ∃ c t, d.existing ⟨nameText ks⟩ = .ok (ks, .file c t) ∧
      (Generation.asksForReflection (Utf8.decodeLossy c.toUTF8) (headerStem ks) = false ∧
          o = .skipped ∧ d' = d ∨
        Generation.asksForReflection (Utf8.decodeLossy c.toUTF8) (headerStem ks) = true ∧
          o = .generated (idAt d.issued) ∧
          d' = ({ d with issued := d.issued + 1 } : MemoryDisk).put
            (outs ++ [Naming.generatedFileName (headerStem ks)])
            (.file (emitHeader (parseHeader (Utf8.decodeLossy c.toUTF8) (nameText ks)).decls
              (idAt d.issued) includedAs).contents d.clock)) := by
  simp only [Generation.generate, runOn_bind_eq_ok] at h
  obtain ⟨source, d₁, hread, h⟩ := h
  rw [runOn_attempt_eq_ok, run_readLossy] at hread
  obtain ⟨hsource, rfl⟩ := Prod.mk.inj hread
  obtain ⟨c, hc, rfl⟩ : ∃ c, d.readText ⟨nameText ks⟩ = .ok c ∧ Utf8.decodeLossy c.toUTF8 = source := by
    cases hr : d.readText ⟨nameText ks⟩ <;> simp_all [Except.map]
  obtain ⟨names, t, hex⟩ := existing_of_readText hc
  obtain ⟨⟨w, hres⟩, -⟩ := existing_eq_ok hex
  obtain rfl := resolve_nameText hks hres
  refine ⟨c, t, hex, ?_⟩
  split at h
  · next hasks =>
    simp only [runOn_pure, Prod.mk.injEq, Except.ok.injEq] at h
    exact .inl ⟨by simpa [headerStem] using hasks, h.1.symm, h.2.symm⟩
  next hasks =>
  split at h
  · simp at h
  -- the header asks for reflection and parses: it takes the next id and its file is written
  simp only [runOn_bind_eq_ok, runOn_lift, run_freshId, runOn_attempt_eq_ok, runOn_pure,
    Prod.mk.injEq, Except.ok.injEq] at h
  obtain ⟨id, d₂, ⟨rfl, rfl⟩, ⟨⟩, d₃, hwrite, rfl, rfl⟩ := h
  rw [generatedPath_nameText hout hks, run_writeText_eq_ok] at hwrite
  obtain ⟨names', hres', -, rfl⟩ := writeText_eq_ok hwrite
  obtain rfl := resolve_nameText (isName_generatedPath hout hks) hres'
  exact .inr ⟨by simpa [headerStem] using hasks, rfl, rfl⟩


/-- An entry of a project header that includes a header of the disk `d` by its names below a
scan root `rs`, where the header's text asks for reflection. -/
def ReflectedEntry (d : MemoryDisk) (e : ProjectEntry) : Prop :=
  ∃ ks rs c t, d.node? ks = some (.file c t) ∧ isHeader ⟨nameText ks⟩ = true ∧ rs <+: ks ∧
    Generation.asksForReflection (Utf8.decodeLossy c.toUTF8)
      ((⟨nameText ks⟩ : Path).stem?.getD "") = true ∧
    e.includePath = "/".intercalate (ks.drop rs.length)

/-- What holds of a forced run while it scans, from the disk `d₀` on which the output directory
`outs` exists: the disk is unchanged outside `outs`, and the entries so far are reflected headers
of `d₀` under the ids issued since, in order. -/
structure ForcedScan (d₀ : MemoryDisk) (outs : List String) (d : MemoryDisk) (progress : Progress) :
    Prop where
  named : d.Named
  outside : ∀ ks, ¬ outs <+: ks → d.node? ks = d₀.node? ks
  issued : d.issued = d₀.issued + progress.entries.length
  ids : progress.entries.map (·.id) =
    (List.range progress.entries.length).map fun i => idAt (d₀.issued + i)
  entries : ∀ e ∈ progress.entries, ReflectedEntry d₀ e

namespace ForcedScan

variable {d₀ d d' : MemoryDisk} {outs rs : List String} {progress progress' : Progress}

theorem start (hd : d₀.Named) : ForcedScan d₀ outs d₀ {} :=
  ⟨hd, fun _ _ => rfl, rfl, rfl, fun _ he => absurd he List.not_mem_nil⟩

/-- Generating one header found below the scan root `rs` keeps the invariant. -/
theorem generate (inv : ForcedScan d₀ outs d progress) (hout : ∀ n ∈ outs, IsName n)
    (hrs : ∀ n ∈ rs, IsName n) {header : Path} (hbelow : HeaderBelow outs rs header) {o : Outcome}
    (h : d.runOn (Generation.generate ⟨nameText outs⟩ header (includePath header ⟨nameText rs⟩)) =
      (.ok o, d')) :
    ForcedScan d₀ outs d' (progress.record (includePath header ⟨nameText rs⟩) o) := by
  obtain ⟨ks, rfl, hks, hpre, hnot, hhdr⟩ := hbelow
  obtain ⟨c, t, hex, ⟨-, rfl, rfl⟩ | ⟨hasks, rfl, rfl⟩⟩ := generate_eq_ok hout hks h
  · exact ⟨inv.named, inv.outside, inv.issued, inv.ids, inv.entries⟩
  have hnode := (existing_eq_ok hex).2
  -- the new entry takes the next id, and its header is untouched since `d₀`
  have hnew : ReflectedEntry d₀ ⟨includePath ⟨nameText ks⟩ ⟨nameText rs⟩, idAt d.issued⟩ :=
    ⟨ks, rs, c, t, inv.outside ks hnot ▸ hnode, hhdr, hpre, hasks, includePath_nameText hks hrs hpre⟩
  refine ⟨(inv.named.withIssued _).put (isName_generatedPath hout hks) _, fun ks' h' => ?_, ?_, ?_,
    ?_⟩
  · have hne : ks' ≠ outs ++ [Naming.generatedFileName (headerStem ks)] :=
      fun he => h' (he ▸ List.prefix_append _ _)
    rw [node?_put_of_ne _ hne]
    exact inv.outside ks' h'
  · simp [Progress.record, inv.issued, Nat.add_assoc]
  · simp [Progress.record, List.range_succ, inv.ids, inv.issued]
  · intro e he
    simp only [Progress.record, List.mem_append, List.mem_singleton] at he
    rcases he with he | rfl
    · exact inv.entries e he
    · exact hnew

/-- Processing the headers found below the scan root `rs` keeps the invariant. -/
theorem processHeaders {s : Settings} (hforce : s.force = true) (hout : ∀ n ∈ outs, IsName n)
    (hrs : ∀ n ∈ rs, IsName n) {headers : List Path} (hbelow : ∀ p ∈ headers, HeaderBelow outs rs p)
    (inv : ForcedScan d₀ outs d progress)
    (h : d.runOn (Generation.processHeaders s ⟨nameText outs⟩ ⟨nameText rs⟩ headers progress) =
      (.ok progress', d')) :
    ForcedScan d₀ outs d' progress' := by
  induction headers generalizing d progress with
  | nil =>
    simp only [Generation.processHeaders, runOn_pure, Prod.mk.injEq, Except.ok.injEq] at h
    obtain ⟨rfl, rfl⟩ := h
    exact inv
  | cons header headers ih =>
    simp only [Generation.processHeaders, processHeader_of_force hforce, runOn_bind_eq_ok] at h
    obtain ⟨o, d₁, hgen, h⟩ := h
    exact ih (fun p hp => hbelow p (List.mem_cons_of_mem _ hp))
      (inv.generate hout hrs (hbelow header List.mem_cons_self) hgen) h

/-- Scanning one root keeps the invariant: the root is made canonical, and its headers are
found without changing the disk. -/
theorem scanRoot {s : Settings} (hforce : s.force = true) (hout : ∀ n ∈ outs, IsName n)
    {root : Path} (inv : ForcedScan d₀ outs d progress)
    (h : d.runOn (Generation.scanRoot s ⟨nameText outs⟩ root progress) = (.ok progress', d')) :
    ForcedScan d₀ outs d' progress' := by
  simp only [Generation.scanRoot, runOn_bind_eq_ok, runOn_attempt_eq_ok, run_canonicalize] at h
  obtain ⟨canonical, d₁, hc, headers, d₂, hcollect, h⟩ := h
  obtain ⟨hcanon, rfl⟩ := Prod.mk.inj hc
  obtain ⟨rs, w, hres, -, rfl⟩ := canonicalize_eq_ok hcanon
  have hrs := inv.named.resolve hres
  obtain ⟨rfl, hbelow⟩ := collectHeaders_eq_ok inv.named hout hrs hcollect
  exact inv.processHeaders hforce hout hrs hbelow h

/-- Scanning the roots in turn keeps the invariant. -/
theorem scanRoots {s : Settings} (hforce : s.force = true) (hout : ∀ n ∈ outs, IsName n)
    {roots : List Path} (inv : ForcedScan d₀ outs d progress)
    (h : d.runOn (Generation.scanRoots s ⟨nameText outs⟩ roots progress) = (.ok progress', d')) :
    ForcedScan d₀ outs d' progress' := by
  induction roots generalizing d progress with
  | nil =>
    simp only [Generation.scanRoots, runOn_pure, Prod.mk.injEq, Except.ok.injEq] at h
    obtain ⟨rfl, rfl⟩ := h
    exact inv
  | cons root roots ih =>
    simp only [Generation.scanRoots, runOn_bind_eq_ok, runOn_lift, run_pathExists] at h
    obtain ⟨exists_, d₁, hc, h⟩ := h
    obtain ⟨-, rfl⟩ := Prod.mk.inj hc
    -- a root that does not exist is passed over
    split at h
    · obtain ⟨progress₁, d₂, hscan, h⟩ := runOn_bind_eq_ok.1 h
      exact ih (inv.scanRoot hforce hout hscan) h
    · obtain ⟨progress₁, d₂, hskip, h⟩ := runOn_bind_eq_ok.1 h
      simp only [runOn_pure, Prod.mk.injEq, Except.ok.injEq] at hskip
      obtain ⟨rfl, rfl⟩ := hskip
      exact ih inv h

end ForcedScan

theorem ReflectedEntry.of_dirsAdded {d d' : MemoryDisk} (hadded : DirsAdded d d') {e : ProjectEntry}
    (h : ReflectedEntry d' e) : ReflectedEntry d e := by
  obtain ⟨ks, rs, c, t, hnode, hrest⟩ := h
  exact ⟨ks, rs, c, t, hadded.node?_file hnode, hrest⟩

/-- A forced run on a disk with canonical names, if it succeeds, writes a project header whose
entries carry distinct ids (as long as the ids issued during the run are) and each include a
header of the disk whose own text asks for reflection. -/
theorem forcedRun_entries {s : Settings} (hforce : s.force = true) {d d' : MemoryDisk}
    (hd : d.Named) {summary : Summary} (hrun : d.runOn (Generation.run s) = (.ok summary, d'))
    (hfresh : ((List.range (d'.issued - d.issued)).map fun i => idAt (d.issued + i)).Nodup) :
    ∃ entries : List ProjectEntry,
      d'.readText summary.projectFile = .ok (projectHeader s.project s.prelude entries) ∧
      (entries.map (·.id)).Nodup ∧ ∀ e ∈ entries, ReflectedEntry d e := by
  simp only [Generation.run, runOn_bind_eq_ok, runOn_attempt_eq_ok, run_canonicalize,
    runOn_pure] at hrun
  obtain ⟨⟨⟩, dA, hdirs, output, d₂, hc, progress, d₃, hscan, ⟨⟩, d₄, hwrite, hdone⟩ := hrun
  obtain ⟨hsummary, rfl⟩ := Prod.mk.inj hdone
  cases hsummary
  -- creating the output directory only adds directories
  have hadded : DirsAdded d dA := by simpa [hdirs] using OnlyAddsDirs.createDirAll s.output d
  obtain ⟨hcanon, rfl⟩ := Prod.mk.inj hc
  obtain ⟨outs, w, hres, -, rfl⟩ := canonicalize_eq_ok hcanon
  have hnamed := hadded.named hd
  have inv := (ForcedScan.start hnamed).scanRoots hforce (hnamed.resolve hres) hscan
  rw [run_writeText_eq_ok] at hwrite
  have hcount : d₄.issued - d.issued = progress.entries.length := by
    rw [issued_writeText hwrite, inv.issued, hadded.issued]
    omega
  refine ⟨progress.entries, readText_writeText hwrite, ?_, fun e he =>
    (inv.entries e he).of_dirsAdded hadded⟩
  rw [inv.ids, hadded.issued]
  rwa [hcount] at hfresh

end TypeReflection
