import TypeReflection.Proofs.Generation.FirstRun

/-!
# Running the generator twice

A second run with `force` off, from the disk a first run left, repeats the first run's project
header and changes nothing on the disk, provided the first run started from a `Rerunnable` disk
(`rerun_repeats_first_run`). Headers of one stem that disagree on asking for reflection are what
breaks this otherwise: a header skipped by the first run finds, in the second, the generated file
that a later header of its stem wrote, and is reused under that header's id.

The second run is followed header by header alongside the first (`processHeader_lockstep`). It
meets every header on a disk that agrees with the first run's outside the output directory, and
whose generated files are those the rest of the first run left (`Later`). A header whose generated
file was there in the first run is reused alike. One the first run skipped has no generated file
in the second either, since any header of its stem skips too, and it is skipped again. One the
first run generated finds its generated file, as new as the clock and recording the id it was
given, and is reused under that id. So the second run gives every header the same entry,
generates nothing, and writes the same project header.
-/

set_option autoImplicit false

namespace TypeReflection

open MemoryDisk

/-- The id an outcome gives its header in the project header, if any. -/
def Outcome.entryId? : Outcome → Option FileId
  | .generated id | .reused id => some id
  | .skipped => none

namespace Progress

theorem entries_record (p : Progress) (includedAs : String) (o : Outcome) :
    (p.record includedAs o).entries =
      p.entries ++ (o.entryId?.map fun id => ⟨includedAs, id⟩).toList := by
  cases o <;> simp [record, Outcome.entryId?]

theorem generated_record {p : Progress} {includedAs : String} {o : Outcome}
    (h : ∀ id, o ≠ .generated id) : (p.record includedAs o).generated = p.generated := by
  cases o with
  | generated id => exact absurd rfl (h id)
  | reused id => rfl
  | skipped => rfl

end Progress

variable {s : Settings} {outs : List String} {roots : List (List String)} {d₀ d d' D : MemoryDisk}

namespace FirstRun

variable (hs : Rerunnable s outs roots d₀) (inv : FirstRun outs d₀ d) (invD : FirstRun outs d₀ D)
include hs inv invD

/-- The second run meets a scanned header on a disk `D` that agrees with the first run's outside
the output directory and holds the generated files the rest of the first run left: it gives the
header the entry the first run gave it, changes nothing, and generates nothing. -/
theorem processHeader_lockstep {rs ks : List String} (hrs : rs ∈ roots) (hks : ∀ n ∈ ks, IsName n)
    (hpre : rs <+: ks) (hnot : ¬ outs <+: ks) (hhdr : isHeader ⟨nameText ks⟩ = true) {o : Outcome}
    (h : d.runOn (Generation.processHeader s ⟨nameText outs⟩ ⟨nameText ks⟩
      (includePath ⟨nameText ks⟩ ⟨nameText rs⟩)) = (.ok o, d'))
    (hlater : Later outs roots d₀ d' D) :
    ∃ o', D.runOn (Generation.processHeader s ⟨nameText outs⟩ ⟨nameText ks⟩
        (includePath ⟨nameText ks⟩ ⟨nameText rs⟩)) = (.ok o', D) ∧
      o'.entryId? = o.entryId? ∧ ∀ id, o' ≠ .generated id := by
  have hscan : Scanned outs roots ks := ⟨hhdr, hnot, rs, hrs, hpre⟩
  have hexH : D.existing ⟨nameText ks⟩ = d.existing ⟨nameText ks⟩ :=
    (existing_nameText_agree invD.agree hks hnot).trans
      (existing_nameText_agree inv.agree hks hnot).symm
  have hexG := invD.existing_generatedPath hs hks
  have hlaterD : Later outs roots d₀ d D :=
    (inv.processHeader hs hrs hks hpre hnot hhdr h).2.trans hlater
  rw [runOn_processHeader_reuseAnswer hs.force]
  rcases inv.processHeader_cases hs hrs hks hpre hnot hhdr h with
    ⟨id, hv, hne, rfl, -⟩ | ⟨hnone, c, t, hnode₀, hex, ⟨hasks, rfl, -⟩ | ⟨hasks, rfl, e, he, rfl⟩⟩
  · -- the generated file is still there, so the check answers as it did
    have hsame : reuseAnswer outs ks D = reuseAnswer outs ks d := by
      refine reusableId_congr hexH ?_
      rw [hexG, inv.existing_generatedPath hs hks, hlaterD.kept _ hne]
    refine ⟨.reused id, by rw [hsame, hv], rfl, fun _ h => by cases h⟩
  · -- no generated file of the stem appears later, as a header of the stem that asks for
    -- reflection would make this one ask too
    have hnoneD : D.node? (outs ++ [Naming.generatedFileName (headerStem ks)]) = none := by
      cases hD : D.node? (outs ++ [Naming.generatedFileName (headerStem ks)]) with
      | none => rfl
      | some nd =>
        obtain ⟨f, hf, hfscan, hfstem, hfasks⟩ := hlaterD.made _ hnone (by simp [hD])
        have hsame := hs.stems _ (mem_files_of_node? hnode₀) f hf hscan hfscan hfstem.symm
        rw [hfasks] at hsame
        exact absurd hsame (by simpa [StoredFile.asksForReflection] using hasks)
    have hmiss : D.existing (Generation.generatedPath ⟨nameText outs⟩ ⟨nameText ks⟩) =
        .error .notFound := by rw [hexG, hnoneD]
    have hread : D.readText ⟨nameText ks⟩ = .ok c := by
      simp [readText, hexH, hex, bind, Except.bind, pure, Except.pure]
    rw [show reuseAnswer outs ks D = none from reusableId_of_missing hmiss]
    exact ⟨.skipped, generate_of_asks_false hread hasks, rfl, fun _ h => by cases h⟩
  · -- the generated file the first run wrote is still there, with the id it records
    have hG : D.node? (outs ++ [Naming.generatedFileName (headerStem ks)]) =
        some (.file e d₀.clock) := by
      rw [hlater.kept _ (by simp [node?_put_self]), node?_put_self _ (by simp), inv.clock]
    have hexGD : D.existing (Generation.generatedPath ⟨nameText outs⟩ ⟨nameText ks⟩) =
        .ok (outs ++ [Naming.generatedFileName (headerStem ks)], .file e d₀.clock) := by
      rw [hexG, hG]
    have ht : t ≤ d₀.clock := hs.clock _ (mem_files_of_node? hnode₀)
    have hv : reuseAnswer outs ks D = some (idAt d.issued) := by
      rw [reuseAnswer, reusableId_of_files (hexH.trans hex) hexGD ht, he]
      rfl
    rw [hv]
    exact ⟨.reused (idAt d.issued), rfl, rfl, fun _ h => by cases h⟩

/-- The second run goes through the headers of a root alongside the first: from progress with the
same entries it reaches progress with the same entries, changes nothing, and generates nothing. -/
theorem processHeaders_lockstep {rs : List String} (hrs : rs ∈ roots) {headers : List Path}
    (hbelow : ∀ p ∈ headers, HeaderBelow outs rs p) {p₁ p₁' : Progress}
    (h : d.runOn (Generation.processHeaders s ⟨nameText outs⟩ ⟨nameText rs⟩ headers p₁) =
      (.ok p₁', d'))
    (hlater : Later outs roots d₀ d' D) (p₂ : Progress) (hp : p₂.entries = p₁.entries) :
    ∃ p₂', D.runOn (Generation.processHeaders s ⟨nameText outs⟩ ⟨nameText rs⟩ headers p₂) =
        (.ok p₂', D) ∧ p₂'.entries = p₁'.entries ∧ p₂'.generated = p₂.generated := by
  induction headers generalizing d p₁ p₂ with
  | nil =>
    simp only [Generation.processHeaders, runOn_pure, Prod.mk.injEq, Except.ok.injEq] at h
    obtain ⟨rfl, rfl⟩ := h
    exact ⟨p₂, rfl, hp, rfl⟩
  | cons header headers ih =>
    simp only [Generation.processHeaders, runOn_bind_eq_ok] at h
    obtain ⟨o, d₁, hstep, h⟩ := h
    have hbelow' : ∀ p ∈ headers, HeaderBelow outs rs p :=
      fun p hp => hbelow p (List.mem_cons_of_mem _ hp)
    obtain ⟨ks, rfl, hks, hpre, hnot, hhdr⟩ := hbelow _ List.mem_cons_self
    -- the rest of the first run leads from the disk after this header to `d'`
    obtain ⟨inv₁, -⟩ := inv.processHeader hs hrs hks hpre hnot hhdr hstep
    obtain ⟨-, hlater₁⟩ := inv₁.processHeaders hs hrs hbelow' h
    obtain ⟨o', hstep', hid, hgen⟩ :=
      inv.processHeader_lockstep hs invD hrs hks hpre hnot hhdr hstep (hlater₁.trans hlater)
    obtain ⟨p₂', hrest, hentries, hgen'⟩ := ih inv₁ hbelow' h (p₂.record _ o')
      (by rw [Progress.entries_record, Progress.entries_record, hp, hid])
    refine ⟨p₂', ?_, hentries, by rw [hgen', Progress.generated_record hgen]⟩
    simp only [Generation.processHeaders]
    rw [runOn_bind, hstep']
    exact hrest

/-- The second run scans a root alongside the first: the root and the headers below it are found
alike, as they lie outside the output directory. -/
theorem scanRoot_lockstep {rs : List String} (hrs : rs ∈ roots) {p₁ p₁' : Progress}
    (h : d.runOn (Generation.scanRoot s ⟨nameText outs⟩ ⟨nameText rs⟩ p₁) = (.ok p₁', d'))
    (hlater : Later outs roots d₀ d' D) (p₂ : Progress) (hp : p₂.entries = p₁.entries) :
    ∃ p₂', D.runOn (Generation.scanRoot s ⟨nameText outs⟩ ⟨nameText rs⟩ p₂) = (.ok p₂', D) ∧
      p₂'.entries = p₁'.entries ∧ p₂'.generated = p₂.generated := by
  simp only [Generation.scanRoot, runOn_bind_eq_ok, runOn_attempt_eq_ok, run_canonicalize] at h
  obtain ⟨canonical, d₁, hc, headers, d₂, hcollect, h⟩ := h
  obtain ⟨hcanon, hd₁⟩ := Prod.mk.inj hc
  subst d₁
  obtain ⟨names, w, hres, -, rfl⟩ := canonicalize_eq_ok hcanon
  have hrsn := hs.rootsNamed rs hrs
  have hnames := resolve_nameText hrsn hres
  subst names
  obtain ⟨hd₂, hbelow⟩ := collectHeaders_eq_ok inv.named hs.outsNamed hrsn hcollect
  subst d₂
  have hag : AgreeOutside outs d D := inv.agree.symm.trans invD.agree
  have hout := hs.rootsOutside rs hrs
  have hcanonD : D.canonicalize ⟨nameText rs⟩ = d.canonicalize ⟨nameText rs⟩ := by
    simp only [canonicalize, existing_nameText_agree hag hrsn hout]
  have hcollectD := collectIn_agree hs.outsNamed hag inv.named _ hrsn hout hcollect
  obtain ⟨p₂', hrest, hentries, hgen⟩ := inv.processHeaders_lockstep hs invD hrs hbelow h hlater p₂ hp
  refine ⟨p₂', ?_, hentries, hgen⟩
  simp only [Generation.scanRoot, runOn_bind_eq_ok, runOn_attempt_eq_ok, run_canonicalize]
  exact ⟨_, D, by rw [hcanonD, hcanon], headers, D, hcollectD, hrest⟩

/-- The second run scans the roots alongside the first: a root exists in both runs or in
neither. -/
theorem scanRoots_lockstep {rl : List (List String)} (hrl : ∀ rs ∈ rl, rs ∈ roots)
    {p₁ p₁' : Progress}
    (h : d.runOn (Generation.scanRoots s ⟨nameText outs⟩ (rl.map fun rs => ⟨nameText rs⟩) p₁) =
      (.ok p₁', d'))
    (hlater : Later outs roots d₀ d' D) (p₂ : Progress) (hp : p₂.entries = p₁.entries) :
    ∃ p₂', D.runOn (Generation.scanRoots s ⟨nameText outs⟩ (rl.map fun rs => ⟨nameText rs⟩) p₂) =
        (.ok p₂', D) ∧ p₂'.entries = p₁'.entries ∧ p₂'.generated = p₂.generated := by
  induction rl generalizing d p₁ p₂ with
  | nil =>
    simp only [List.map_nil, Generation.scanRoots, runOn_pure, Prod.mk.injEq,
      Except.ok.injEq] at h
    obtain ⟨rfl, rfl⟩ := h
    exact ⟨p₂, rfl, hp, rfl⟩
  | cons rs rl ih =>
    have hrs := hrl rs List.mem_cons_self
    have hrl' : ∀ r ∈ rl, r ∈ roots := fun r hr => hrl r (List.mem_cons_of_mem _ hr)
    have hmeta : D.metadata ⟨nameText rs⟩ = d.metadata ⟨nameText rs⟩ :=
      metadata_nameText_agree (inv.agree.symm.trans invD.agree) (hs.rootsNamed rs hrs)
        (hs.rootsOutside rs hrs)
    simp only [List.map_cons, Generation.scanRoots, runOn_bind_eq_ok, runOn_lift,
      run_pathExists] at h
    obtain ⟨exists_, d₁, hc, h⟩ := h
    obtain ⟨hexists, hd₁⟩ := Prod.mk.inj hc
    subst d₁
    -- the root exists for the second run exactly when it did for the first
    have hexistsD : D.runOn (liftM (Disk.pathExists ⟨nameText rs⟩ : MemoryRun Bool) :
        ExceptT GenerationError MemoryRun Bool) = (.ok exists_, D) := by
      simp only [runOn_lift, run_pathExists, hmeta, hexists]
    simp only [List.map_cons, Generation.scanRoots]
    split at h
    · next htrue =>
      obtain ⟨q₁, d₂, hscan, h⟩ := runOn_bind_eq_ok.1 h
      obtain ⟨inv₂, -⟩ := inv.scanRoot hs hrs hscan
      obtain ⟨-, hlater₂⟩ := inv₂.scanRoots hs hrl' h
      obtain ⟨q₂, hscanD, hq, hgen⟩ :=
        inv.scanRoot_lockstep hs invD hrs hscan (hlater₂.trans hlater) p₂ hp
      obtain ⟨p₂', hrest, hentries, hgen'⟩ := ih inv₂ hrl' h q₂ hq
      refine ⟨p₂', runOn_bind_eq_ok.2 ⟨exists_, D, hexistsD, ?_⟩, hentries, hgen'.trans hgen⟩
      rw [if_pos htrue]
      exact runOn_bind_eq_ok.2 ⟨q₂, D, hscanD, hrest⟩
    · next hfalse =>
      obtain ⟨q₁, d₂, hskip, h⟩ := runOn_bind_eq_ok.1 h
      simp only [runOn_pure, Prod.mk.injEq, Except.ok.injEq] at hskip
      obtain ⟨rfl, rfl⟩ := hskip
      obtain ⟨p₂', hrest, hentries, hgen'⟩ := ih inv hrl' h p₂ hp
      refine ⟨p₂', runOn_bind_eq_ok.2 ⟨exists_, D, hexistsD, ?_⟩, hentries, hgen'⟩
      rw [if_neg hfalse]
      exact runOn_bind_eq_ok.2 ⟨p₂, D, rfl, hrest⟩

end FirstRun

/-- Run twice with `force` off from a `Rerunnable` disk, the generator repeats itself: when the first
run succeeds, so does the second, which writes the same project header at the same path, generates
nothing, and leaves every name of the disk holding what the first run left there, generated files
included. -/
theorem rerun_repeats_first_run {s : Settings} {outs : List String} {roots : List (List String)}
    {d₀ d₁ : MemoryDisk} (hs : Rerunnable s outs roots d₀) {summary₁ : Summary}
    (h₁ : d₀.runOn (Generation.run s) = (.ok summary₁, d₁)) :
    ∃ summary₂ d₂, d₁.runOn (Generation.run s) = (.ok summary₂, d₂) ∧
      summary₂.projectFile = summary₁.projectFile ∧ summary₂.generated = 0 ∧
      d₂.readText summary₁.projectFile = d₁.readText summary₁.projectFile ∧
      ∀ ks, d₂.node? ks = d₁.node? ks := by
  have inv₀ := FirstRun.start hs
  have hempty : (⟨nameText outs⟩ : Path).isEmpty = false := by
    simp [Path.isEmpty, parts_nameText hs.outsNamed]
  have hpn := Naming.isName_projectFileName hs.project
  have hng : ∀ stem, Naming.projectFileName s.project ≠ Naming.generatedFileName stem :=
    Naming.projectFileName_ne_generatedFileName _
  simp only [Generation.run, runOn_bind_eq_ok, runOn_attempt_eq_ok, run_canonicalize,
    runOn_pure] at h₁
  obtain ⟨⟨⟩, dA, hdirs, output, d₂, hc, progress, d₃, hscan, ⟨⟩, d₄, hwrite, hdone⟩ := h₁
  -- the output directory is in place, so the first run creates nothing and finds it
  rw [hs.output, run_createDirAll_of_directory hempty hs.outputDir] at hdirs
  obtain ⟨-, hdA⟩ := Prod.mk.inj hdirs
  subst dA
  obtain ⟨hcanon, hd₂⟩ := Prod.mk.inj hc
  subst d₂
  rw [hs.output, inv₀.canonicalize_output hs] at hcanon
  cases hcanon
  rw [hs.scan] at hscan
  obtain ⟨inv₃, -⟩ := inv₀.scanRoots hs (fun _ h => h) hscan
  -- the project header is written last, next to the generated files
  have hwrite₁ := hwrite
  rw [join_nameText hs.outsNamed hpn, run_writeText_eq_ok] at hwrite hwrite₁
  rw [join_nameText hs.outsNamed hpn] at hdone
  obtain ⟨names, hres, -, hd₄⟩ := writeText_eq_ok hwrite
  rw [inv₃.resolve_child hs hpn] at hres
  cases hres
  obtain ⟨hsummary, hd₁⟩ := Prod.mk.inj hdone
  subst d₁
  cases hsummary
  -- the disk the first run leaves keeps the invariant, and the project header is no generated file
  have invD : FirstRun outs d₀ d₄ := hd₄ ▸ inv₃.put hs hpn (fun stem h => absurd h (hng stem)) _
  have hlaterD : Later outs roots d₀ d₃ d₄ := hd₄ ▸ Later.put_other hng _
  -- the second run follows the first one's scan, from the disk the first run left
  obtain ⟨p₂, hscanD, hentries, hgen⟩ :=
    inv₀.scanRoots_lockstep hs invD (fun _ h => h) hscan hlaterD {} rfl
  have hproject : d₄.node? (outs ++ [Naming.projectFileName s.project]) =
      some (.file (projectHeader s.project s.prelude progress.entries) d₃.clock) := by
    rw [hd₄, node?_put_self _ (by simp)]
  obtain ⟨d₅, hwrite₂⟩ : ∃ d₅, d₄.writeText ⟨nameText (outs ++ [Naming.projectFileName s.project])⟩
      (projectHeader s.project s.prelude progress.entries) = .ok d₅ :=
    ⟨_, writeText_of_resolve (invD.resolve_child hs hpn) (by simp [hproject]) _⟩
  refine ⟨⟨p₂.generated, p₂.reused, p₂.skipped,
      ⟨nameText (outs ++ [Naming.projectFileName s.project])⟩⟩, d₅, ?_, rfl, hgen, ?_,
    fun ks => ?_⟩
  · simp only [Generation.run, runOn_bind_eq_ok, runOn_attempt_eq_ok, run_canonicalize,
      runOn_pure]
    refine ⟨(), d₄, ?_, ⟨nameText outs⟩, d₄, ?_, p₂, d₄, ?_, (), d₅, ?_,
      by rw [join_nameText hs.outsNamed hpn]⟩
    · rw [hs.output, run_createDirAll_of_directory hempty
        (metadata_of_existing_directory (invD.outputExisting hs))]
    · rw [hs.output, invD.canonicalize_output hs]
    · rw [hs.scan]
      exact hscanD
    · rw [join_nameText hs.outsNamed hpn, run_writeText_eq_ok, hentries]
      exact hwrite₂
  · rw [readText_writeText hwrite₁, readText_writeText hwrite₂]
  · -- the second write puts back the very file the first one wrote
    obtain ⟨names, hres, -, rfl⟩ := writeText_eq_ok hwrite₂
    rw [invD.resolve_child hs hpn] at hres
    cases hres
    by_cases hks : ks = outs ++ [Naming.projectFileName s.project]
    · subst hks
      rw [node?_put_self _ (by simp), hproject, hd₄, clock_put]
    · rw [node?_put_of_ne _ hks]

/-- A disk with the output directory `/w/Generated` and two headers in `/w/Source`: `Foo.h` asks for
reflection, `Bar.h` does not. -/
def twoHeaderDisk : MemoryDisk :=
  ((MemoryDisk.withWorkDir ["w", "Generated"] 1).place ["w", "Source", "Foo.h"]
      "#include \"Foo.generated.h\"\nGENUM() enum E \x7b A \x7d;\n" 0).place
    ["w", "Source", "Bar.h"] "struct Bar \x7b int x; \x7d;\n" 0

/-- Settings with `force` off that scan `/w/Source` into `/w/Generated`. -/
def rerunSettings : Settings := ⟨"Game", ⟨"/w/Generated"⟩, [⟨"/w/Source"⟩], false, "p.h"⟩

theorem rerun_repeats_first_run_twoHeaders :
    Rerunnable rerunSettings ["w", "Generated"] [["w", "Source"]] twoHeaderDisk ∧
      twoHeaderDisk.runOn (Generation.run rerunSettings) =
        (.ok ⟨1, 0, 1, ⟨"/w/Generated/GameReflection.h"⟩⟩,
          (twoHeaderDisk.runOn (Generation.run rerunSettings)).2) ∧
      ∃ summary₂ d₂,
        (twoHeaderDisk.runOn (Generation.run rerunSettings)).2.runOn (Generation.run rerunSettings) =
          (.ok summary₂, d₂) ∧
        summary₂.projectFile = ⟨"/w/Generated/GameReflection.h"⟩ ∧ summary₂.generated = 0 ∧
        d₂.readText ⟨"/w/Generated/GameReflection.h"⟩ =
          (twoHeaderDisk.runOn (Generation.run rerunSettings)).2.readText
            ⟨"/w/Generated/GameReflection.h"⟩ ∧
        ∀ ks, d₂.node? ks = (twoHeaderDisk.runOn (Generation.run rerunSettings)).2.node? ks := by
  have hmeta : (twoHeaderDisk.metadata ⟨nameText ["w", "Generated"]⟩).toOption =
      some ⟨.directory, 0⟩ := by decide +kernel
  have hs : Rerunnable rerunSettings ["w", "Generated"] [["w", "Source"]] twoHeaderDisk := by
    refine ⟨rfl, rfl, rfl, by decide, by decide, by decide, by decide, by decide +kernel, ?_,
      by decide +kernel, by decide +kernel, by decide +kernel, by decide +kernel⟩
    rw [eq_ok_of_toOption hmeta]
  have hres : (twoHeaderDisk.runOn (Generation.run rerunSettings)).1.toOption =
      some ⟨1, 0, 1, ⟨"/w/Generated/GameReflection.h"⟩⟩ := by decide +kernel
  have hrun := runOn_eq_of_toOption twoHeaderDisk hres
  exact ⟨hs, hrun, rerun_repeats_first_run hs hrun⟩

end TypeReflection
