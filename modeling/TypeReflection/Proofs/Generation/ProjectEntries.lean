import TypeReflection.Proofs.Generation.FirstRun

/-!
# What a run passes to the project header

A run gives the project header one entry for each header it generates or reuses. A forced run
reuses nothing, and its entries are headers that ask for reflection, under the ids issued during
the run (`forcedRun_entries`). With `force` off, a header whose generated file is there is reused
under the id that file records. That file may have been written earlier in the same run for
another header of the same stem, and the entry then repeats that header's id, for a header that
need not ask for reflection at all.

The headers a run visits, and their order, are fixed by the disk it starts from
(`MemoryDisk.visits`): the scan roots in turn, and below each the headers found there. A run with
`force` off from an output directory that holds no generated file, in which no visited header that
asks for reflection is followed by a visited header of its stem (`UnforcedClean`), reuses nothing
and gives the entries a forced run gives (`unforcedRun_entries`). Its invariant (`UnforcedScan`)
adds to that of a forced run that the disk agrees with the start outside the output directory, and
that every generated file there belongs to a visited header of its stem that asks for reflection;
so a header never finds a generated file of its stem. Either way the entries carry distinct ids,
as long as the ids issued do, and include headers that ask for reflection
(`projectEntries_distinct_reflected`).
-/

set_option autoImplicit false

namespace TypeReflection

open MemoryDisk

namespace MemoryDisk

/-- Whether the file at `p` asks for reflection in its own text, for the stem of its name. -/
def asksForReflection (d : MemoryDisk) (p : Path) : Bool :=
  match d.existing p with
  | .ok (_, .file c _) =>
    Generation.asksForReflection (Utf8.decodeLossy c.toUTF8) (p.stem?.getD "")
  | _ => false

/-- The headers a scan finds below the directory `rs`, outside the output directory `outs`. -/
def headersBelow (d : MemoryDisk) (outs rs : List String) : List Path :=
  match ((collectHeaders ⟨nameText rs⟩ ⟨nameText outs⟩ : MemoryRun _).run d).1 with
  | .ok found => found
  | .error _ => []

/-- The headers a run visits, in order: below each scan root that exists, those found there. -/
def visits (d : MemoryDisk) (outs : List String) (roots : List (List String)) : List Path :=
  roots.flatMap fun rs =>
    match d.metadata ⟨nameText rs⟩ with
    | .ok _ => d.headersBelow outs rs
    | .error _ => []

/-- A header `q` visited after `p` finds no generated file written for `p`: `p` has another stem,
or does not ask for reflection. -/
def LeavesStemFree (d : MemoryDisk) (p q : Path) : Prop :=
  p.stem?.getD "" = q.stem?.getD "" → d.asksForReflection p = false

instance (d : MemoryDisk) (p q : Path) : Decidable (d.LeavesStemFree p q) :=
  inferInstanceAs (Decidable (_ → _))

/-- A canonical name that holds nothing is not found. -/
theorem existing_nameText_of_node?_eq_none {d : MemoryDisk} {ks : List String}
    (hks : ∀ n ∈ ks, IsName n) (h : d.node? ks = none) :
    ∃ e, d.existing ⟨nameText ks⟩ = .error e := by
  cases hex : d.existing ⟨nameText ks⟩ with
  | error e => exact ⟨e, rfl⟩
  | ok v =>
    obtain ⟨⟨w, hres⟩, hnode⟩ := existing_eq_ok hex
    obtain rfl := resolve_nameText hks hres
    rw [h] at hnode
    cases hnode

end MemoryDisk

theorem Progress.reused_record_of_ne {p : Progress} {includedAs : String} {o : Outcome}
    (h : ∀ id, o ≠ .reused id) : (p.record includedAs o).reused = p.reused := by
  cases o with
  | generated id => rfl
  | reused id => exact absurd rfl (h id)
  | skipped => rfl

/-- A run with `force` off from the disk `d`, whose output directory `outs` exists and holds no
generated file. The settings name `outs` and the scan roots `roots` by their canonical paths, no
root lies in `outs`, and no visited header that asks for reflection is followed by a visited
header of its stem. -/
structure UnforcedClean (s : Settings) (outs : List String) (roots : List (List String))
    (d : MemoryDisk) : Prop where
  force : s.force = false
  output : s.output = ⟨nameText outs⟩
  scan : s.scan = roots.map fun rs => ⟨nameText rs⟩
  outsNamed : ∀ n ∈ outs, IsName n
  rootsNamed : ∀ rs ∈ roots, ∀ n ∈ rs, IsName n
  rootsOutside : ∀ rs ∈ roots, ¬ outs <+: rs
  outputDir : d.metadata ⟨nameText outs⟩ = .ok ⟨.directory, 0⟩
  clean : ∀ e ∈ d.children outs, e.name.endsWith Naming.generatedSuffix = false
  firstOfStem : (d.visits outs roots).Pairwise d.LeavesStemFree

/-- What holds while a run with `force` off scans from the disk `d₀`, having visited the headers
`visited`: what holds of a forced run, with no header reused so far; the disk agrees with `d₀`
outside the output directory `outs`; and every generated file there belongs to a visited header
of its stem that asks for reflection. -/
structure UnforcedScan (d₀ : MemoryDisk) (outs : List String) (visited : List Path)
    (d : MemoryDisk) (progress : Progress) : Prop where
  forced : ForcedScan d₀ outs d progress
  reused : progress.reused = 0
  agree : AgreeOutside outs d₀ d
  made : ∀ stem, d.node? (outs ++ [Naming.generatedFileName stem]) ≠ none →
    ∃ p ∈ visited, p.stem?.getD "" = stem ∧ d₀.asksForReflection p = true

namespace UnforcedScan

variable {s : Settings} {d₀ d d' : MemoryDisk} {outs rs : List String} {visited : List Path}
  {progress progress' : Progress}

theorem start (hd : d₀.Named)
    (hclean : ∀ e ∈ d₀.children outs, e.name.endsWith Naming.generatedSuffix = false) :
    UnforcedScan d₀ outs [] d₀ {} := by
  refine ⟨.start hd, rfl, .refl outs d₀, fun stem hne => ?_⟩
  -- the output directory holds no entry with the name of a generated file
  obtain ⟨nd, hnd⟩ := Option.ne_none_iff_exists'.1 hne
  obtain ⟨e, he, hname⟩ := mem_children_of_node? hnd
  have hc := hclean e he
  rw [hname, Naming.endsWith_generatedFileName] at hc
  cases hc

/-- No generated file of a header's stem is there yet when no visited header of that stem asks
for reflection: every generated file belongs to one. -/
theorem generated_absent (inv : UnforcedScan d₀ outs visited d progress) {header : Path}
    (hfirst : ∀ q ∈ visited, d₀.LeavesStemFree q header) :
    d.node? (outs ++ [Naming.generatedFileName (header.stem?.getD "")]) = none := by
  cases hn : d.node? (outs ++ [Naming.generatedFileName (header.stem?.getD "")]) with
  | none => rfl
  | some nd =>
    obtain ⟨q, hq, hstem, hasks⟩ := inv.made _ (by rw [hn]; exact Option.some_ne_none nd)
    rw [hfirst q hq hstem] at hasks
    cases hasks

/-- Processing a header that no visited header of its stem asking for reflection came before
keeps the invariant: its generated file is not there, so it is read, and then skipped or
generated under the next id. -/
theorem processHeader (inv : UnforcedScan d₀ outs visited d progress) (hf : s.force = false)
    (hout : ∀ n ∈ outs, IsName n) (hrs : ∀ n ∈ rs, IsName n) {header : Path}
    (hbelow : HeaderBelow outs rs header) (hfirst : ∀ q ∈ visited, d₀.LeavesStemFree q header)
    {o : Outcome}
    (h : d.runOn (Generation.processHeader s ⟨nameText outs⟩ header
      (includePath header ⟨nameText rs⟩)) = (.ok o, d')) :
    UnforcedScan d₀ outs (visited ++ [header]) d'
      (progress.record (includePath header ⟨nameText rs⟩) o) := by
  obtain ⟨ks, rfl, hks, -, hnot, -⟩ := id hbelow
  -- without its generated file the header is not reused, but read
  obtain ⟨e, hmiss⟩ := existing_nameText_of_node?_eq_none (isName_generatedPath hout hks)
    (inv.generated_absent hfirst)
  have hreuse : reuseAnswer outs ks d = none :=
    reusableId_of_missing (by rw [generatedPath_nameText hout hks]; exact hmiss)
  rw [runOn_processHeader_reuseAnswer hf, hreuse] at h
  have hforced := inv.forced.generate hout hrs hbelow h
  have hnotReused : ∀ id, o ≠ .reused id := by
    obtain ⟨c, t, -, ⟨-, rfl, -⟩ | ⟨-, rfl, -⟩⟩ := generate_eq_ok hout hks h <;> intro id hid <;>
      cases hid
  have hreused : (progress.record (includePath ⟨nameText ks⟩ ⟨nameText rs⟩) o).reused = 0 := by
    rw [Progress.reused_record_of_ne hnotReused, inv.reused]
  have hmade : ∀ stem, d.node? (outs ++ [Naming.generatedFileName stem]) ≠ none →
      ∃ p ∈ visited ++ [⟨nameText ks⟩], p.stem?.getD "" = stem ∧ d₀.asksForReflection p = true :=
    fun stem hne =>
      let ⟨p, hp, hrest⟩ := inv.made stem hne
      ⟨p, List.mem_append_left _ hp, hrest⟩
  obtain ⟨c, t, hex, ⟨-, -, rfl⟩ | ⟨hasks, -, rfl⟩⟩ := generate_eq_ok hout hks h
  · exact ⟨hforced, hreused, inv.agree, hmade⟩
  refine ⟨hforced, hreused, inv.agree.trans ((agreeOutside_issued _).trans (agreeOutside_put _ _)),
    fun stem hne => ?_⟩
  by_cases hstem : outs ++ [Naming.generatedFileName stem] =
      outs ++ [Naming.generatedFileName (headerStem ks)]
  · -- the generated file just written belongs to the header, which asks for reflection on `d₀`
    have hex₀ : d₀.existing ⟨nameText ks⟩ = .ok (ks, .file c t) := by
      rw [← existing_nameText_agree inv.agree hks hnot]
      exact hex
    have hks' : headerStem ks = stem :=
      Naming.generatedFileName_injective (by simpa using hstem.symm)
    refine ⟨⟨nameText ks⟩, List.mem_append_right _ (List.mem_singleton_self _), hks', ?_⟩
    simpa [asksForReflection, hex₀, headerStem] using hasks
  · rw [node?_put_of_ne _ hstem] at hne
    exact hmade stem hne

/-- Processing the headers found below a root keeps the invariant, when none of them follows a
visited header of its stem that asks for reflection. -/
theorem processHeaders (hf : s.force = false) (hout : ∀ n ∈ outs, IsName n)
    (hrs : ∀ n ∈ rs, IsName n) {headers : List Path} (hbelow : ∀ p ∈ headers, HeaderBelow outs rs p)
    (inv : UnforcedScan d₀ outs visited d progress)
    (hord : (visited ++ headers).Pairwise d₀.LeavesStemFree)
    (h : d.runOn (Generation.processHeaders s ⟨nameText outs⟩ ⟨nameText rs⟩ headers progress) =
      (.ok progress', d')) :
    UnforcedScan d₀ outs (visited ++ headers) d' progress' := by
  induction headers generalizing visited d progress with
  | nil =>
    simp only [Generation.processHeaders, runOn_pure, Prod.mk.injEq, Except.ok.injEq] at h
    obtain ⟨rfl, rfl⟩ := h
    simpa using inv
  | cons header headers ih =>
    simp only [Generation.processHeaders, runOn_bind_eq_ok] at h
    obtain ⟨o, d₁, hstep, h⟩ := h
    have hfirst : ∀ q ∈ visited, d₀.LeavesStemFree q header :=
      fun q hq => (List.pairwise_append.1 hord).2.2 q hq header List.mem_cons_self
    have inv₁ := inv.processHeader hf hout hrs (hbelow header List.mem_cons_self) hfirst hstep
    have hrest := ih (fun p hp => hbelow p (List.mem_cons_of_mem _ hp)) inv₁ (by simpa using hord) h
    simpa using hrest

/-- Scanning a root keeps the invariant: the root is its own canonical path, and the headers found
below it are those found on `d₀`, as they lie outside the output directory. -/
theorem scanRoot (hf : s.force = false) (hout : ∀ n ∈ outs, IsName n) (hrs : ∀ n ∈ rs, IsName n)
    (hrs' : ¬ outs <+: rs) (inv : UnforcedScan d₀ outs visited d progress)
    (hord : (visited ++ d₀.headersBelow outs rs).Pairwise d₀.LeavesStemFree)
    (h : d.runOn (Generation.scanRoot s ⟨nameText outs⟩ ⟨nameText rs⟩ progress) =
      (.ok progress', d')) :
    UnforcedScan d₀ outs (visited ++ d₀.headersBelow outs rs) d' progress' := by
  simp only [Generation.scanRoot, runOn_bind_eq_ok, runOn_attempt_eq_ok, run_canonicalize] at h
  obtain ⟨canonical, d₁, hc, headers, d₂, hcollect, h⟩ := h
  obtain ⟨hcanon, rfl⟩ := Prod.mk.inj hc
  obtain ⟨names, w, hres, -, rfl⟩ := canonicalize_eq_ok hcanon
  have hnames := resolve_nameText hrs hres
  subst names
  obtain ⟨rfl, hbelow⟩ := collectHeaders_eq_ok inv.forced.named hout hrs hcollect
  have hfound : d₀.headersBelow outs rs = headers := by
    have h₀ : (collectHeaders ⟨nameText rs⟩ ⟨nameText outs⟩ : MemoryRun _).run d₀ =
        (.ok headers, d₀) :=
      collectIn_agree hout inv.agree.symm inv.forced.named _ hrs hrs' hcollect
    rw [headersBelow, h₀]
  rw [hfound] at hord ⊢
  exact inv.processHeaders hf hout hrs hbelow hord h

/-- Scanning roots in turn keeps the invariant, the headers visited being those `d₀` gives. -/
theorem scanRoots (hf : s.force = false) (hout : ∀ n ∈ outs, IsName n)
    {rl : List (List String)} (hrl : ∀ rs ∈ rl, (∀ n ∈ rs, IsName n) ∧ ¬ outs <+: rs)
    (inv : UnforcedScan d₀ outs visited d progress)
    (hord : (visited ++ d₀.visits outs rl).Pairwise d₀.LeavesStemFree)
    (h : d.runOn (Generation.scanRoots s ⟨nameText outs⟩ (rl.map fun rs => ⟨nameText rs⟩)
      progress) = (.ok progress', d')) :
    UnforcedScan d₀ outs (visited ++ d₀.visits outs rl) d' progress' := by
  induction rl generalizing visited d progress with
  | nil =>
    simp only [List.map_nil, Generation.scanRoots, runOn_pure, Prod.mk.injEq,
      Except.ok.injEq] at h
    obtain ⟨rfl, rfl⟩ := h
    simpa [visits] using inv
  | cons rs rl ih =>
    obtain ⟨hrs, hrs'⟩ := hrl rs List.mem_cons_self
    have hrl' : ∀ r ∈ rl, (∀ n ∈ r, IsName n) ∧ ¬ outs <+: r :=
      fun r hr => hrl r (List.mem_cons_of_mem _ hr)
    simp only [List.map_cons, Generation.scanRoots, runOn_bind_eq_ok, runOn_lift,
      run_pathExists] at h
    obtain ⟨exists_, d₁, hc, h⟩ := h
    obtain ⟨hexists, rfl⟩ := Prod.mk.inj hc
    -- whether the root exists is read outside the output directory, as on `d₀`
    rw [metadata_nameText_agree inv.agree hrs hrs'] at hexists
    have hvisits : d₀.visits outs (rs :: rl) = (match d₀.metadata ⟨nameText rs⟩ with
        | .ok _ => d₀.headersBelow outs rs
        | .error _ => []) ++ d₀.visits outs rl := List.flatMap_cons
    rw [hvisits] at hord ⊢
    cases hm : d₀.metadata ⟨nameText rs⟩ with
    | error e =>
      -- a root that does not exist is passed over
      have hfalse : exists_ = false := by rw [← Except.ok.inj hexists, hm]
      rw [hfalse, if_neg Bool.false_ne_true] at h
      obtain ⟨progress₁, d₂, hskip, h⟩ := runOn_bind_eq_ok.1 h
      simp only [runOn_pure, Prod.mk.injEq, Except.ok.injEq] at hskip
      obtain ⟨rfl, rfl⟩ := hskip
      simpa using ih hrl' inv (by simpa [hm] using hord) h
    | ok m =>
      have htrue : exists_ = true := by rw [← Except.ok.inj hexists, hm]
      rw [htrue, if_pos rfl] at h
      obtain ⟨progress₁, d₂, hscan, h⟩ := runOn_bind_eq_ok.1 h
      have hord' : (visited ++ d₀.headersBelow outs rs ++ d₀.visits outs rl).Pairwise
          d₀.LeavesStemFree := by simpa [hm] using hord
      have inv₁ := inv.scanRoot hf hout hrs hrs' (hord'.sublist (List.sublist_append_left _ _)) hscan
      simpa [hm] using ih hrl' inv₁ hord' h

end UnforcedScan

/-- A run with `force` off from a disk with canonical names whose output directory holds no
generated file, in which no visited header that asks for reflection is followed by a visited
header of its stem, reuses no header. If it succeeds it writes a project header whose entries
carry distinct ids (as long as the ids issued during the run are) and each include a header of the
disk whose own text asks for reflection. -/
theorem unforcedRun_entries {s : Settings} {outs : List String} {roots : List (List String)}
    {d d' : MemoryDisk} (hd : d.Named) (hu : UnforcedClean s outs roots d) {summary : Summary}
    (hrun : d.runOn (Generation.run s) = (.ok summary, d'))
    (hfresh : ((List.range (d'.issued - d.issued)).map fun i => idAt (d.issued + i)).Nodup) :
    summary.reused = 0 ∧ ∃ entries : List ProjectEntry,
      d'.readText summary.projectFile = .ok (projectHeader s.project s.prelude entries) ∧
      (entries.map (·.id)).Nodup ∧ ∀ e ∈ entries, ReflectedEntry d e := by
  have hempty : (⟨nameText outs⟩ : Path).isEmpty = false := by
    simp [Path.isEmpty, parts_nameText hu.outsNamed]
  simp only [Generation.run, runOn_bind_eq_ok, runOn_attempt_eq_ok, run_canonicalize,
    runOn_pure] at hrun
  obtain ⟨⟨⟩, dA, hdirs, output, d₂, hc, progress, d₃, hscan, ⟨⟩, d₄, hwrite, hdone⟩ := hrun
  -- the output directory is in place, so nothing is created and it is found as it is named
  rw [hu.output, run_createDirAll_of_directory hempty hu.outputDir] at hdirs
  obtain ⟨-, rfl⟩ := Prod.mk.inj hdirs
  obtain ⟨hcanon, rfl⟩ := Prod.mk.inj hc
  rw [hu.output] at hcanon
  obtain ⟨names, w, hres, -, rfl⟩ := canonicalize_eq_ok hcanon
  obtain rfl := resolve_nameText hu.outsNamed hres
  rw [hu.scan] at hscan
  have inv := (UnforcedScan.start hd hu.clean).scanRoots hu.force hu.outsNamed
    (fun rs hrs => ⟨hu.rootsNamed rs hrs, hu.rootsOutside rs hrs⟩) (by simpa using hu.firstOfStem)
    hscan
  obtain ⟨hsummary, rfl⟩ := Prod.mk.inj hdone
  cases hsummary
  rw [run_writeText_eq_ok] at hwrite
  have hcount : d₄.issued - d.issued = progress.entries.length := by
    rw [issued_writeText hwrite, inv.forced.issued]
    omega
  refine ⟨inv.reused, progress.entries, readText_writeText hwrite, ?_, inv.forced.entries⟩
  rw [inv.forced.ids]
  rwa [hcount] at hfresh

/-- A run on a disk with canonical names, forced or else with `force` off from an output directory
that holds no generated file and with no visited header that asks for reflection followed by a
visited header of its stem, writes, if it succeeds, a project header whose entries carry distinct
ids (as long as the ids issued during the run are) and each include a header of the disk whose own
text asks for reflection. -/
theorem projectEntries_distinct_reflected {s : Settings} {d d' : MemoryDisk} (hd : d.Named)
    (hmode : s.force = true ∨ ∃ outs roots, UnforcedClean s outs roots d) {summary : Summary}
    (hrun : d.runOn (Generation.run s) = (.ok summary, d'))
    (hfresh : ((List.range (d'.issued - d.issued)).map fun i => idAt (d.issued + i)).Nodup) :
    ∃ entries : List ProjectEntry,
      d'.readText summary.projectFile = .ok (projectHeader s.project s.prelude entries) ∧
      (entries.map (·.id)).Nodup ∧ ∀ e ∈ entries, ReflectedEntry d e := by
  rcases hmode with hforce | ⟨outs, roots, hu⟩
  · exact forcedRun_entries hforce hd hrun hfresh
  · exact (unforcedRun_entries hd hu hrun hfresh).2

/-- A disk with an empty output directory `/w/Generated` and four headers below `/w/Source`:
`A/Foo.h` is plain, `B/Foo.h`, of the same stem and visited after it, asks for reflection, and
so does `Bar.h`; `Baz.h` is plain. -/
def severalHeadersDisk : MemoryDisk :=
  ((((MemoryDisk.withWorkDir ["w", "Generated"] 1).place ["w", "Source", "A", "Foo.h"]
        "struct Foo \x7b int x; \x7d;\n" 0).place ["w", "Source", "B", "Foo.h"]
        "#include \"Foo.generated.h\"\nGENUM() enum E \x7b A \x7d;\n" 0).place
      ["w", "Source", "Bar.h"] "#include \"Bar.generated.h\"\nGENUM() enum F \x7b B \x7d;\n" 0).place
    ["w", "Source", "Baz.h"] "struct Baz \x7b int y; \x7d;\n" 0

/-- Settings with `force` off that scan `/w/Source` into `/w/Generated`. -/
def unforcedSettings : Settings := ⟨"Game", ⟨"/w/Generated"⟩, [⟨"/w/Source"⟩], false, "p.h"⟩

theorem projectEntries_distinct_reflected_severalHeaders :
    severalHeadersDisk.Named ∧
      UnforcedClean unforcedSettings ["w", "Generated"] [["w", "Source"]] severalHeadersDisk ∧
      severalHeadersDisk.runOn (Generation.run unforcedSettings) =
        (.ok ⟨2, 0, 2, ⟨"/w/Generated/GameReflection.h"⟩⟩,
          (severalHeadersDisk.runOn (Generation.run unforcedSettings)).2) ∧
      ∃ entries : List ProjectEntry,
        (severalHeadersDisk.runOn (Generation.run unforcedSettings)).2.readText
            ⟨"/w/Generated/GameReflection.h"⟩ = .ok (projectHeader "Game" "p.h" entries) ∧
        (entries.map (·.id)).Nodup ∧ ∀ e ∈ entries, ReflectedEntry severalHeadersDisk e := by
  have hd : severalHeadersDisk.Named := by decide +kernel
  have hmeta : (severalHeadersDisk.metadata ⟨nameText ["w", "Generated"]⟩).toOption =
      some ⟨.directory, 0⟩ := by decide +kernel
  have hu : UnforcedClean unforcedSettings ["w", "Generated"] [["w", "Source"]]
      severalHeadersDisk := by
    refine ⟨rfl, rfl, rfl, by decide, by decide, by decide, ?_, by decide +kernel, by decide +kernel⟩
    rw [eq_ok_of_toOption hmeta]
  -- one evaluation of the run gives its summary and the ids it issued
  have hres : (severalHeadersDisk.runOn (Generation.run unforcedSettings)).1.toOption =
        some ⟨2, 0, 2, ⟨"/w/Generated/GameReflection.h"⟩⟩ ∧
      (severalHeadersDisk.runOn (Generation.run unforcedSettings)).2.issued = 2 := by
    decide +kernel
  have hrun := runOn_eq_of_toOption severalHeadersDisk hres.1
  have hfresh : ((List.range ((severalHeadersDisk.runOn (Generation.run unforcedSettings)).2.issued -
      severalHeadersDisk.issued)).map fun i => idAt (severalHeadersDisk.issued + i)).Nodup := by
    rw [hres.2]
    decide
  have hentries := projectEntries_distinct_reflected hd (.inr ⟨_, _, hu⟩) hrun hfresh
  exact ⟨hd, hu, hrun, hentries⟩

end TypeReflection
