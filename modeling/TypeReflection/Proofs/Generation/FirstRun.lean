import TypeReflection.Proofs.Generation.Reuse
import TypeReflection.Proofs.Disk.Agree
import TypeReflection.Proofs.Emit.RecordedId

/-!
# The first of two runs

A run with `force` off is repeated by a second run when the first leaves nothing for the second
to change. `Rerunnable` gathers what that rests on: canonical settings, an output directory that
exists and holds no generated header, files no newer than the clock, headers of one stem that
agree on whether they ask for reflection, and include paths that cannot be mistaken for the
record of an id.

From such a disk `d₀` the first run keeps an invariant (`FirstRun`): the disk agrees with `d₀`
outside the output directory, and every generated file in it was written by the run, with the
time of the clock, recording a valid id. Each stretch of the run is also described by what it
does to generated files (`Later`): one already there stays, and one that appears belongs to a
scanned header of its stem that asks for reflection.

One inversion lemma says all that processing a header can do (`processHeader_cases`): reuse an
id when its generated file is there, or, when it is not, skip the header or generate it under the
next id. The loops over headers and roots keep the invariant by induction.
-/

set_option autoImplicit false

namespace TypeReflection

open MemoryDisk

/-- A file of a memory disk: its names, contents and time. -/
structure StoredFile where
  names : List String
  contents : String
  modified : Int
  deriving DecidableEq

/-- Whether the text of a file asks for reflection, for the stem of its name. -/
def StoredFile.asksForReflection (f : StoredFile) : Bool :=
  Generation.asksForReflection (Utf8.decodeLossy f.contents.toUTF8) (headerStem f.names)

namespace MemoryDisk

/-- The files of a disk, in the order of its entries. -/
def files (d : MemoryDisk) : List StoredFile :=
  d.nodes.filterMap fun
    | (names, .file c t) => some ⟨names, c, t⟩
    | (_, .directory) => none

theorem mem_files_of_node? {d : MemoryDisk} {ks : List String} {c : String} {t : Int}
    (h : d.node? ks = some (.file c t)) : ⟨ks, c, t⟩ ∈ d.files := by
  unfold node? at h
  split at h
  · cases h
  · obtain ⟨e, hfind, he⟩ := Option.map_eq_some_iff.1 h
    have hkey : e.1 = ks := by simpa using List.find?_some hfind
    refine List.mem_filterMap.2 ⟨e, List.mem_of_find?_eq_some hfind, ?_⟩
    obtain ⟨key, nd⟩ := e
    simp only at hkey he
    subst hkey he
    rfl

end MemoryDisk

/-- The names `ks` are those of a header that a scan of the roots `roots` reaches: a header's
name below one of them and outside the output directory `outs`. -/
def Scanned (outs : List String) (roots : List (List String)) (ks : List String) : Prop :=
  isHeader ⟨nameText ks⟩ = true ∧ ¬ outs <+: ks ∧ ∃ rs ∈ roots, rs <+: ks

instance (outs : List String) (roots : List (List String)) (ks : List String) :
    Decidable (Scanned outs roots ks) :=
  inferInstanceAs (Decidable (_ ∧ _ ∧ _))

/-- What a second run of the settings `s` needs in order to repeat the first one from the disk
`d`: `force` is off; the output directory `outs` and the scan roots `roots` are given by their
canonical paths, and no root lies in `outs`; `outs` exists and none of its entries has the name of
a generated file; no file is newer than the clock; headers of one stem that the scan reaches
agree on whether they ask for reflection; and no include path, followed by a space, holds the
start of an id record. -/
structure Rerunnable (s : Settings) (outs : List String) (roots : List (List String))
    (d : MemoryDisk) : Prop where
  force : s.force = false
  output : s.output = ⟨nameText outs⟩
  scan : s.scan = roots.map fun rs => ⟨nameText rs⟩
  outsNamed : ∀ n ∈ outs, IsName n
  rootsNamed : ∀ rs ∈ roots, ∀ n ∈ rs, IsName n
  rootsOutside : ∀ rs ∈ roots, ¬ outs <+: rs
  project : '/' ∉ s.project.toList
  named : d.Named
  outputDir : d.metadata ⟨nameText outs⟩ = .ok ⟨.directory, 0⟩
  clean : ∀ e ∈ d.children outs, e.name.endsWith Naming.generatedSuffix = false
  clock : ∀ f ∈ d.files, f.modified ≤ d.clock
  stems : ∀ f ∈ d.files, ∀ f' ∈ d.files, Scanned outs roots f.names →
    Scanned outs roots f'.names → headerStem f.names = headerStem f'.names →
      f.asksForReflection = f'.asksForReflection
  records : ∀ f ∈ d.files, Scanned outs roots f.names → ∀ rs ∈ roots, rs <+: f.names →
    Text.occursIn FileId.definePrefix (includePath ⟨nameText f.names⟩ ⟨nameText rs⟩ ++ " ") = false

variable {s : Settings} {outs : List String} {roots : List (List String)} {d₀ d d' d'' : MemoryDisk}

namespace Rerunnable

variable (hs : Rerunnable s outs roots d₀)
include hs

theorem outputExisting : d₀.existing ⟨nameText outs⟩ = .ok (outs, .directory) := by
  obtain ⟨names, he⟩ := existing_of_metadata_directory hs.outputDir
  obtain ⟨⟨w, hres⟩, -⟩ := existing_eq_ok he
  obtain rfl := resolve_nameText hs.outsNamed hres
  exact he

/-- The generated file of a scanned header of `d₀` records the id it was generated with. -/
theorem fromGenerated_emitHeader_of_scanned {rs ks : List String} (hrs : rs ∈ roots)
    (hpre : rs <+: ks) (hscan : Scanned outs roots ks) {c : String} {t : Int}
    (hnode : d₀.node? ks = some (.file c t)) (decls : FileDecls) (n : Nat) :
    FileId.fromGenerated
        (emitHeader decls (idAt n) (includePath ⟨nameText ks⟩ ⟨nameText rs⟩)).contents =
      .ok (idAt n) := by
  have hid := parse_idAt n
  have hp := hs.records _ (mem_files_of_node? hnode) hscan rs hrs hpre
  obtain ⟨rest, hrest⟩ := afterFirst_emitHeader decls
    (fun c hc => (FileId.isWhiteSpace_eq_false_of_idChar (FileId.mem_of_parse_eq_ok hid c hc)).2)
    (noStartIn_of_occursIn_eq_false hp)
  exact fromGenerated_of_afterFirst hid hrest

end Rerunnable

/-! ### The invariant of the first run -/

/-- What holds of the disk `d` while the first run goes on from `d₀`: nothing changed outside the
output directory `outs`, which is still a directory, and every generated file in it was written
at the time of the clock and records a valid id. -/
structure FirstRun (outs : List String) (d₀ d : MemoryDisk) : Prop where
  agree : AgreeOutside outs d₀ d
  named : d.Named
  clock : d.clock = d₀.clock
  outputDir : d.node? outs = some .directory
  generated : ∀ stem nd, d.node? (outs ++ [Naming.generatedFileName stem]) = some nd →
    ∃ c id, nd = .file c d₀.clock ∧ FileId.fromGenerated c = .ok id

namespace FirstRun

theorem start (hs : Rerunnable s outs roots d₀) : FirstRun outs d₀ d₀ := by
  refine ⟨.refl outs d₀, hs.named, rfl, (existing_eq_ok hs.outputExisting).2, ?_⟩
  -- the output directory holds no entry with the name of a generated file
  intro stem nd hnd
  obtain ⟨e, he, hname⟩ := mem_children_of_node? hnd
  have hclean := hs.clean e he
  rw [hname, Naming.endsWith_generatedFileName] at hclean
  cases hclean

variable (hs : Rerunnable s outs roots d₀) (inv : FirstRun outs d₀ d)
include hs inv

theorem resolve_output : ∃ w, d.resolve ⟨nameText outs⟩ = .ok (outs, w) := by
  obtain ⟨⟨w, hres⟩, -⟩ := existing_eq_ok hs.outputExisting
  exact ⟨w, by rw [resolve_nameText_agree_self inv.agree hs.outsNamed, hres]⟩

/-- The output directory, as the run names it, is still a directory. -/
theorem outputExisting : d.existing ⟨nameText outs⟩ = .ok (outs, .directory) := by
  obtain ⟨w, hres⟩ := inv.resolve_output hs
  simp [existing, hres, inv.outputDir, bind, Except.bind, pure, Except.pure]

theorem canonicalize_output : d.canonicalize ⟨nameText outs⟩ = .ok ⟨nameText outs⟩ := by
  simp [canonicalize, inv.outputExisting hs, bind, Except.bind, pure, Except.pure]

/-- A name directly inside the output directory resolves to its names. -/
theorem resolve_child {g : String} (hg : IsName g) :
    d.resolve ⟨nameText (outs ++ [g])⟩ = .ok (outs ++ [g], false) := by
  obtain ⟨w, hres⟩ := inv.resolve_output hs
  exact resolve_nameText_concat hs.outsNamed hres inv.outputDir hg

theorem existing_generatedPath {ks : List String} (hks : ∀ n ∈ ks, IsName n) :
    d.existing (Generation.generatedPath ⟨nameText outs⟩ ⟨nameText ks⟩) =
      match d.node? (outs ++ [Naming.generatedFileName (headerStem ks)]) with
      | some nd => .ok (outs ++ [Naming.generatedFileName (headerStem ks)], nd)
      | none => .error .notFound := by
  rw [generatedPath_nameText hs.outsNamed hks]
  exact existing_of_resolve (inv.resolve_child hs (isName_generatedFileName hks))

/-- Writing a file directly inside the output directory keeps the invariant, as long as a file
with the name of a generated file records a valid id. -/
theorem put {g c : String} (hg : IsName g)
    (hc : ∀ stem, g = Naming.generatedFileName stem → ∃ id, FileId.fromGenerated c = .ok id)
    (n : Nat) :
    FirstRun outs d₀ (({ d with issued := n } : MemoryDisk).put (outs ++ [g]) (.file c d.clock)) := by
  have hgs : ∀ m ∈ outs ++ [g], IsName m := by
    simpa [or_imp, forall_and] using ⟨hs.outsNamed, hg⟩
  refine ⟨inv.agree.trans ((agreeOutside_issued n).trans (agreeOutside_put g _)),
    (inv.named.withIssued n).put hgs _, by simp [inv.clock], ?_, ?_⟩
  · rw [node?_put_of_ne _ (by simp)]
    exact inv.outputDir
  · intro stem nd hnd
    by_cases hstem : outs ++ [Naming.generatedFileName stem] = outs ++ [g]
    · rw [hstem, node?_put_self _ (by simp)] at hnd
      cases hnd
      obtain ⟨id, hid⟩ := hc stem (by simpa using hstem.symm)
      exact ⟨c, id, by rw [inv.clock], hid⟩
    · rw [node?_put_of_ne _ hstem] at hnd
      exact inv.generated stem nd hnd

end FirstRun

/-! ### What a stretch of the first run does to generated files -/

/-- What a stretch of the first run, from `d` to `d'`, does to generated files: one that is there
stays as it is, and one that appears is named for the stem of a header of `d₀` that the scan
reaches and that asks for reflection. -/
structure Later (outs : List String) (roots : List (List String)) (d₀ d d' : MemoryDisk) : Prop where
  kept : ∀ stem, d.node? (outs ++ [Naming.generatedFileName stem]) ≠ none →
    d'.node? (outs ++ [Naming.generatedFileName stem]) =
      d.node? (outs ++ [Naming.generatedFileName stem])
  made : ∀ stem, d.node? (outs ++ [Naming.generatedFileName stem]) = none →
    d'.node? (outs ++ [Naming.generatedFileName stem]) ≠ none →
      ∃ f ∈ d₀.files, Scanned outs roots f.names ∧ headerStem f.names = stem ∧
        f.asksForReflection = true

namespace Later

theorem refl : Later outs roots d₀ d d :=
  ⟨fun _ _ => rfl, fun _ hnone hne => absurd hnone hne⟩

theorem trans (h : Later outs roots d₀ d d') (h' : Later outs roots d₀ d' d'') :
    Later outs roots d₀ d d'' := by
  refine ⟨fun stem hne => ?_, fun stem hnone hne => ?_⟩
  · have hmid := h.kept stem hne
    rw [h'.kept stem (by rw [hmid]; exact hne), hmid]
  · -- the file appeared in the first stretch or in the second
    by_cases hmid : d'.node? (outs ++ [Naming.generatedFileName stem]) = none
    · exact h'.made stem hmid hne
    · exact h.made stem hnone hmid

/-- Writing a file whose name is no generated file's name changes no generated file. -/
theorem put_other {g : String} (hg : ∀ stem, g ≠ Naming.generatedFileName stem) (node : Node) :
    Later outs roots d₀ d (d.put (outs ++ [g]) node) := by
  have hkeep : ∀ stem, (d.put (outs ++ [g]) node).node? (outs ++ [Naming.generatedFileName stem]) =
      d.node? (outs ++ [Naming.generatedFileName stem]) :=
    fun stem => node?_put_of_ne _ (by simpa using (hg stem).symm)
  exact ⟨fun stem _ => hkeep stem, fun stem hnone hne => absurd (by rw [hkeep]; exact hnone) hne⟩

end Later

/-! ### One header, then the loops -/

/-- What the reuse check answers for the header at the names `ks` on the disk `d`. -/
def reuseAnswer (outs ks : List String) (d : MemoryDisk) : Option FileId :=
  ((Generation.reusableId ⟨nameText ks⟩ (Generation.generatedPath ⟨nameText outs⟩ ⟨nameText ks⟩) :
    MemoryRun _).run d).1

theorem runOn_processHeader_reuseAnswer (hf : s.force = false) (ks : List String)
    (includedAs : String) :
    d.runOn (Generation.processHeader s ⟨nameText outs⟩ ⟨nameText ks⟩ includedAs) =
      match reuseAnswer outs ks d with
      | some id => (.ok (.reused id), d)
      | none => d.runOn (Generation.generate ⟨nameText outs⟩ ⟨nameText ks⟩ includedAs) :=
  runOn_processHeader_of_not_force hf d _ _ _

namespace FirstRun

variable (hs : Rerunnable s outs roots d₀) (inv : FirstRun outs d₀ d)
include hs inv

/-- Everything processing a scanned header can do in the first run: reuse the id its generated
file records when that file is there; otherwise read the header, a file of `d₀`, and skip it when
its text does not ask for reflection, or write its generated file under the next id. -/
theorem processHeader_cases {rs ks : List String} (hrs : rs ∈ roots) (hks : ∀ n ∈ ks, IsName n)
    (hpre : rs <+: ks) (hnot : ¬ outs <+: ks) (hhdr : isHeader ⟨nameText ks⟩ = true) {o : Outcome}
    (h : d.runOn (Generation.processHeader s ⟨nameText outs⟩ ⟨nameText ks⟩
      (includePath ⟨nameText ks⟩ ⟨nameText rs⟩)) = (.ok o, d')) :
    (∃ id, reuseAnswer outs ks d = some id ∧
        d.node? (outs ++ [Naming.generatedFileName (headerStem ks)]) ≠ none ∧
        o = .reused id ∧ d' = d) ∨
      (d.node? (outs ++ [Naming.generatedFileName (headerStem ks)]) = none ∧
        ∃ c t, d₀.node? ks = some (.file c t) ∧ d.existing ⟨nameText ks⟩ = .ok (ks, .file c t) ∧
        (Generation.asksForReflection (Utf8.decodeLossy c.toUTF8) (headerStem ks) = false ∧
            o = .skipped ∧ d' = d ∨
          Generation.asksForReflection (Utf8.decodeLossy c.toUTF8) (headerStem ks) = true ∧
            o = .generated (idAt d.issued) ∧
            ∃ e, FileId.fromGenerated e = .ok (idAt d.issued) ∧
              d' = ({ d with issued := d.issued + 1 } : MemoryDisk).put
                (outs ++ [Naming.generatedFileName (headerStem ks)]) (.file e d.clock))) := by
  have hscan : Scanned outs roots ks := ⟨hhdr, hnot, rs, hrs, hpre⟩
  have hexG := inv.existing_generatedPath hs hks
  rw [runOn_processHeader_reuseAnswer hs.force] at h
  cases hv : reuseAnswer outs ks d with
  | some id =>
    rw [hv] at h
    simp only [Prod.mk.injEq, Except.ok.injEq] at h
    obtain ⟨rfl, rfl⟩ := h
    refine .inl ⟨id, rfl, fun hnone => ?_, rfl, rfl⟩
    -- without its generated file the check answers nothing
    have hmiss : d.existing (Generation.generatedPath ⟨nameText outs⟩ ⟨nameText ks⟩) =
        .error .notFound := by rw [hexG, hnone]
    rw [reuseAnswer, reusableId_of_missing hmiss] at hv
    cases hv
  | none =>
    rw [hv] at h
    obtain ⟨c, t, hex, hcase⟩ := generate_eq_ok hs.outsNamed hks h
    have hnode₀ : d₀.node? ks = some (.file c t) := by
      rw [← inv.agree.node ks hnot]
      exact (existing_eq_ok hex).2
    have hnone : d.node? (outs ++ [Naming.generatedFileName (headerStem ks)]) = none := by
      cases hn : d.node? (outs ++ [Naming.generatedFileName (headerStem ks)]) with
      | none => rfl
      | some nd =>
        -- a generated file there is as new as the clock, hence not older than the header, and
        -- its valid id would have been reused
        obtain ⟨cg, id, rfl, hid⟩ := inv.generated _ _ hn
        have hexg : d.existing (Generation.generatedPath ⟨nameText outs⟩ ⟨nameText ks⟩) =
            .ok (outs ++ [Naming.generatedFileName (headerStem ks)], .file cg d₀.clock) := by
          rw [hexG, hn]
        have ht : t ≤ d₀.clock := hs.clock _ (mem_files_of_node? hnode₀)
        rw [reuseAnswer, reusableId_of_files hex hexg ht, hid] at hv
        cases hv
    refine .inr ⟨hnone, c, t, hnode₀, hex, ?_⟩
    rcases hcase with ⟨hasks, rfl, rfl⟩ | ⟨hasks, rfl, rfl⟩
    · exact .inl ⟨hasks, rfl, rfl⟩
    · exact .inr ⟨hasks, rfl, _, hs.fromGenerated_emitHeader_of_scanned hrs hpre hscan hnode₀ _ _, rfl⟩

/-- Processing one scanned header keeps the invariant, and what it does to generated files is
a stretch of the first run. -/
theorem processHeader {rs ks : List String} (hrs : rs ∈ roots) (hks : ∀ n ∈ ks, IsName n)
    (hpre : rs <+: ks) (hnot : ¬ outs <+: ks) (hhdr : isHeader ⟨nameText ks⟩ = true) {o : Outcome}
    (h : d.runOn (Generation.processHeader s ⟨nameText outs⟩ ⟨nameText ks⟩
      (includePath ⟨nameText ks⟩ ⟨nameText rs⟩)) = (.ok o, d')) :
    FirstRun outs d₀ d' ∧ Later outs roots d₀ d d' := by
  rcases inv.processHeader_cases hs hrs hks hpre hnot hhdr h with
    ⟨id, -, -, -, rfl⟩ | ⟨hnone, c, t, hnode₀, -, ⟨-, -, rfl⟩ | ⟨hasks, -, e, he, rfl⟩⟩
  · exact ⟨inv, .refl⟩
  · exact ⟨inv, .refl⟩
  refine ⟨inv.put hs (isName_generatedFileName hks) (fun _ _ => ⟨_, he⟩) _,
    fun stem hne => ?_, fun stem hnone' hne => ?_⟩
  · -- a generated file already there has another name than the one written
    have hstem : outs ++ [Naming.generatedFileName stem] ≠
        outs ++ [Naming.generatedFileName (headerStem ks)] := fun heq => hne (heq ▸ hnone)
    exact node?_put_of_ne _ hstem
  · by_cases hstem : outs ++ [Naming.generatedFileName stem] =
        outs ++ [Naming.generatedFileName (headerStem ks)]
    · have hks' : headerStem ks = stem :=
        Naming.generatedFileName_injective (by simpa using hstem.symm)
      exact ⟨⟨ks, c, t⟩, mem_files_of_node? hnode₀, ⟨hhdr, hnot, rs, hrs, hpre⟩, hks', hasks⟩
    · rw [node?_put_of_ne _ hstem] at hne
      exact absurd hnone' hne

/-- Processing the headers found below a root keeps the invariant. -/
theorem processHeaders {rs : List String} (hrs : rs ∈ roots) {headers : List Path}
    (hbelow : ∀ p ∈ headers, HeaderBelow outs rs p) {progress progress' : Progress}
    (h : d.runOn (Generation.processHeaders s ⟨nameText outs⟩ ⟨nameText rs⟩ headers progress) =
      (.ok progress', d')) :
    FirstRun outs d₀ d' ∧ Later outs roots d₀ d d' := by
  induction headers generalizing d progress with
  | nil =>
    simp only [Generation.processHeaders, runOn_pure, Prod.mk.injEq, Except.ok.injEq] at h
    obtain ⟨rfl, rfl⟩ := h
    exact ⟨inv, .refl⟩
  | cons header headers ih =>
    simp only [Generation.processHeaders, runOn_bind_eq_ok] at h
    obtain ⟨o, d₁, hstep, h⟩ := h
    obtain ⟨ks, rfl, hks, hpre, hnot, hhdr⟩ := hbelow _ List.mem_cons_self
    obtain ⟨inv₁, hlater₁⟩ := inv.processHeader hs hrs hks hpre hnot hhdr hstep
    obtain ⟨inv', hlater'⟩ := ih inv₁ (fun p hp => hbelow p (List.mem_cons_of_mem _ hp)) h
    exact ⟨inv', hlater₁.trans hlater'⟩

/-- Scanning one root keeps the invariant: the root is its own canonical path, and its headers
are found without changing the disk. -/
theorem scanRoot {rs : List String} (hrs : rs ∈ roots) {progress progress' : Progress}
    (h : d.runOn (Generation.scanRoot s ⟨nameText outs⟩ ⟨nameText rs⟩ progress) =
      (.ok progress', d')) :
    FirstRun outs d₀ d' ∧ Later outs roots d₀ d d' := by
  simp only [Generation.scanRoot, runOn_bind_eq_ok, runOn_attempt_eq_ok, run_canonicalize] at h
  obtain ⟨canonical, d₁, hc, headers, d₂, hcollect, h⟩ := h
  obtain ⟨hcanon, rfl⟩ := Prod.mk.inj hc
  obtain ⟨names, w, hres, -, rfl⟩ := canonicalize_eq_ok hcanon
  have hrsn := hs.rootsNamed rs hrs
  obtain rfl := resolve_nameText hrsn hres
  obtain ⟨rfl, hbelow⟩ := collectHeaders_eq_ok inv.named hs.outsNamed hrsn hcollect
  exact inv.processHeaders hs hrs hbelow h

/-- Scanning roots in turn keeps the invariant. -/
theorem scanRoots {rl : List (List String)} (hrl : ∀ rs ∈ rl, rs ∈ roots)
    {progress progress' : Progress}
    (h : d.runOn (Generation.scanRoots s ⟨nameText outs⟩ (rl.map fun rs => ⟨nameText rs⟩) progress) =
      (.ok progress', d')) :
    FirstRun outs d₀ d' ∧ Later outs roots d₀ d d' := by
  induction rl generalizing d progress with
  | nil =>
    simp only [List.map_nil, Generation.scanRoots, runOn_pure, Prod.mk.injEq,
      Except.ok.injEq] at h
    obtain ⟨rfl, rfl⟩ := h
    exact ⟨inv, .refl⟩
  | cons rs rl ih =>
    have hrl' : ∀ r ∈ rl, r ∈ roots := fun r hr => hrl r (List.mem_cons_of_mem _ hr)
    simp only [List.map_cons, Generation.scanRoots, runOn_bind_eq_ok, runOn_lift,
      run_pathExists] at h
    obtain ⟨exists_, d₁, hc, h⟩ := h
    obtain ⟨-, rfl⟩ := Prod.mk.inj hc
    -- a root that does not exist is passed over
    split at h
    · obtain ⟨progress₁, d₂, hscan, h⟩ := runOn_bind_eq_ok.1 h
      obtain ⟨inv₁, hlater₁⟩ := inv.scanRoot hs (hrl rs List.mem_cons_self) hscan
      obtain ⟨inv', hlater'⟩ := ih inv₁ hrl' h
      exact ⟨inv', hlater₁.trans hlater'⟩
    · obtain ⟨progress₁, d₂, hskip, h⟩ := runOn_bind_eq_ok.1 h
      simp only [runOn_pure, Prod.mk.injEq, Except.ok.injEq] at hskip
      obtain ⟨rfl, rfl⟩ := hskip
      exact ih inv hrl' h

end FirstRun

end TypeReflection
