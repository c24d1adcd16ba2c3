import TypeReflection.Proofs.Generation.Reuse

/-!
# A run stops at the first header that fails to parse

A run deals with the scan roots in the order given and, under each root that exists, with the
headers in the order the walk finds them. A header that is not reused and whose text asks for
reflection is parsed, and a parse that reports errors stops the run with that header and all of
its errors: no later header is dealt with and the project header is not written.

`Reaches s d output header dh` follows a run from the disk `d` to `header`: the output directory
was made and found at `output`, and the roots before the header's root and the headers before it
under its root were dealt with, without a fault, leaving the disk `dh`. `ParseFails` says that
dealing with the header on that disk parses it, and the parse reports the given errors.

Main statement (`run_stops_at_first_parse_error`): a run ends with the parse error of a header
exactly when it reaches that header and the parse fails there. It then leaves the disk it reached
the header with, and every file other than a generated header, the project header included, is as
it was before the run.

The loops over roots and over headers are folds that stop at the first step that fails
(`runOn_foldlM_eq_error`). A step that succeeds writes generated headers only (`SameOtherFiles`):
making the output directory adds directories, collecting headers reads, and generating a header
writes at a name that ends like a generated header's (`generatedName_of_writeText`).

A run over two roots, the second holding a record without a name before another header, stops at
that record with the old project header in place (`run_stops_at_first_parse_error_namelessRecord`).
-/

set_option autoImplicit false

namespace TypeReflection

open MemoryDisk

/-! ## Files other than generated headers -/

namespace MemoryDisk

/-- The contents and time of the file at `names`, if a file is there. -/
def file? (d : MemoryDisk) (names : List String) : Option (String × Int) :=
  match d.node? names with
  | some (.file c t) => some (c, t)
  | _ => none

/-- Names whose last name ends like that of a generated header. -/
def GeneratedName (names : List String) : Prop :=
  ∃ n, names.getLast? = some n ∧ n.endsWith Naming.generatedSuffix = true

/-- `d'` holds the same file as `d` at every name but those of generated headers. -/
def SameOtherFiles (d d' : MemoryDisk) : Prop :=
  ∀ names, ¬ GeneratedName names → d'.file? names = d.file? names

namespace SameOtherFiles

variable {d d' d'' : MemoryDisk}

theorem refl (d : MemoryDisk) : SameOtherFiles d d := fun _ _ => rfl

theorem trans (h : SameOtherFiles d d') (h' : SameOtherFiles d' d'') : SameOtherFiles d d'' :=
  fun names hn => (h' names hn).trans (h names hn)

theorem withIssued (d : MemoryDisk) (n : Nat) : SameOtherFiles d { d with issued := n } :=
  fun _ _ => rfl

/-- Putting a node at a generated header's name keeps every other file. -/
theorem put_generated {names : List String} (hg : GeneratedName names) (node : Node) :
    SameOtherFiles d (d.put names node) := by
  intro ks hks
  have hne : ks ≠ names := fun he => hks (he ▸ hg)
  simp only [file?, node?_put_of_ne node hne]

end SameOtherFiles

/-- Creating directories keeps every file and makes none. -/
theorem DirsAdded.file?_eq {d d' : MemoryDisk} (h : DirsAdded d d') (names : List String) :
    d'.file? names = d.file? names := by
  induction h with
  | refl => rfl
  | tail _ hstep ih =>
    obtain ⟨_, hc⟩ := hstep
    obtain ⟨dir, w, -, hnone, rfl⟩ := createDir_eq_ok hc
    rw [← ih]
    by_cases hn : names = dir
    · subst hn
      -- the new directory stands where nothing was
      have hne : names ≠ [] := fun hnil => by simp [hnil, node?] at hnone
      simp [file?, node?_put_self _ hne, hnone]
    · simp only [file?, node?_put_of_ne _ hn]

/-- The project header is never taken for a generated header: its name ends in `Reflection.h`,
which has as many characters as `.generated.h`. -/
theorem not_generatedName_projectFile (dir : List String) (project : String) :
    ¬ GeneratedName (dir ++ [Naming.projectFileName project]) := by
  rintro ⟨n, hn, hend⟩
  simp only [List.getLast?_append, List.getLast?_singleton, Option.some_or,
    Option.some.injEq] at hn
  subst hn
  rw [endsWith_eq_true_iff_suffix] at hend
  have hproject : "Reflection.h".toList <:+ (Naming.projectFileName project).toList := by
    simp only [Naming.projectFileName, String.toList_append]
    exact List.suffix_append _ _
  have hsuffix := List.suffix_of_suffix_length_le hend hproject (by decide)
  exact absurd (hsuffix.eq_of_length (by decide)) (by decide)

end MemoryDisk

/-! ## Where a generated header is written -/

theorem PathPart.eq_of_ofPiece {a s : String} (h : PathPart.ofPiece a = some (.name s)) : a = s := by
  unfold PathPart.ofPiece at h
  split at h
  · cases h
  · split at h
    · cases h
    · cases h
      rfl

/-- The file name of a path is one of its pieces, so it holds no separator. -/
theorem Path.noSlash_fileName {p : Path} {n : String} (h : p.fileName? = some n) : '/' ∉ n.toList := by
  unfold Path.fileName? at h
  split at h
  · next s hlast =>
    cases h
    have hmem := List.mem_of_getLast? hlast
    simp only [Path.parts, List.mem_append, List.mem_filterMap] at hmem
    rcases hmem with hlead | ⟨a, ha, hofa⟩
    · -- the leading parts are the root and the current directory, never a name
      split at hlead
      · simp at hlead
      · split at hlead <;> simp at hlead
    · obtain rfl := PathPart.eq_of_ofPiece hofa
      simp only [Path.splitPieces, List.mem_map] at ha
      obtain ⟨l, hl, rfl⟩ := ha
      simpa using not_mem_of_mem_splitOn hl
  · cases h

/-- The generated file of any header has a proper name. -/
theorem isName_generatedFileName_stem (header : Path) :
    IsName (Naming.generatedFileName (header.stem?.getD "")) := by
  have hstem : '/' ∉ (header.stem?.getD "").toList := by
    rw [Path.stem?]
    cases hname : header.fileName? with
    | none => simp
    | some n => exact fun h => Path.noSlash_fileName hname (mem_of_mem_splitExtension h)
  exact IsName.append hstem (by decide) (by decide)

namespace MemoryDisk

/-- A walk whose last piece is a proper name ends at that name. -/
theorem walk_getLast {d : MemoryDisk} {cur ps r : List String} {g : String} (hg : IsName g)
    (h : d.walk cur (ps ++ [g]) = .ok r) : r.getLast? = some g := by
  induction ps generalizing cur with
  | nil =>
    simp only [List.nil_append, walk, step_of_isName _ hg, Except.ok.injEq] at h
    simp [← h]
  | cons p rest ih =>
    obtain ⟨q, rest', hq⟩ := List.exists_cons_of_ne_nil (show rest ++ [g] ≠ [] by simp)
    rw [List.cons_append, hq] at h
    simp only [walk] at h
    split at h
    · rw [← hq] at h
      exact ih h
    · cases h
    · cases h

/-- The pieces of a text that ends with a separator and a proper name end with that name. -/
theorem pieces_of_toList {p : Path} {t : List Char} {g : String} (hg : IsName g)
    (h : p.text.toList = t ++ '/' :: g.toList) :
    pieces p = ((t.splitOn '/').map String.ofList).filter (· != "") ++ [g] := by
  have hgne : (g != "") = true := by simpa using hg.ne_empty
  rw [pieces, Path.splitPieces, h, List.splitOn_append_cons_self,
    List.splitOn_eq_singleton hg.no_separator, List.map_append, List.filter_append]
  simp [hgne]

/-- The pieces of a path joined to a proper name end with that name. -/
theorem pieces_join (base : Path) {g : String} (hg : IsName g) :
    ∃ ps, pieces (base.join ⟨g⟩) = ps ++ [g] := by
  rw [Path.join, if_neg (by simp [hg.isAbsolute])]
  split
  · next hbase =>
    rcases Bool.or_eq_true_iff.1 hbase with hempty | hslash
    · -- an empty base leaves the name alone
      have hb : base.text = "" := by simpa [String.isEmpty_iff] using hempty
      refine ⟨[], ?_⟩
      have hgne : (g != "") = true := by simpa using hg.ne_empty
      simp [pieces, Path.splitPieces, hb, List.splitOn_eq_singleton hg.no_separator, hgne]
    · rw [endsWith_eq_true_iff_suffix] at hslash
      obtain ⟨t, ht⟩ := hslash
      exact ⟨_, pieces_of_toList (t := t) hg (by simp [← ht])⟩
  · exact ⟨_, pieces_of_toList (t := base.text.toList) hg (by simp)⟩

/-- A generated file is written at a name that ends like a generated header's. -/
theorem generatedName_of_writeText {d d' : MemoryDisk} {output header : Path} {c : String}
    (h : d.writeText (Generation.generatedPath output header) c = .ok d') :
    ∃ names, GeneratedName names ∧ d' = d.put names (.file c d.clock) := by
  obtain ⟨names, hres, -, rfl⟩ := writeText_eq_ok h
  have hg := isName_generatedFileName_stem header
  obtain ⟨ps, hps⟩ := pieces_join output hg
  have hwalk := (resolve_eq_ok hres).1
  rw [Generation.generatedPath, hps] at hwalk
  exact ⟨names, ⟨_, walk_getLast hg hwalk, Naming.endsWith_generatedFileName _⟩, rfl⟩

end MemoryDisk

/-! ## Runs that stop early -/

namespace MemoryDisk

variable {ε α β : Type}

/-- A bind fails exactly when its first part fails, or succeeds and the rest fails after it. -/
theorem runOn_bind_eq_error {d : MemoryDisk} {x : ExceptT ε MemoryRun α}
    {f : α → ExceptT ε MemoryRun β} {e : ε} {d'' : MemoryDisk} :
    d.runOn (x >>= f) = (.error e, d'') ↔
      d.runOn x = (.error e, d'') ∨
        ∃ a d', d.runOn x = (.ok a, d') ∧ d'.runOn (f a) = (.error e, d'') := by
  rw [runOn_bind]
  rcases d.runOn x with ⟨e' | a, d'⟩
  · simp
  · simp only [reduceCtorEq, Prod.mk.injEq, false_and, false_or]
    refine ⟨fun h => ⟨a, d', ⟨rfl, rfl⟩, h⟩, ?_⟩
    rintro ⟨a', d₁, ⟨he, rfl⟩, h⟩
    cases he
    exact h

/-- A bind whose rest only returns a value fails exactly when its first part fails. -/
theorem runOn_bind_pure_eq_error {d d' : MemoryDisk} {x : ExceptT ε MemoryRun α} {g : α → β}
    {e : ε} :
    d.runOn (x >>= fun a => pure (g a)) = (.error e, d') ↔ d.runOn x = (.error e, d') := by
  rw [runOn_bind]
  rcases d.runOn x with ⟨_ | a, d₁⟩ <;> simp

/-- A file operation of a run fails with the fault it is wrapped in, never with a parse error. -/
theorem runOn_attempt_ne_parse {d d' : MemoryDisk} {wrap : IoError → GenerationError}
    {act : MemoryRun (Except IoError α)} (hwrap : ∀ e h errs, wrap e ≠ .parse h errs)
    {h : Path} {errs : List ParseError} :
    d.runOn (Generation.attempt wrap act) ≠ (.error (.parse h errs), d') := by
  show ((act.run d).1.mapError wrap, (act.run d).2) ≠ _
  rcases act.run d with ⟨_ | a, d₁⟩
  · intro heq
    exact hwrap _ _ _ (Except.error.inj (Prod.mk.inj heq).1)
  · intro heq
    cases (Prod.mk.inj heq).1

/-- A fold stops at its first step that fails: the steps before it succeed, and the fold fails
with that step's error and disk. -/
theorem runOn_foldlM_eq_error {f : β → α → ExceptT ε MemoryRun β} {xs : List α} {b : β} {e : ε}
    {d d' : MemoryDisk} :
    d.runOn (xs.foldlM f b) = (.error e, d') ↔
      ∃ pre x post b' dx, xs = pre ++ x :: post ∧ d.runOn (pre.foldlM f b) = (.ok b', dx) ∧
        dx.runOn (f b' x) = (.error e, d') := by
  constructor
  · intro h
    induction xs generalizing b d with
    | nil => simp at h
    | cons x xs ih =>
      rw [List.foldlM_cons] at h
      rcases runOn_bind_eq_error.1 h with hx | ⟨b₁, d₁, hx, hrest⟩
      · exact ⟨[], x, xs, b, d, rfl, rfl, hx⟩
      · obtain ⟨pre, y, post, b', dy, rfl, hpre, hy⟩ := ih hrest
        refine ⟨x :: pre, y, post, b', dy, rfl, ?_, hy⟩
        rw [List.foldlM_cons]
        exact runOn_bind_eq_ok.2 ⟨b₁, d₁, hx, hpre⟩
  · rintro ⟨pre, x, post, b', dx, rfl, hpre, hx⟩
    rw [List.foldlM_append, runOn_bind, hpre]
    dsimp only
    rw [List.foldlM_cons, runOn_bind, hx]

/-- A fold whose every successful step writes generated headers only does the same. -/
theorem runOn_foldlM_sameOtherFiles {f : β → α → ExceptT ε MemoryRun β}
    (hf : ∀ b x b' d d', d.runOn (f b x) = (.ok b', d') → SameOtherFiles d d')
    {xs : List α} {b b' : β} {d d' : MemoryDisk} (h : d.runOn (xs.foldlM f b) = (.ok b', d')) :
    SameOtherFiles d d' := by
  induction xs generalizing b d with
  | nil =>
    simp only [List.foldlM_nil, runOn_pure, Prod.mk.injEq] at h
    rw [← h.2]
    exact .refl d
  | cons x xs ih =>
    rw [List.foldlM_cons] at h
    obtain ⟨b₁, d₁, hx, hrest⟩ := runOn_bind_eq_ok.1 h
    exact (hf _ _ _ _ _ hx).trans (ih hrest)

/-- A computation that may read the disk but never changes it. -/
def ReadsOnly (x : ExceptT ε MemoryRun α) : Prop := ∀ d : MemoryDisk, (d.runOn x).2 = d

namespace ReadsOnly

theorem pure (a : α) : ReadsOnly (Pure.pure a : ExceptT ε MemoryRun α) := fun _ => rfl

theorem bind {x : ExceptT ε MemoryRun α} {f : α → ExceptT ε MemoryRun β} (hx : ReadsOnly x)
    (hf : ∀ a, ReadsOnly (f a)) : ReadsOnly (x >>= f) := by
  intro d
  have hd := hx d
  rw [runOn_bind]
  rcases hrun : d.runOn x with ⟨e | a, d'⟩
  · rw [hrun] at hd
    exact hd
  · rw [hrun] at hd
    subst hd
    exact hf a d'

end ReadsOnly

/-- Walking a directory tree for headers reads the disk only. -/
theorem readsOnly_collectIn (exclude : Path) (fuel : Nat) (dir : Path) :
    ReadsOnly (collectIn exclude fuel dir : ExceptT IoError MemoryRun _) := by
  induction fuel generalizing dir with
  | zero => exact .pure _
  | succ fuel ih =>
    rw [collectIn]
    refine .bind (fun _ => rfl) fun entries => ?_
    -- the entries are visited in turn, each one only read
    induction DirEntry.sortByName entries with
    | nil => exact .pure _
    | cons e es ihes =>
      rw [collectEntries]
      refine .bind ?_ fun _ => .bind ihes fun _ => .pure _
      unfold entryHeaders
      dsimp only
      -- an excluded entry contributes nothing; a directory is walked, a file only looked at
      by_cases hex : (dir.join ⟨e.name⟩).startsWith exclude = true
      · rw [if_pos hex]
        exact .pure _
      · rw [if_neg hex]
        split
        · exact ih _
        · exact .pure _
        · exact .pure _

theorem collectHeaders_run (d : MemoryDisk) (root exclude : Path) :
    ((collectHeaders root exclude : MemoryRun _).run d).2 = d :=
  readsOnly_collectIn exclude maxTreeDepth root d

end MemoryDisk

/-! ## The loops of a run as folds -/

section Folds

variable {m : Type → Type} [Monad m] [LawfulMonad m] [MonadDisk m] [MonadFileIds m]

theorem processHeaders_eq_foldlM (s : Settings) (output root : Path) (headers : List Path)
    (progress : Progress) :
    (Generation.processHeaders s output root headers progress : ExceptT GenerationError m Progress) =
      headers.foldlM (fun progress header => do
        let outcome ← Generation.processHeader s output header (includePath header root)
        pure (progress.record (includePath header root) outcome)) progress := by
  induction headers generalizing progress with
  | nil => rfl
  | cons header headers ih =>
    simp only [Generation.processHeaders, List.foldlM_cons, bind_assoc, pure_bind, ih]

theorem scanRoots_eq_foldlM (s : Settings) (output : Path) (roots : List Path)
    (progress : Progress) :
    (Generation.scanRoots s output roots progress : ExceptT GenerationError m Progress) =
      roots.foldlM (fun progress root => do
        if ← (Disk.pathExists root : m Bool) then Generation.scanRoot s output root progress
        else pure progress) progress := by
  induction roots generalizing progress with
  | nil => rfl
  | cons root roots ih =>
    simp only [Generation.scanRoots, List.foldlM_cons, bind_assoc, ih]
    congr 1
    funext c
    cases c <;> simp

end Folds

/-! ## Dealing with one header -/

/-- The text of `header` on `d` asks for reflection, and parsing it reports the errors `errs`, all
of them in order. -/
def ParsesWithErrors (header : Path) (d : MemoryDisk) (errs : List ParseError) : Prop :=
  ∃ c, d.readText header = .ok c ∧
    Generation.asksForReflection (Utf8.decodeLossy c.toUTF8) (header.stem?.getD "") = true ∧
    (parseHeader (Utf8.decodeLossy c.toUTF8) header.text).hasErrors = true ∧
    errs = (parseHeader (Utf8.decodeLossy c.toUTF8) header.text).diagnostics.errors.toList

/-- Dealing with `header` on the disk `d` parses it, and the parse reports the errors `errs`: the
header is not reused, since `force` is set or its generated file offers no id, and its text asks
for reflection and parses with those errors. -/
structure ParseFails (s : Settings) (output header : Path) (d : MemoryDisk)
    (errs : List ParseError) : Prop where
  notReused : s.force = true ∨
    ((Generation.reusableId header (Generation.generatedPath output header) : MemoryRun _).run d).1 =
      none
  parse : ParsesWithErrors header d errs

section Header

variable {s : Settings} {d d' : MemoryDisk} {output header : Path} {includedAs : String}

/-- Generating a header fails with a parse error exactly when its text asks for reflection and
parses with errors; the error names the header, and the disk is as it was. -/
theorem runOn_generate_eq_parse {h : Path} {errs : List ParseError} :
    d.runOn (Generation.generate output header includedAs) = (.error (.parse h errs), d') ↔
      h = header ∧ d' = d ∧ ParsesWithErrors header d errs := by
  constructor
  · intro hrun
    simp only [Generation.generate] at hrun
    rcases runOn_bind_eq_error.1 hrun with hread | ⟨source, d₁, hread, hrun⟩
    · exact absurd hread (runOn_attempt_ne_parse (by intro _ _ _ h; cases h))
    rw [runOn_attempt_eq_ok, run_readLossy] at hread
    obtain ⟨hsource, rfl⟩ := Prod.mk.inj hread
    obtain ⟨c, hc, rfl⟩ : ∃ c, d.readText header = .ok c ∧ Utf8.decodeLossy c.toUTF8 = source := by
      cases hr : d.readText header <;> simp_all [Except.map]
    split at hrun
    · simp at hrun
    next hasks =>
    split at hrun
    · next herr =>
      simp only [runOn_bind, runOn_throw, Prod.mk.injEq, Except.error.injEq,
        GenerationError.parse.injEq] at hrun
      obtain ⟨⟨rfl, rfl⟩, rfl⟩ := hrun
      exact ⟨rfl, rfl, c, hc, by simpa using hasks, herr, rfl⟩
    -- past the parse, only the write of the generated file can fail, with an I/O error
    rcases runOn_bind_eq_error.1 hrun with hrun | ⟨id, d₂, -, hrun⟩
    · simp at hrun
    rcases runOn_bind_eq_error.1 hrun with hrun | ⟨u, d₃, -, hrun⟩
    · exact absurd hrun (runOn_attempt_ne_parse (by intro _ _ _ h; cases h))
    · simp at hrun
  · rintro ⟨rfl, hd, c, hc, hasks, herr, rfl⟩
    rw [hd]
    unfold Generation.generate
    rw [runOn_bind]
    have hread : d.runOn (Generation.attempt (.io h) (Disk.readLossy h) : ExceptT _ MemoryRun _) =
        (.ok (Utf8.decodeLossy c.toUTF8), d) := by
      rw [runOn_attempt_eq_ok, run_readLossy, hc]
      rfl
    rw [hread]
    dsimp only
    rw [if_neg (by rw [hasks]; decide), if_pos herr]
    rfl

/-- Dealing with a header fails with a parse error exactly when the parse fails there; the error
names the header, and the disk is as it was. -/
theorem runOn_processHeader_eq_parse {h : Path} {errs : List ParseError} :
    d.runOn (Generation.processHeader s output header includedAs) = (.error (.parse h errs), d') ↔
      h = header ∧ d' = d ∧ ParseFails s output header d errs := by
  cases hf : s.force
  · rw [runOn_processHeader_of_not_force hf]
    cases hr : ((Generation.reusableId header (Generation.generatedPath output header) :
        MemoryRun _).run d).1 with
    | some id =>
      -- a reused header is not read at all
      simp only [reduceCtorEq, Prod.mk.injEq, false_and, false_iff, not_and]
      intro _ _ hfails
      rcases hfails.notReused with hr' | hr' <;> simp_all
    | none =>
      rw [runOn_generate_eq_parse]
      exact ⟨fun ⟨h₁, h₂, h₃⟩ => ⟨h₁, h₂, .inr hr, h₃⟩,
        fun ⟨h₁, h₂, h₃⟩ => ⟨h₁, h₂, h₃.parse⟩⟩
  · rw [processHeader_of_force hf, runOn_generate_eq_parse]
    exact ⟨fun ⟨h₁, h₂, h₃⟩ => ⟨h₁, h₂, .inl hf, h₃⟩,
      fun ⟨h₁, h₂, h₃⟩ => ⟨h₁, h₂, h₃.parse⟩⟩

/-- Generating a header writes at most its generated file, and takes an id. -/
theorem generate_sameOtherFiles {o : Outcome}
    (h : d.runOn (Generation.generate output header includedAs) = (.ok o, d')) :
    SameOtherFiles d d' := by
  simp only [Generation.generate, runOn_bind_eq_ok] at h
  obtain ⟨source, d₁, hread, h⟩ := h
  rw [runOn_attempt_eq_ok, run_readLossy] at hread
  obtain ⟨-, rfl⟩ := Prod.mk.inj hread
  split at h
  · simp only [runOn_pure, Prod.mk.injEq] at h
    rw [← h.2]
    exact .refl d
  split at h
  · simp at h
  simp only [runOn_bind_eq_ok, runOn_lift, run_freshId, runOn_attempt_eq_ok, runOn_pure,
    Prod.mk.injEq, Except.ok.injEq] at h
  obtain ⟨id, d₂, ⟨rfl, rfl⟩, ⟨⟩, d₃, hwrite, rfl, rfl⟩ := h
  rw [run_writeText_eq_ok] at hwrite
  obtain ⟨names, hgen, rfl⟩ := generatedName_of_writeText hwrite
  exact (SameOtherFiles.withIssued d _).trans (.put_generated hgen _)

/-- Dealing with a header writes at most its generated file. -/
theorem processHeader_sameOtherFiles {o : Outcome}
    (h : d.runOn (Generation.processHeader s output header includedAs) = (.ok o, d')) :
    SameOtherFiles d d' := by
  cases hf : s.force
  · rw [runOn_processHeader_of_not_force hf] at h
    split at h
    · simp only [Prod.mk.injEq] at h
      rw [← h.2]
      exact .refl d
    · exact generate_sameOtherFiles h
  · rw [processHeader_of_force hf] at h
    exact generate_sameOtherFiles h

end Header

/-! ## Dealing with roots and headers in turn -/

section Loops

variable {s : Settings} {d d' : MemoryDisk} {output : Path}

/-- Dealing with headers in turn fails at the first header whose dealing fails. -/
theorem runOn_processHeaders_eq_error {root : Path} {headers : List Path} {progress : Progress}
    {e : GenerationError} :
    d.runOn (Generation.processHeaders s output root headers progress) = (.error e, d') ↔
      ∃ pre header post progress' dh, headers = pre ++ header :: post ∧
        d.runOn (Generation.processHeaders s output root pre progress) = (.ok progress', dh) ∧
        dh.runOn (Generation.processHeader s output header (includePath header root)) =
          (.error e, d') := by
  rw [processHeaders_eq_foldlM, runOn_foldlM_eq_error]
  constructor
  · rintro ⟨pre, header, post, progress', dh, rfl, hpre, hstep⟩
    exact ⟨pre, header, post, progress', dh, rfl, by rwa [processHeaders_eq_foldlM],
      runOn_bind_pure_eq_error.1 hstep⟩
  · rintro ⟨pre, header, post, progress', dh, rfl, hpre, hstep⟩
    exact ⟨pre, header, post, progress', dh, rfl, by rwa [← processHeaders_eq_foldlM],
      runOn_bind_pure_eq_error.2 hstep⟩

/-- Dealing with the scan roots in turn fails at the first root that exists and whose scan fails. -/
theorem runOn_scanRoots_eq_error {roots : List Path} {progress : Progress} {e : GenerationError} :
    d.runOn (Generation.scanRoots s output roots progress) = (.error e, d') ↔
      ∃ before root after progress' d₁, roots = before ++ root :: after ∧
        d.runOn (Generation.scanRoots s output before progress) = (.ok progress', d₁) ∧
        (∃ md, d₁.metadata root = .ok md) ∧
        d₁.runOn (Generation.scanRoot s output root progress') = (.error e, d') := by
  rw [scanRoots_eq_foldlM, runOn_foldlM_eq_error]
  constructor
  · rintro ⟨before, root, after, progress', d₁, rfl, hbefore, hstep⟩
    rw [runOn_bind, runOn_lift, run_pathExists] at hstep
    dsimp only at hstep
    -- a root that does not exist is passed over, so the failing step scanned its root
    cases hmd : d₁.metadata root with
    | error e' => simp [hmd] at hstep
    | ok md =>
      simp only [hmd, if_true] at hstep
      exact ⟨before, root, after, progress', d₁, rfl, by rwa [scanRoots_eq_foldlM], ⟨md, hmd⟩,
        hstep⟩
  · rintro ⟨before, root, after, progress', d₁, rfl, hbefore, ⟨md, hmd⟩, hscan⟩
    refine ⟨before, root, after, progress', d₁, rfl, by rwa [← scanRoots_eq_foldlM], ?_⟩
    rw [runOn_bind, runOn_lift, run_pathExists, hmd]
    exact hscan

/-- Scanning one root fails with a parse error exactly when the root is found, its headers are
collected, and dealing with them fails with that error. -/
theorem runOn_scanRoot_eq_parse {root : Path} {progress : Progress} {h : Path}
    {errs : List ParseError} :
    d.runOn (Generation.scanRoot s output root progress) = (.error (.parse h errs), d') ↔
      ∃ canonical headers, d.canonicalize root = .ok canonical ∧
        (collectHeaders canonical output : MemoryRun _).run d = (.ok headers, d) ∧
        d.runOn (Generation.processHeaders s output canonical headers progress) =
          (.error (.parse h errs), d') := by
  constructor
  · intro hrun
    simp only [Generation.scanRoot] at hrun
    rcases runOn_bind_eq_error.1 hrun with hc | ⟨canonical, d₁, hc, hcollected⟩
    · exact absurd hc (runOn_attempt_ne_parse (by intro _ _ _ h; cases h))
    rw [runOn_attempt_eq_ok, run_canonicalize] at hc
    obtain ⟨hcanon, rfl⟩ := Prod.mk.inj hc
    rcases runOn_bind_eq_error.1 hcollected with hcollect | ⟨headers, d₂, hcollect, hheaders⟩
    · exact absurd hcollect (runOn_attempt_ne_parse (by intro _ _ _ h; cases h))
    rw [runOn_attempt_eq_ok] at hcollect
    obtain rfl : d₂ = d := (congrArg Prod.snd hcollect).symm.trans (collectHeaders_run d _ _)
    exact ⟨canonical, headers, hcanon, hcollect, hheaders⟩
  · rintro ⟨canonical, headers, hc, hcollect, hrun⟩
    simp only [Generation.scanRoot]
    refine runOn_bind_eq_error.2 (.inr ⟨canonical, d, ?_, ?_⟩)
    · rw [runOn_attempt_eq_ok, run_canonicalize, hc]
    · exact runOn_bind_eq_error.2 (.inr ⟨headers, d, runOn_attempt_eq_ok.2 hcollect, hrun⟩)

/-- A run fails with a parse error exactly when it makes and finds its output directory and
dealing with the scan roots fails with that error: the other steps fail with faults of their own. -/
theorem runOn_run_eq_parse {h : Path} {errs : List ParseError} :
    d.runOn (Generation.run s) = (.error (.parse h errs), d') ↔
      ∃ d₁ output, (Disk.createDirAll s.output : MemoryRun _).run d = (.ok (), d₁) ∧
        d₁.canonicalize s.output = .ok output ∧
        d₁.runOn (Generation.scanRoots s output s.scan {}) = (.error (.parse h errs), d') := by
  constructor
  · intro hrun
    simp only [Generation.run] at hrun
    rcases runOn_bind_eq_error.1 hrun with hdirs | ⟨u, d₁, hdirs, hfound⟩
    · exact absurd hdirs (runOn_attempt_ne_parse (by intro _ _ _ h; cases h))
    rcases runOn_bind_eq_error.1 hfound with hout | ⟨output, d₂, hout, hscanned⟩
    · exact absurd hout (runOn_attempt_ne_parse (by intro _ _ _ h; cases h))
    rw [runOn_attempt_eq_ok, run_canonicalize] at hout
    obtain ⟨houtput, rfl⟩ := Prod.mk.inj hout
    rcases runOn_bind_eq_error.1 hscanned with hscan | ⟨progress, d₃, -, hwritten⟩
    · exact ⟨d₁, output, runOn_attempt_eq_ok.1 hdirs, houtput, hscan⟩
    -- writing the project header fails with an I/O error only
    rcases runOn_bind_eq_error.1 hwritten with hwrite | ⟨u', d₄, -, hreturn⟩
    · exact absurd hwrite (runOn_attempt_ne_parse (by intro _ _ _ h; cases h))
    · simp at hreturn
  · rintro ⟨d₁, output, hdirs, hout, hscan⟩
    simp only [Generation.run]
    refine runOn_bind_eq_error.2 (.inr ⟨(), d₁, runOn_attempt_eq_ok.2 hdirs, ?_⟩)
    refine runOn_bind_eq_error.2 (.inr ⟨output, d₁, ?_, runOn_bind_eq_error.2 (.inl hscan)⟩)
    rw [runOn_attempt_eq_ok, run_canonicalize, hout]

theorem processHeaders_sameOtherFiles {root : Path} {headers : List Path}
    {progress progress' : Progress}
    (h : d.runOn (Generation.processHeaders s output root headers progress) = (.ok progress', d')) :
    SameOtherFiles d d' := by
  rw [processHeaders_eq_foldlM] at h
  refine runOn_foldlM_sameOtherFiles (fun progress header _ d d' hstep => ?_) h
  obtain ⟨o, d₁, hheader, hpure⟩ := runOn_bind_eq_ok.1 hstep
  simp only [runOn_pure, Prod.mk.injEq] at hpure
  rw [← hpure.2]
  exact processHeader_sameOtherFiles hheader

theorem scanRoot_sameOtherFiles {root : Path} {progress progress' : Progress}
    (h : d.runOn (Generation.scanRoot s output root progress) = (.ok progress', d')) :
    SameOtherFiles d d' := by
  simp only [Generation.scanRoot, runOn_bind_eq_ok, runOn_attempt_eq_ok, run_canonicalize] at h
  obtain ⟨canonical, d₁, hc, headers, d₂, hcollect, h⟩ := h
  obtain ⟨-, rfl⟩ := Prod.mk.inj hc
  -- collecting the headers only reads
  obtain rfl : d₂ = d := (congrArg Prod.snd hcollect).symm.trans (collectHeaders_run d _ _)
  exact processHeaders_sameOtherFiles h

theorem scanRoots_sameOtherFiles {roots : List Path} {progress progress' : Progress}
    (h : d.runOn (Generation.scanRoots s output roots progress) = (.ok progress', d')) :
    SameOtherFiles d d' := by
  rw [scanRoots_eq_foldlM] at h
  refine runOn_foldlM_sameOtherFiles (fun progress root _ d d' hstep => ?_) h
  obtain ⟨found, d₁, hfound, hscan⟩ := runOn_bind_eq_ok.1 hstep
  simp only [runOn_lift, run_pathExists, Prod.mk.injEq, Except.ok.injEq] at hfound
  obtain ⟨-, rfl⟩ := hfound
  -- a root that does not exist is passed over
  split at hscan
  · exact scanRoot_sameOtherFiles hscan
  · simp only [runOn_pure, Prod.mk.injEq] at hscan
    rw [← hscan.2]
    exact .refl d

end Loops

/-! ## Where a run stops -/

/-- The run with the settings `s` comes from the disk `d` to `header` with no fault before it,
leaving the disk `dh`: it made and found the output directory at `output`, dealt with the scan
roots before some root of the settings, found that root, collected the headers under it, and
dealt with those before `header`. -/
inductive Reaches (s : Settings) (d : MemoryDisk) (output header : Path) (dh : MemoryDisk) : Prop
  | intro {d₁ d₂ : MemoryDisk} {before after : List Path} {root canonical : Path}
      {progress progress' : Progress} {pre post : List Path}
      (dirs : (Disk.createDirAll s.output : MemoryRun _).run d = (.ok (), d₁))
      (found : d₁.canonicalize s.output = .ok output)
      (roots : s.scan = before ++ root :: after)
      (earlierRoots : d₁.runOn (Generation.scanRoots s output before {}) = (.ok progress, d₂))
      (rootExists : ∃ md, d₂.metadata root = .ok md)
      (rootFound : d₂.canonicalize root = .ok canonical)
      (headers : (collectHeaders canonical output : MemoryRun _).run d₂ =
        (.ok (pre ++ header :: post), d₂))
      (earlierHeaders : d₂.runOn (Generation.processHeaders s output canonical pre progress) =
        (.ok progress', dh))

/-- Up to the header it reaches, a run changes no file other than generated headers. -/
theorem Reaches.sameOtherFiles {s : Settings} {d : MemoryDisk} {output header : Path}
    {dh : MemoryDisk} (h : Reaches s d output header dh) : SameOtherFiles d dh := by
  obtain ⟨hdirs, -, -, hbefore, -, -, -, hpre⟩ := h
  -- making the output directory adds directories only
  have hadded := OnlyAddsDirs.createDirAll s.output d
  rw [hdirs] at hadded
  have hkept : SameOtherFiles d _ := fun names _ => hadded.file?_eq names
  exact hkept.trans ((scanRoots_sameOtherFiles hbefore).trans (processHeaders_sameOtherFiles hpre))

/-- A run ends with the parse error of `header` and all its errors `errs` exactly when it reaches
`header` with no fault before it, in the order of the scan roots and of the headers found under
each, and dealing with `header` there parses it with those errors. The run then leaves the disk as
it was when it reached `header`, so no later header is dealt with, and the project header, wherever
it is, is as it was before the run. -/
theorem run_stops_at_first_parse_error (s : Settings) (d d' : MemoryDisk) (header : Path)
    (errs : List ParseError) :
    (d.runOn (Generation.run s) = (.error (.parse header errs), d') ↔
      ∃ output, Reaches s d output header d' ∧ ParseFails s output header d' errs) ∧
    (d.runOn (Generation.run s) = (.error (.parse header errs), d') →
      ∀ dir, d'.file? (dir ++ [Naming.projectFileName s.project]) =
        d.file? (dir ++ [Naming.projectFileName s.project])) := by
  have hiff : d.runOn (Generation.run s) = (.error (.parse header errs), d') ↔
      ∃ output, Reaches s d output header d' ∧ ParseFails s output header d' errs := by
    rw [runOn_run_eq_parse]
    constructor
    · rintro ⟨d₁, output, hdirs, hout, hscan⟩
      obtain ⟨before, root, after, progress, d₂, hroots, hbefore, hexists, hroot⟩ :=
        runOn_scanRoots_eq_error.1 hscan
      obtain ⟨canonical, headers, hcanon, hcollect, hheaders⟩ := runOn_scanRoot_eq_parse.1 hroot
      obtain ⟨pre, failing, post, progress', dh, rfl, hpre, hfail⟩ :=
        runOn_processHeaders_eq_error.1 hheaders
      obtain ⟨rfl, rfl, hfails⟩ := runOn_processHeader_eq_parse.1 hfail
      exact ⟨output, ⟨hdirs, hout, hroots, hbefore, hexists, hcanon, hcollect, hpre⟩, hfails⟩
    · rintro ⟨output, ⟨hdirs, hout, hroots, hbefore, hexists, hcanon, hcollect, hpre⟩, hfails⟩
      refine ⟨_, output, hdirs, hout,
        runOn_scanRoots_eq_error.2 ⟨_, _, _, _, _, hroots, hbefore, hexists, ?_⟩⟩
      refine runOn_scanRoot_eq_parse.2 ⟨_, _, hcanon, hcollect, ?_⟩
      exact runOn_processHeaders_eq_error.2
        ⟨_, _, _, _, _, rfl, hpre, runOn_processHeader_eq_parse.2 ⟨rfl, rfl, hfails⟩⟩
  refine ⟨hiff, fun hrun dir => ?_⟩
  -- only generated headers change before the header is reached, and the project header is none
  obtain ⟨output, hreach, -⟩ := hiff.1 hrun
  exact hreach.sameOtherFiles _ (not_generatedName_projectFile dir s.project)

/-- A header under the second scan root whose record has no name. -/
def namelessRecordText : String := "#include \"Bad.generated.h\"\nGCLASS() class \x7b \x7d;\n"

/-- Two scan roots: `/w/A` holds a header that generates, `/w/B` holds the nameless record and,
after it, another header that asks for reflection; an old project header is in `/w/Generated`. -/
def namelessRecordDisk : MemoryDisk :=
  ((((MemoryDisk.withWorkDir ["w"] 5).place ["w", "A", "Good.h"]
    "#include \"Good.generated.h\"\nGENUM() enum E \x7b A \x7d;\n" 0).place ["w", "B", "Bad.h"]
    namelessRecordText 0).place ["w", "B", "Later.h"]
    "#include \"Later.generated.h\"\nGENUM() enum F \x7b B \x7d;\n" 0).place
    ["w", "Generated", "GameReflection.h"] "// old\n" 1

/-- Settings that scan `/w/A` and then `/w/B` into `/w/Generated`, reusing what they can. -/
def namelessRecordSettings : Settings :=
  ⟨"Game", ⟨"/w/Generated"⟩, [⟨"/w/A"⟩, ⟨"/w/B"⟩], false, "p.h"⟩

deriving instance DecidableEq for GenerationError

theorem run_stops_at_first_parse_error_namelessRecord :
    namelessRecordDisk.runOn (Generation.run namelessRecordSettings) =
        (.error (.parse ⟨"/w/B/Bad.h"⟩
          (parseHeader namelessRecordText "/w/B/Bad.h").diagnostics.errors.toList),
          (namelessRecordDisk.runOn (Generation.run namelessRecordSettings)).2) ∧
      (∃ output, Reaches namelessRecordSettings namelessRecordDisk output ⟨"/w/B/Bad.h"⟩
          (namelessRecordDisk.runOn (Generation.run namelessRecordSettings)).2 ∧
        ParseFails namelessRecordSettings output ⟨"/w/B/Bad.h"⟩
          (namelessRecordDisk.runOn (Generation.run namelessRecordSettings)).2
          (parseHeader namelessRecordText "/w/B/Bad.h").diagnostics.errors.toList) ∧
      ∀ dir, (namelessRecordDisk.runOn (Generation.run namelessRecordSettings)).2.file?
          (dir ++ [Naming.projectFileName "Game"]) =
        namelessRecordDisk.file? (dir ++ [Naming.projectFileName "Game"]) := by
  have herror : (match (namelessRecordDisk.runOn (Generation.run namelessRecordSettings)).1 with
      | .error e => some e
      | .ok _ => none) = some (.parse ⟨"/w/B/Bad.h"⟩
        (parseHeader namelessRecordText "/w/B/Bad.h").diagnostics.errors.toList) := by
    decide +kernel
  have hrun : namelessRecordDisk.runOn (Generation.run namelessRecordSettings) =
      (.error (.parse ⟨"/w/B/Bad.h"⟩
        (parseHeader namelessRecordText "/w/B/Bad.h").diagnostics.errors.toList),
        (namelessRecordDisk.runOn (Generation.run namelessRecordSettings)).2) := by
    generalize namelessRecordDisk.runOn (Generation.run namelessRecordSettings) = r at herror ⊢
    obtain ⟨_ | _, d₁⟩ := r
    · simp_all
    · simp at herror
  have hstops := run_stops_at_first_parse_error namelessRecordSettings namelessRecordDisk
    (namelessRecordDisk.runOn (Generation.run namelessRecordSettings)).2 ⟨"/w/B/Bad.h"⟩
    (parseHeader namelessRecordText "/w/B/Bad.h").diagnostics.errors.toList
  exact ⟨hrun, hstops.1.1 hrun, hstops.2 hrun⟩

end TypeReflection
